import Mender.Proofs.Module.Splice
import Mender.Proofs.Script.ImportLine

/-!
A script with other literals in it and lines in front.

The grammar counts from the end, and it does not look into literals. So the statements of such a
script are those of the lines and the old ones, each with the names it had; of the modules only
those change whose literals were replaced.
-/

namespace Mender.Script

open Mender.Text Mender.Module

/-! ### Cells in the place of others -/

section

variable (f : List Char → List Char) (ms : List Nat)

/-- The cells with other literals in some places; a place is the number of cells behind it. -/
def swapCells : List Cell → List Cell
  | [] => []
  | c :: cs => (if cs.length ∈ ms then .literal (f c.text) else c) :: swapCells cs

@[simp] lemma length_swapCells (cs : List Cell) : (swapCells f ms cs).length = cs.length := by
  induction cs with
  | nil => rfl
  | cons c cs ih => rw [swapCells, List.length_cons, List.length_cons, ih]

lemma drop_swapCells (n : Nat) (cs : List Cell) :
    (swapCells f ms cs).drop n = swapCells f ms (cs.drop n) := by
  induction n generalizing cs with
  | zero => rfl
  | succ n ih =>
    cases cs with
    | nil => rfl
    | cons c cs => exact ih cs

variable {ms}

/-- Cells stay where no literal is replaced. -/
lemma take_swapCells {k : Nat} {cs : List Cell} (h : ∀ m ∈ ms, m < cs.length - k ∨ cs.length ≤ m) :
    (swapCells f ms cs).take k = cs.take k := by
  induction cs generalizing k with
  | nil => rfl
  | cons c cs ih =>
    cases k with
    | zero => rfl
    | succ k =>
      rw [List.length_cons] at h
      have hnot : cs.length ∉ ms := fun hm => by
        have := h _ hm
        omega
      have hrest : ∀ m ∈ ms, m < cs.length - k ∨ cs.length ≤ m := fun m hm => by
        have := h m hm
        omega
      rw [swapCells, if_neg hnot, List.take_succ_cons, List.take_succ_cons, ih hrest]

end

/-! ### The last cells -/

variable {cs ds : List Cell}

lemma lastCells_suffix (h : ds <:+ cs) : lastCells cs ds.length = ds := by
  obtain ⟨as, rfl⟩ := h
  have : (as ++ ds).length - ds.length = as.length := by simp
  rw [lastCells, this, List.drop_left]

lemma lastCells_append {left : Nat} (h : left ≤ cs.length) (xs : List Cell) :
    lastCells (xs ++ cs) left = lastCells cs left := by
  have : (xs ++ cs).length - left = xs.length + (cs.length - left) := by
    rw [List.length_append]
    omega
  rw [lastCells, this, List.drop_append, lastCells]
  simp

lemma length_lastCells {left : Nat} (h : left ≤ cs.length) : (lastCells cs left).length = left := by
  rw [lastCells, List.length_drop]
  omega

lemma lastCells_swapCells (f : List Char → List Char) (ms : List Nat) (left : Nat) :
    lastCells (swapCells f ms cs) left = swapCells f ms (lastCells cs left) := by
  rw [lastCells, length_swapCells, drop_swapCells, lastCells]

/-! ### Parts -/

/-- No place of a literal lies in the part. -/
def Avoids (ms : List Nat) (p : Part) : Prop := ∀ m ∈ ms, m < p.extent.last ∨ p.extent.first ≤ m

section

variable {f : List Char → List Char} {ms : List Nat} {p : Part}

lemma restore_of_avoids (hp : p.extent.first ≤ cs.length) (h : Avoids ms p) (xs : List Cell) :
    (p.restore (xs ++ swapCells f ms cs)).text = (p.restore cs).text := by
  have hfirst : p.extent.first ≤ (swapCells f ms cs).length := by rwa [length_swapCells]
  have hlength := length_lastCells hp
  have htake : ∀ m ∈ ms, m < (lastCells cs p.extent.first).length - (p.extent.first - p.extent.last) ∨
      (lastCells cs p.extent.first).length ≤ m := fun m hm => by
    have := h m hm
    omega
  rw [Part.restore, Part.restore, lastCells_append hfirst, lastCells_swapCells, take_swapCells f htake]

/-- The sign of a literal is the sign of one only. -/
lemma exists_literal {r : List Char} (h : '"' :: r <:+ signs cs) :
    ∃ u ds, Cell.literal u :: ds <:+ cs ∧ ds.length = r.length := by
  obtain ⟨a, ha⟩ := h
  obtain ⟨as, bs, rfl, -, hbs⟩ := List.map_eq_append_iff.1 ha.symm
  obtain ⟨c, ds, rfl, hc, rfl⟩ := List.map_eq_cons_iff.1 hbs
  refine ⟨c.text, ds, ?_, (List.length_map _).symm⟩
  cases c with
  | literal u => exact List.suffix_append _ _
  | unclosed q => exact absurd hc (show '\'' ≠ '"' by decide)
  | plain c =>
    rw [Cell.sign] at hc
    split at hc
    · exact absurd hc (by decide)
    · contradiction

/-- The module of an import is one literal. -/
lemma IsModulePart.exists_literal {rest : List Char} (h : IsModulePart (signs cs) p rest) :
    ∃ u ds, Cell.literal u :: ds <:+ cs ∧ p.extent = ⟨ds.length + 1, ds.length⟩ := by
  obtain ⟨r, hr, -, hp⟩ := h
  obtain ⟨u, ds, hds, hlength⟩ := Script.exists_literal hr
  exact ⟨u, ds, hds, by rw [hp, hlength]⟩

lemma restore_of_suffix {c : Cell} (h : c :: ds <:+ cs) (hp : p.extent = ⟨ds.length + 1, ds.length⟩) :
    (p.restore cs).text = String.ofList c.text := by
  have hlast := lastCells_suffix h
  rw [List.length_cons] at hlast
  have htake : ds.length + 1 - ds.length = 1 := by omega
  simp only [Part.restore, hp, hlast, htake, List.take_succ_cons, List.take_zero, joined_cons,
    joined_nil, List.append_nil]

/-- A literal is replaced where it was picked. -/
lemma restore_of_literal {u : List Char} (h : Cell.literal u :: ds <:+ cs)
    (hp : p.extent = ⟨ds.length + 1, ds.length⟩) (xs : List Cell) :
    (p.restore (xs ++ swapCells f ms cs)).text =
      String.ofList (if p.extent.last ∈ ms then f u else u) := by
  have hsuffix : swapCells f ms (.literal u :: ds) <:+ xs ++ swapCells f ms cs := by
    obtain ⟨as, rfl⟩ := h
    have hdrop := drop_swapCells f ms as.length (as ++ .literal u :: ds)
    rw [List.drop_left] at hdrop
    rw [← hdrop]
    exact (List.drop_suffix _ _).trans (List.suffix_append _ _)
  have hp' : p.extent = ⟨(swapCells f ms ds).length + 1, (swapCells f ms ds).length⟩ := by
    rw [hp, length_swapCells]
  rw [swapCells] at hsuffix
  rw [restore_of_suffix hsuffix hp', hp]
  congr 1
  split <;> rfl

end

/-! ### Rows -/

lemma IsModulePart.last_lt {t rest : List Char} {p : Part} (h : IsModulePart t p rest) :
    p.extent.last < p.extent.first := by
  obtain ⟨r, -, -, hp⟩ := h
  rw [hp]
  exact Nat.lt_succ_self _

lemma FormBetween.import? {t rest : List Char} {s : Statement} (h : FormBetween t s.form rest)
    {i : Import} {p : Part} (hs : s.import? = some (i, p)) :
    ∃ mid, mid <:+ t ∧ IsModulePart mid p rest ∧ NamesBetween t i.names mid := by
  unfold Statement.import? at hs
  split at hs
  · next j hj =>
    obtain ⟨q, hq, he⟩ := Option.map_eq_some_iff.1 hs
    cases he
    exact h _ hj _ hq
  · cases hs

/-- The literals of the modules that are imported. -/
def modulesOf (ss : List Statement) : List Part := ss.filterMap fun s => s.import?.map (·.2)

lemma modulesOf_append (ss ts : List Statement) : modulesOf (ss ++ ts) = modulesOf ss ++ modulesOf ts :=
  List.filterMap_append

lemma mem_modulesOf {ss : List Statement} {p : Part} :
    p ∈ modulesOf ss ↔ ∃ s ∈ ss, ∃ i, s.import? = some (i, p) := by
  simp [modulesOf, List.mem_filterMap]

variable {t : List Char} {ss : List Statement}

lemma InRow.isModulePart (h : InRow t ss) : ∀ p ∈ modulesOf ss, IsModulePart t p [] := by
  intro p hp
  obtain ⟨s, hs, i, hi⟩ := mem_modulesOf.1 hp
  clear hp
  induction h with
  | nil => cases hs
  | cons hform hrest _ ih =>
    rcases List.mem_cons.1 hs with rfl | hs
    · obtain ⟨mid, hmid, hpart, -⟩ := hform.import? hi
      exact hpart.mono hmid List.nil_suffix
    · exact (ih hs).mono hrest (List.suffix_refl _)

/-- Every place behind an import is smaller than those in it. -/
lemma InRow.last_lt {rest : List Char} (h : InRow rest ss) {p : Part} (hp : p ∈ modulesOf ss) :
    p.extent.last < rest.length :=
  ((h.isModulePart p hp).last_lt).trans_le (h.isModulePart p hp).between.first

/-- The modules come one behind the other. -/
lemma InRow.pairwise (h : InRow t ss) :
    (modulesOf ss).Pairwise fun p q => q.extent.last < p.extent.last := by
  induction h with
  | nil => exact .nil
  | @cons t rest s ss hform hrest hrow ih =>
    cases hs : s.import? with
    | none => simpa [modulesOf, hs] using ih
    | some x =>
      obtain ⟨i, p⟩ := x
      obtain ⟨mid, -, hpart, -⟩ := hform.import? hs
      have hlt : ∀ q ∈ modulesOf ss, q.extent.last < p.extent.last := fun q hq =>
        (hrow.last_lt hq).trans_le hpart.between.last
      have hcons : modulesOf (s :: ss) = p :: modulesOf ss := by simp [modulesOf, hs]
      rw [hcons]
      exact .cons hlt ih

/-- **No module stands in the names that are imported.** -/
lemma InRow.avoids (h : InRow t ss) {s : Statement} (hs : s ∈ ss) {i : Import} {p : Part}
    (hi : s.import? = some (i, p)) {n : ImportedName} (hn : n ∈ i.names) :
    n.name.extent.first ≤ t.length ∧ Avoids ((modulesOf ss).map (·.extent.last)) n.name := by
  induction h with
  | nil => cases hs
  | @cons t rest s' ss hform hrest hrow ih =>
    have hlength := hrest.length_le
    rcases List.mem_cons.1 hs with rfl | hs
    · obtain ⟨mid, hmid, hpart, hnames⟩ := hform.import? hi
      have hname := hnames n hn
      have hfirst := hpart.between.first
      have hlast := hpart.between.last
      have hlt := hpart.last_lt
      refine ⟨hname.first, fun m hm => .inl ?_⟩
      obtain ⟨q, hq, rfl⟩ := List.mem_map.1 hm
      have hq' : q = p ∨ q ∈ modulesOf ss := by simpa [modulesOf, hi] using hq
      have hnlast := hname.last
      rcases hq' with rfl | hq
      · omega
      · have := hrow.last_lt hq
        omega
    · obtain ⟨hfirst, havoid⟩ := ih hs
      refine ⟨hfirst.trans hlength, fun m hm => ?_⟩
      obtain ⟨q, hq, rfl⟩ := List.mem_map.1 hm
      obtain ⟨s'', hs'', j, hj⟩ := mem_modulesOf.1 hq
      rcases List.mem_cons.1 hs'' with rfl | hs''
      · obtain ⟨mid, -, hpart, -⟩ := hform.import? hj
        exact .inr (hfirst.trans hpart.between.last)
      · exact havoid _ (List.mem_map_of_mem (mem_modulesOf.2 ⟨s'', hs'', j, hj⟩))

/-! ### Statements put back -/

mutual

lemma Pattern.names_restore (cs : List Cell) : ∀ p : Pattern, (p.restore cs).names = p.names
  | .name n => by rw [Pattern.restore]
  | .object fields => by rw [Pattern.restore, Pattern.names, Pattern.names, fieldNames_restore]
  | .array items => by rw [Pattern.restore, Pattern.names, Pattern.names, patternNames_restore]
  | .rest p => by rw [Pattern.restore, Pattern.names, Pattern.names, Pattern.names_restore]
  | .withDefault p value => by rw [Pattern.restore, Pattern.names, Pattern.names, Pattern.names_restore]

lemma Field.names_restore (cs : List Cell) : ∀ f : Field, (f.restore cs).names = f.names
  | .short n => by rw [Field.restore]
  | .shortDefault n value => by rw [Field.restore, Field.names, Field.names]
  | .pair key p => by rw [Field.restore, Field.names, Field.names, Pattern.names_restore]
  | .rest p => by rw [Field.restore, Field.names, Field.names, Pattern.names_restore]

lemma fieldNames_restore (cs : List Cell) : ∀ fs, fieldNames (restoreFields cs fs) = fieldNames fs
  | [] => by rw [restoreFields]
  | f :: fs => by
    rw [restoreFields, fieldNames, fieldNames, Field.names_restore, fieldNames_restore]

lemma patternNames_restore (cs : List Cell) :
    ∀ ps, patternNames (restorePatterns cs ps) = patternNames ps
  | [] => by rw [restorePatterns]
  | p :: ps => by
    rw [restorePatterns, patternNames, patternNames, Pattern.names_restore, patternNames_restore]

end

lemma Declaration.names_restore (cs : List Cell) (d : Declaration) :
    (d.restore cs).names = d.names := by
  cases d with
  | bindings ds =>
    rw [Declaration.restore, Declaration.names, Declaration.names, List.flatMap_map]
    exact congrArg List.flatten (List.map_congr_left fun d _ => Pattern.names_restore cs d.pattern)
  | _ => rfl

lemma Statement.declaredNames_restore (cs : List Cell) (s : Statement) :
    (s.restore cs).declaredNames = s.declaredNames := by
  obtain ⟨extent, form⟩ := s
  cases form with
  | declares d => exact Declaration.names_restore cs d
  | exports e =>
    cases e with
    | declaration d extent isDefault => exact Declaration.names_restore cs d
    | _ => rfl
  | _ => rfl

lemma Statement.import?_restore (cs : List Cell) (s : Statement) :
    (s.restore cs).import? = s.import?.map fun x => (x.1.restore cs, x.2.restore cs) := by
  obtain ⟨extent, form⟩ := s
  cases form with
  | imports i =>
    obtain ⟨typeOnly, source, default, whole, names⟩ := i
    cases source <;> rfl
  | _ => rfl

lemma modulesOf_restore (cs : List Cell) (ss : List Statement) :
    modulesOf (ss.map (Statement.restore cs)) = (modulesOf ss).map (Part.restore cs) := by
  simp only [modulesOf, List.filterMap_map, List.map_filterMap, Function.comp_def,
    Statement.import?_restore, Option.map_map]

/-- A statement binds the names it bound if the imported names read the same. -/
lemma Statement.boundNames_restore {s : Statement} {cs ds : List Cell}
    (h : ∀ i p, s.import? = some (i, p) → ∀ n ∈ i.names,
      (n.name.restore ds).text = (n.name.restore cs).text) :
    (s.restore ds).boundNames = (s.restore cs).boundNames := by
  unfold Statement.boundNames
  rw [Statement.import?_restore, Statement.import?_restore]
  cases hs : s.import? with
  | none => exact (s.declaredNames_restore ds).trans (s.declaredNames_restore cs).symm
  | some x =>
    obtain ⟨i, p⟩ := x
    have hname : ∀ n ∈ i.names, (n.restore ds).localName = (n.restore cs).localName := fun n hn => by
      simp only [ImportedName.localName, ImportedName.restore, Part.value, h i p hs n hn]
    have hlocal (cs : List Cell) : ((i.restore cs).names.filter fun n => !n.typeOnly) =
        (i.names.filter fun n => !n.typeOnly).map (ImportedName.restore cs) := List.filter_map
    simp only [Option.map_some, Import.boundNames, hlocal, List.map_map]
    congr 1
    exact List.map_congr_left fun n hn => hname n (List.mem_filter.1 hn).1

/-! ### Whole scripts -/

/-- The statements of a script as the grammar gives them. -/
def rowOf (t : List Char) : List Statement := statementsOf (signs (cells t))

lemma inRow_rowOf (t : List Char) : InRow (signs (cells t)) (rowOf t) := inRow_readStatements _ _

lemma statements_parse (t : List Char) :
    (parse t).statements = (rowOf t).map (Statement.restore (cells t)) := by
  have hlength : (skipInterpreter (signs (cells t))).length ≤ (signs (cells t)).length := by
    unfold skipInterpreter
    split
    · exact (List.dropWhile_suffix _).length_le
    · exact Nat.le_refl _
  have hread : (readSigns (signs (cells t))).statements = rowOf t := by
    rw [rowOf, ← statementsOf_skipInterpreter, statementsOf,
      readStatements_eq (Nat.lt_succ_self _) (Nat.lt_succ_of_le hlength)]
    rfl
  rw [← hread]
  rfl

/-- Without a fault the cells are closed. -/
lemma closed_of_fault {t : List Char} (h : (parse t).fault = none) : Closed {} (cells t) := by
  have hnone : (readSigns (signs (cells t))).fault.or (fromUnclosed? (cells t)) = none :=
    Option.map_eq_none_iff.1 h
  exact closed_cells (Option.or_eq_none_iff.1 hnone).2

lemma forall₂_swapCells {f : List Char → List Char} (hf : ∀ u, IsLiteral (f u)) {ms : List Nat}
    {cs : List Cell} (h : ∀ c ds, c :: ds <:+ cs → ds.length ∈ ms → ∃ u, c = .literal u) :
    List.Forall₂ SwapsTo cs (swapCells f ms cs) := by
  induction cs with
  | nil => exact .nil
  | cons c cs ih =>
    refine .cons ?_ (ih fun d ds hd => h d ds (hd.trans (List.suffix_cons _ _)))
    split
    · next hm =>
      obtain ⟨u, rfl⟩ := h c cs (List.suffix_refl _) hm
      exact .inr ⟨u, _, rfl, rfl, hf u⟩
    · exact .inl rfl

/-- The cells at the places of modules are literals. -/
lemma InRow.swapsTo {cs : List Cell} {ss : List Statement} (h : InRow (signs cs) ss)
    {f : List Char → List Char} (hf : ∀ u, IsLiteral (f u)) {ms : List Nat}
    (hms : ms ⊆ (modulesOf ss).map (·.extent.last)) :
    List.Forall₂ SwapsTo cs (swapCells f ms cs) := by
  refine forall₂_swapCells hf fun c ds hds hm => ?_
  obtain ⟨p, hp, hlast⟩ := List.mem_map.1 (hms hm)
  obtain ⟨u, es, hes, hextent⟩ := (h.isModulePart p hp).exists_literal
  have hlength : (Cell.literal u :: es).length = (c :: ds).length := by
    rw [hextent] at hlast
    exact congrArg (· + 1) hlast
  have heq := (List.suffix_of_suffix_length_le hes hds hlength.le).eq_of_length hlength
  exact ⟨u, (List.cons.inj heq).1.symm⟩

/-! ### Lines in front -/

/-- The cells of some lines, each with its name and its module. -/
def lineCells (ls : List (List Char × List Char)) : List Cell := ls.flatMap fun l => importCells l.1 l.2

/-- The statements of some lines in front of as many cells as are left. -/
def lineStatements : List (List Char × List Char) → (left : Nat) → List Statement
  | [], _ => []
  | l :: ls, left =>
    lineStatement (String.ofList l.1) (l.1.length + 15) ((lineCells ls).length + left) ::
      lineStatements ls left

lemma isTame_of_isNameChar {c : Char} (h : isNameChar c = true) : isTame c = true := by
  have hsubset : "\"'/#\x60(){}[]".toList ⊆ ":;\x60\"'@#.,|^&<=>+-*/\\%?!~()[]\x7b\x7d".toList := by
    decide
  have hdigit : "\"'/#\x60(){}[]".toList.all (fun c => !c.isDigit) = true := by decide
  rw [isTame, Bool.not_eq_true', Bool.eq_false_iff]
  intro hc
  have hmem := List.contains_iff_mem.1 hc
  rcases Bool.or_eq_true_iff.1 h with h | h
  · simp only [isNameStart, Bool.and_eq_true, Bool.not_eq_true'] at h
    have hpunctuation : isPunctuation c = true := List.contains_iff_mem.2 (hsubset hmem)
    rw [h.1.2] at hpunctuation
    cases hpunctuation
  · have := List.all_eq_true.1 hdigit c hmem
    rw [h] at this
    cases this

lemma IsLineName.tame {w : List Char} (hw : IsLineName w) : ∀ c ∈ w, isTame c = true :=
  fun c hc => isTame_of_isNameChar (hw.word.all c hc)

section Lines

variable {ls : List (List Char × List Char)} (hls : ∀ l ∈ ls, IsLineName l.1)

include hls

lemma closed_lineCells {cs : List Cell} (hcs : Closed {} cs) : Closed {} (lineCells ls ++ cs) := by
  induction ls with
  | nil => exact hcs
  | cons l ls ih =>
    obtain ⟨hl, hls⟩ := List.forall_mem_cons.1 hls
    rw [lineCells, List.flatMap_cons, List.append_assoc]
    exact closed_importCells hl.tame (ih hls)

/-- Lines are statements in front of the others. -/
lemma statementsOf_lineCells (cs : List Cell) : statementsOf (signs (lineCells ls ++ cs)) =
    lineStatements ls cs.length ++ statementsOf (signs cs) := by
  induction ls with
  | nil => rfl
  | cons l ls ih =>
    obtain ⟨hl, hls⟩ := List.forall_mem_cons.1 hls
    have hsplit : lineCells (l :: ls) ++ cs = importCells l.1 l.2 ++ (lineCells ls ++ cs) := by
      rw [lineCells, List.flatMap_cons, List.append_assoc, lineCells]
    rw [hsplit, signs_append, signs_importCells hl.tame, statementsOf_importLine hl, ih hls,
      length_signs, List.length_append, lineStatements, List.cons_append]

end Lines

/-- The cells of a line at its place. -/
lemma restore_lineStatement {cs ds : List Cell} {name specifier : List Char}
    (h : importCells name specifier ++ ds <:+ cs) (n : String) (length : Nat) :
    ((lineStatement n length ds.length).restore cs).boundNames = [n] ∧
      (modulesOf [(lineStatement n length ds.length).restore cs]).map (·.text) =
        [String.ofList (Json.quote specifier)] := by
  have hliteral : Cell.literal (Json.quote specifier) :: Cell.plain ';' :: ds <:+ cs := by
    refine List.IsSuffix.trans ?_ h
    unfold importCells
    rw [List.append_assoc]
    exact List.suffix_append _ _
  have htext := restore_of_suffix (p := ⟨⟨ds.length + 2, ds.length + 1⟩, "\""⟩) hliteral rfl
  exact ⟨rfl, congrArg (fun t => [t]) htext⟩

lemma restore_lineStatements {ls : List (List Char × List Char)} {cs ds : List Cell}
    (h : lineCells ls ++ ds <:+ cs) :
    ((lineStatements ls ds.length).map (Statement.restore cs)).flatMap Statement.boundNames =
        ls.map (fun l => String.ofList l.1) ∧
      (modulesOf ((lineStatements ls ds.length).map (Statement.restore cs))).map (·.text) =
        ls.map fun l => String.ofList (Json.quote l.2) := by
  induction ls with
  | nil => exact ⟨rfl, rfl⟩
  | cons l ls ih =>
    have hsplit : lineCells (l :: ls) ++ ds = importCells l.1 l.2 ++ (lineCells ls ++ ds) := by
      rw [lineCells, List.flatMap_cons, List.append_assoc, lineCells]
    rw [hsplit] at h
    obtain ⟨hnames, hmodules⟩ := ih ((List.suffix_append _ _).trans h)
    obtain ⟨hname, hmodule⟩ := restore_lineStatement h (String.ofList l.1) (l.1.length + 15)
    rw [List.length_append] at hname hmodule
    rw [lineStatements, List.map_cons]
    generalize (lineStatement _ _ _).restore cs = s at hname hmodule ⊢
    have hcons (ss : List Statement) : modulesOf (s :: ss) = modulesOf [s] ++ modulesOf ss :=
      modulesOf_append [s] ss
    rw [List.flatMap_cons, hname, hnames, hcons, List.map_append, hmodule, hmodules]
    exact ⟨rfl, rfl⟩

/-- **A script with other literals and with lines in front** binds the old names and those of the
lines, and it imports the modules of the lines and the old ones, but for the literals that were
replaced. -/
theorem parse_lineCells_swapCells {t : List Char} (hclosed : Closed {} (cells t))
    {f : List Char → List Char} (hf : ∀ u, IsLiteral (f u)) {ms : List Nat}
    (hms : ms ⊆ (modulesOf (rowOf t)).map (·.extent.last)) {ls : List (List Char × List Char)}
    (hls : ∀ l ∈ ls, IsLineName l.1) :
    let new := parse (joined (lineCells ls ++ swapCells f ms (cells t)))
    new.statements.flatMap Statement.boundNames =
        ls.map (fun l => String.ofList l.1) ++ (parse t).statements.flatMap Statement.boundNames ∧
      (modulesOf new.statements).map (·.text) =
        ls.map (fun l => String.ofList (Json.quote l.2)) ++ (modulesOf (rowOf t)).map fun p =>
          if p.extent.last ∈ ms then String.ofList (f (p.restore (cells t)).text.toList)
          else (p.restore (cells t)).text := by
  intro new
  have hrow := inRow_rowOf t
  have hswaps := hrow.swapsTo hf hms
  have hnew : Closed {} (lineCells ls ++ swapCells f ms (cells t)) :=
    closed_lineCells hls (hclosed.swap hswaps)
  have hstatements : new.statements =
      ((lineStatements ls (swapCells f ms (cells t)).length ++ rowOf t).map
        (Statement.restore (lineCells ls ++ swapCells f ms (cells t)))) := by
    have hcells : cells (joined (lineCells ls ++ swapCells f ms (cells t))) =
        lineCells ls ++ swapCells f ms (cells t) := cellsFrom_joined hnew
    rw [statements_parse, rowOf, hcells, statementsOf_lineCells hls, signs_of_swaps hswaps]
    rfl
  obtain ⟨hlines, hmodules⟩ := restore_lineStatements
    (List.suffix_refl (lineCells ls ++ swapCells f ms (cells t)))
  rw [hstatements, List.map_append]
  constructor
  · rw [List.flatMap_append, hlines, statements_parse]
    simp only [List.flatMap_map]
    refine congrArg _ (congrArg List.flatten (List.map_congr_left fun s hs =>
      Statement.boundNames_restore fun i p hi n hn => ?_))
    obtain ⟨hfirst, havoid⟩ := hrow.avoids hs hi hn
    rw [length_signs] at hfirst
    exact restore_of_avoids hfirst (fun m hm => havoid m (hms hm)) _
  · rw [modulesOf_append, List.map_append, hmodules, modulesOf_restore, List.map_map]
    congr 1
    refine List.map_congr_left fun p hp => ?_
    obtain ⟨u, ds, hds, hextent⟩ := (hrow.isModulePart p hp).exists_literal
    have hold := restore_of_suffix hds hextent
    rw [Function.comp_apply, restore_of_literal hds hextent, hold, Cell.text]
    split <;> simp

end Mender.Script
