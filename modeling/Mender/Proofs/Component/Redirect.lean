import Mathlib.Data.List.Nodup
import Mender.Component.Stubs
import Mender.Proofs.Markup.Layout
import Mender.Proofs.Script.Swap

/-!
A script whose missing modules have stand-ins.

The literals of the missing modules are replaced by others, and lines may be put in front. No name
that was bound is lost, no local module is missing any more, and no closing tag comes about.
-/

namespace Mender.Component

open Mender.Text Mender.Markup Mender.Script Mender.Module

/-! ### The literals of stand-ins -/

/-- The literal that takes the place of a missing module's. -/
def standInLiteral (text : List Char) : List Char := Json.quote (stubMark.toList ++ unquote text)

lemma isLiteral_standInLiteral (text : List Char) : IsLiteral (standInLiteral text) := isLiteral_quote _

/-- The replacement of a module's literal in a script that starts at `place`. -/
def redirectionOf (place : Nat) (origin : Part) : Extent × List Char :=
  (⟨place + origin.extent.first, place + origin.extent.last⟩, standInLiteral origin.text.toList)

lemma redirection_eq (p : PlacedImport) : redirection p = redirectionOf p.place p.origin := by
  have htext : (quoted (standInFor p).specifier).toList = standInLiteral p.origin.text.toList := by
    simp only [quoted, standInFor, PlacedImport.specifier, Part.value, standInLiteral,
      String.toList_ofList, String.toList_append]
  rw [redirection, redirectionOf, htext]

lemma unquote_quote (t : List Char) : unquote (Json.quote t) = t.flatMap Json.escapeChar := by
  have hlast : (t.flatMap Json.escapeChar ++ ['"']).getLast? = some '"' := List.getLast?_concat
  show unquote ('"' :: (t.flatMap Json.escapeChar ++ ['"'])) = _
  rw [unquote, hlast, List.dropLast_concat]
  rfl

/-- What a text reads as between the quotes of its literal. -/
def written (s : String) : String := String.ofList (s.toList.flatMap Json.escapeChar)

/-- What the specifier of an import reads as behind the redirections. -/
def redirect (keys : List String) (s : String) : String :=
  if isMissing keys s then written (stubMark ++ s) else s

lemma infix_unquote (t : List Char) : unquote t <:+: t := by
  unfold unquote
  split
  · next c r =>
    split
    · split
      · exact (List.dropLast_prefix r).isInfix.trans (List.suffix_cons _ _).isInfix
      · exact List.infix_refl _
    · exact List.infix_refl _
  · exact List.infix_refl _

lemma written_stubMark (s : String) : written (stubMark ++ s) = stubMark ++ written s := by
  rw [written, String.toList_append, List.flatMap_append, String.ofList_append, written]
  rfl

/-- The mark of stand-ins begins no local path. -/
lemma isLocal_stubMark (s : String) : isLocal (stubMark ++ s) = false := by
  have htext : (stubMark ++ s).toList = 'p' :: ("w-stub:".toList ++ s.toList) := by
    rw [String.toList_append]
    rfl
  rw [isLocal, htext]
  simp [isRelative, belowLibrary, startsWith, after?]

lemma isMissing_redirect (keys : List String) (s : String) : isMissing keys (redirect keys s) = false := by
  unfold redirect
  split
  · rw [written_stubMark, isMissing, isLocal_stubMark, Bool.false_and]
  · next h => exact Bool.eq_false_iff.2 h

/-! ### The edit of a script -/

/-- The cells of a script as pieces, some of them swapped. -/
def cellPieces (f : List Char → List Char) (ms : List Nat) : List Cell → List Module.Piece
  | [] => []
  | c :: cs =>
    (if cs.length ∈ ms then .swapped c.text (f c.text) else .kept c.text) :: cellPieces f ms cs

section

variable {f : List Char → List Char} {ms : List Nat}

lemma oldText_cellPieces (cs : List Cell) : oldText (cellPieces f ms cs) = joined cs := by
  induction cs with
  | nil => rfl
  | cons c cs ih =>
    rw [cellPieces, oldText_cons, ih, joined_cons]
    split <;> rfl

lemma newText_cellPieces (cs : List Cell) :
    newText (cellPieces f ms cs) = joined (swapCells f ms cs) := by
  induction cs with
  | nil => rfl
  | cons c cs ih =>
    rw [cellPieces, newText_cons, ih, swapCells, joined_cons]
    split <;> rfl

lemma added_cellPieces (cs : List Cell) : added (cellPieces f ms cs) = [] := by
  induction cs with
  | nil => rfl
  | cons c cs ih =>
    rw [cellPieces]
    split <;> exact ih

/-- The replacement of the literal with a number of cells behind it. -/
def swapAt (f : List Char → List Char) (cs : List Cell) (place m : Nat) : Extent × List Char :=
  (⟨place + placeOf cs (m + 1), place + placeOf cs m⟩, f (joined ((lastCells cs (m + 1)).take 1)))

lemma lastCells_cons {c : Cell} {cs : List Cell} {left : Nat} (h : left ≤ cs.length) :
    lastCells (c :: cs) left = lastCells cs left :=
  lastCells_append h [c]

lemma placeOf_cons {c : Cell} {cs : List Cell} {left : Nat} (h : left ≤ cs.length) :
    placeOf (c :: cs) left = width c.text + placeOf cs left := by
  have hle : width (joined (lastCells cs left)) ≤ width (joined cs) := by
    obtain ⟨as, hs⟩ : lastCells cs left <:+ cs := List.drop_suffix _ _
    rw [← hs, joined_append, width_append, hs]
    exact Nat.le_add_left _ _
  rw [placeOf, placeOf, lastCells_cons h, joined_cons, width_append]
  omega

lemma swapAt_cons {c : Cell} {cs : List Cell} {m : Nat} (h : m < cs.length) (place : Nat) :
    swapAt f (c :: cs) place m = swapAt f cs (place + width c.text) m := by
  rw [swapAt, swapAt, placeOf_cons h, placeOf_cons h.le, lastCells_cons h, Nat.add_assoc, Nat.add_assoc]

lemma swapAt_head (c : Cell) (cs : List Cell) (place : Nat) :
    swapAt f (c :: cs) place cs.length = (⟨place, place + width c.text⟩, f c.text) := by
  have hall : lastCells (c :: cs) (cs.length + 1) = c :: cs := lastCells_suffix (List.suffix_refl _)
  have hrest : lastCells (c :: cs) cs.length = cs := lastCells_suffix (List.suffix_cons _ _)
  simp [swapAt, placeOf, hall, hrest]

/-- **The replacements are those at the places that were picked.** -/
theorem swaps_cellPieces {cs : List Cell} (hms : ms.Pairwise (· > ·)) (hlt : ∀ m ∈ ms, m < cs.length)
    (place : Nat) : swaps place (cellPieces f ms cs) = ms.map (swapAt f cs place) := by
  induction cs generalizing place ms with
  | nil =>
    cases ms with
    | nil => rfl
    | cons m ms => exact absurd (hlt m List.mem_cons_self) (Nat.not_lt_zero _)
  | cons c cs ih =>
    -- only the first place can be that of the first cell
    have hrest {ns : List Nat} (hns : ns.Pairwise (· > ·)) (hlt : ∀ n ∈ ns, n < cs.length) :
        ns.map (swapAt f (c :: cs) place) = swaps (place + width c.text) (cellPieces f ns cs) := by
      rw [ih hns hlt]
      exact List.map_congr_left fun n hn => swapAt_cons (hlt n hn) place
    rw [cellPieces]
    split
    · next hmem =>
      obtain ⟨m, ns, rfl⟩ := List.exists_cons_of_ne_nil (List.ne_nil_of_mem hmem)
      obtain ⟨hm, hns⟩ := List.pairwise_cons.1 hms
      have hfirst : m = cs.length := by
        have hmlt : m < cs.length + 1 := hlt m List.mem_cons_self
        rcases List.mem_cons.1 hmem with h | h
        · exact h.symm
        · have := hm _ h
          omega
      have hpieces (ds : List Cell) (hd : ds.length ≤ m) : cellPieces f (m :: ns) ds = cellPieces f ns ds := by
        induction ds with
        | nil => rfl
        | cons d ds ihd =>
          rw [List.length_cons] at hd
          have hne : ds.length ≠ m := by omega
          rw [cellPieces, cellPieces, ihd (by omega)]
          simp only [List.mem_cons, hne, false_or]
      rw [List.map_cons, hfirst, swapAt_head, hrest hns fun n hn => hfirst ▸ hm n hn, ← hfirst,
        hpieces cs hfirst.ge, swaps]
    · next hmem =>
      have hlt' : ∀ m ∈ ms, m < cs.length := fun m hm => by
        have : m < cs.length + 1 := hlt m hm
        have hne : m ≠ cs.length := fun he => hmem (he ▸ hm)
        omega
      rw [hrest hms hlt']
      rfl

end

/-! ### No closing tag comes about -/

section

variable {m a x y : List Char}

lemma prefix_append_mono (h : ∀ n, n <:+ m → n <+: x → n <+: y) (hp : m <+: a ++ x) : m <+: a ++ y := by
  induction a generalizing m with
  | nil => exact h m (List.suffix_refl _) hp
  | cons c a ih =>
    cases m with
    | nil => exact List.nil_prefix
    | cons d m =>
      rw [List.cons_append, List.cons_prefix_cons] at hp ⊢
      exact ⟨hp.1, ih (fun n hn => h n (hn.trans (List.suffix_cons _ _))) hp.2⟩

lemma infix_append_mono (hp : ∀ n, n <:+ m → n <+: x → n <+: y) (hi : m <:+: x → m <:+: y)
    (h : m <:+: a ++ x) : m <:+: a ++ y := by
  induction a with
  | nil => exact hi h
  | cons c a ih =>
    rcases List.infix_cons_iff.1 h with h | h
    · exact (prefix_append_mono (a := c :: a) hp h).isInfix
    · exact List.infix_cons_iff.2 (.inr (ih h))

/-- A text without a character stands on one side of it. -/
lemma infix_append_cons {d : Char} {b : List Char} (hd : d ∉ m) (h : m <:+: a ++ d :: b) :
    m <:+: a ∨ m <:+: b := by
  induction a with
  | nil =>
    rcases List.infix_cons_iff.1 h with h | h
    · cases m with
      | nil => exact .inl (List.infix_refl _)
      | cons c m => exact absurd (List.cons_prefix_cons.1 h).1.symm (mt (· ▸ List.mem_cons_self) hd)
    · exact .inr h
  | cons c a ih =>
    rcases List.infix_cons_iff.1 h with h | h
    · refine .inl ?_
      rcases List.prefix_or_prefix_of_prefix h (List.prefix_append (c :: a) (d :: b)) with hm | ⟨n, rfl⟩
      · exact hm.isInfix
      · cases n with
        | nil => exact (List.append_nil (c :: a)).symm ▸ List.infix_refl _
        | cons e n =>
          obtain ⟨rfl, -⟩ := List.cons_prefix_cons.1 ((List.prefix_append_right_inj (c :: a)).1 h)
          exact absurd (List.mem_append_right _ List.mem_cons_self) hd
    · rcases ih h with h | h
      · exact .inl (List.infix_cons_iff.2 (.inr h))
      · exact .inr h

/-- A text that stands in no literal of its own. -/
structure Outside (m : List Char) : Prop where
  unescaped : Json.Unescaped m
  quote : '"' ∉ m
  mark : ∀ c, m.head? = some c → c ∉ stubMark.toList

/-- The name of a closing tag stands in no literal of its own. -/
lemma outside_closing (h : IsName Kind.script.closing m) : Outside m := by
  have hnot {c : Char} (hc : c.toLower ∉ Kind.script.closing) : c ∉ m := fun hm => by
    rw [← h] at hc
    exact hc (List.mem_map_of_mem hm)
  obtain ⟨c, ns, rfl⟩ : ∃ c ns, m = c :: ns := by
    refine List.exists_cons_of_ne_nil fun hm => ?_
    rw [hm] at h
    cases h
  have hc : c = '<' := eq_of_toLower (by decide) (List.cons.inj h).1
  refine ⟨⟨hnot (by decide), c, ns, rfl, ?_⟩, hnot (by decide), ?_⟩
  · rw [hc]
    decide
  · intro d hd
    rw [← Option.some.inj hd, hc]
    decide

lemma Outside.infix_of_standInLiteral (hm : Outside m) {t : List Char}
    (h : m <:+: standInLiteral t ++ x) : m <:+: t ∨ m <:+: x := by
  obtain ⟨n, ns, rfl, -⟩ := hm.unescaped.head
  have hquote : n ∉ ['"'] := fun hn => hm.quote (List.mem_singleton.1 hn ▸ List.mem_cons_self)
  have htext : standInLiteral t ++ x =
      ['"'] ++ ((stubMark.toList ++ unquote t).flatMap Json.escapeChar ++ '"' :: x) := by
    simp [standInLiteral, Json.quote]
  rw [htext] at h
  rcases infix_append_cons hm.quote (Json.infix_of_infix_append hquote h) with h | h
  · refine .inl ((Json.infix_of_infix_append (hm.mark n rfl) ?_).trans (infix_unquote t))
    exact Json.infix_of_infix_flatMap_escapeChar hm.unescaped h
  · exact .inr h

/-- What stands in the new text outside the literals stood in the old one. -/
lemma prefix_of_prefix_swapCells {ms : List Nat} (hq : '"' ∉ m) {cs : List Cell}
    (h : m <+: joined (swapCells standInLiteral ms cs)) : m <+: joined cs := by
  induction cs generalizing m with
  | nil => exact h
  | cons c cs ih =>
    rw [swapCells, joined_cons] at h
    rw [joined_cons]
    split at h
    · cases m with
      | nil => exact List.nil_prefix
      | cons d m =>
        have hd : d = '"' := (List.cons_prefix_cons.1 h).1
        exact absurd (hd ▸ List.mem_cons_self) hq
    · exact prefix_append_mono (fun n hn => ih (mt (hn.subset ·) hq)) h

/-- **Stand-ins bring nothing new** but their marks. -/
theorem infix_of_infix_swapCells {ms : List Nat} (hm : Outside m) {cs : List Cell}
    (h : m <:+: joined (swapCells standInLiteral ms cs)) : m <:+: joined cs := by
  induction cs with
  | nil => exact h
  | cons c cs ih =>
    rw [swapCells, joined_cons] at h
    rw [joined_cons]
    split at h
    · rcases hm.infix_of_standInLiteral h with h | h
      · exact h.trans (List.prefix_append _ _).isInfix
      · exact (ih h).trans (List.suffix_append _ _).isInfix
    · exact infix_append_mono (fun n hn => prefix_of_prefix_swapCells (mt (hn.subset ·) hm.quote)) ih h

end

/-! ### The content of a script -/

variable {keys : List String} {t : List Char}

/-- The literals of the missing modules, as the grammar gives them. -/
def missingParts (keys : List String) (t : List Char) : List Part :=
  (modulesOf (rowOf t)).filter fun p => isMissing keys (p.restore (cells t)).value

def missingPlaces (keys : List String) (t : List Char) : List Nat :=
  (missingParts keys t).map (·.extent.last)

/-- A script piece by piece, with stand-ins for its missing modules. -/
def scriptPieces (keys : List String) (t : List Char) : List Module.Piece :=
  cellPieces standInLiteral (missingPlaces keys t) (cells t)

/-- A script with stand-ins for its missing modules. -/
def redirected (keys : List String) (t : List Char) : List Char :=
  joined (swapCells standInLiteral (missingPlaces keys t) (cells t))

lemma missingPlaces_subset (keys : List String) (t : List Char) :
    missingPlaces keys t ⊆ (modulesOf (rowOf t)).map (·.extent.last) :=
  (List.filter_sublist.map _).subset

lemma oldText_scriptPieces : oldText (scriptPieces keys t) = t := by
  rw [scriptPieces, oldText_cellPieces, joined_cells]

lemma newText_scriptPieces : newText (scriptPieces keys t) = redirected keys t :=
  newText_cellPieces _

lemma importsIn_eq (place : Nat) (s : Tree) : importsIn place s =
    (s.statements.filterMap Statement.import?).map fun x => ⟨place, x.1, x.2⟩ := by
  simp only [importsIn, List.map_filterMap]

lemma map_origin_importsIn (place : Nat) (s : Tree) :
    (importsIn place s).map (·.origin) = modulesOf s.statements := by
  simp only [importsIn_eq, modulesOf, List.map_filterMap, Option.map_map, Function.comp_def]

/-- The specifiers of the modules that a script imports. -/
def specifiersIn (s : Tree) : List String := (modulesOf s.statements).map Part.value

lemma map_specifier_importsIn (place : Nat) (s : Tree) :
    (importsIn place s).map (·.specifier) = specifiersIn s := by
  rw [specifiersIn, ← map_origin_importsIn place, List.map_map]
  rfl

lemma place_of_mem_importsIn {place : Nat} {s : Tree} {p : PlacedImport} (h : p ∈ importsIn place s) :
    p.place = place := by
  rw [importsIn_eq] at h
  obtain ⟨x, -, rfl⟩ := List.mem_map.1 h
  rfl

/-- The redirections of a script are those of its missing modules. -/
lemma map_redirection_importsIn (place : Nat) (s : Tree) :
    ((importsIn place s).filter fun p => isMissing keys p.specifier).map redirection =
      ((modulesOf s.statements).filter fun p => isMissing keys p.value).map (redirectionOf place) := by
  have heq : ((importsIn place s).filter fun p => isMissing keys p.specifier).map redirection =
      ((importsIn place s).filter fun p => isMissing keys p.specifier).map
        fun p => redirectionOf place p.origin :=
    List.map_congr_left fun p hp => by
      rw [redirection_eq, place_of_mem_importsIn (List.mem_filter.1 hp).1]
  rw [heq, ← map_origin_importsIn place, List.filter_map, List.map_map]
  rfl

lemma pairwise_missingPlaces (keys : List String) (t : List Char) :
    (missingPlaces keys t).Pairwise (· > ·) :=
  List.pairwise_map.2 ((inRow_rowOf t).pairwise.sublist List.filter_sublist)

lemma missingPlaces_lt (keys : List String) (t : List Char) :
    ∀ m ∈ missingPlaces keys t, m < (cells t).length := by
  intro m hm
  obtain ⟨p, hp, rfl⟩ := List.mem_map.1 (missingPlaces_subset keys t hm)
  have := (inRow_rowOf t).last_lt hp
  rwa [length_signs] at this

/-- The places of two modules are not the same. -/
lemma mem_missingPlaces_iff {p : Part} (hp : p ∈ modulesOf (rowOf t)) :
    p.extent.last ∈ missingPlaces keys t ↔ isMissing keys (p.restore (cells t)).value = true := by
  constructor
  · intro h
    obtain ⟨q, hq, hlast⟩ := List.mem_map.1 h
    obtain ⟨hq, hmissing⟩ := List.mem_filter.1 hq
    have hnodup : ((modulesOf (rowOf t)).map (·.extent.last)).Nodup :=
      List.pairwise_map.2 ((inRow_rowOf t).pairwise.imp fun h => Nat.ne_of_gt h)
    rwa [List.inj_on_of_nodup_map hnodup hq hp hlast] at hmissing
  · exact fun h => List.mem_map_of_mem (List.mem_filter.2 ⟨hp, h⟩)

/-- The replacement of a module's literal. -/
lemma swapAt_module {p : Part} (hp : p ∈ modulesOf (rowOf t)) (place : Nat) :
    swapAt standInLiteral (cells t) place p.extent.last = redirectionOf place (p.restore (cells t)) := by
  obtain ⟨u, ds, -, hextent⟩ := ((inRow_rowOf t).isModulePart p hp).exists_literal
  simp only [swapAt, redirectionOf, Part.restore, Extent.restore, hextent, String.toList_ofList,
    Nat.add_sub_cancel_left]

/-- **The replacements in a script** are the redirections of its missing modules. -/
theorem swaps_scriptPieces (place : Nat) : swaps place (scriptPieces keys t) =
    ((importsIn place (parse t)).filter fun p => isMissing keys p.specifier).map redirection := by
  have hparts : ((modulesOf (parse t).statements).filter fun p => isMissing keys p.value) =
      (missingParts keys t).map (Part.restore (cells t)) := by
    rw [statements_parse, modulesOf_restore, List.filter_map, missingParts]
    simp only [Function.comp_def]
  have hswaps : (missingPlaces keys t).map (swapAt standInLiteral (cells t) place) =
      (missingParts keys t).map fun p => redirectionOf place (p.restore (cells t)) := by
    rw [missingPlaces, List.map_map]
    refine List.map_congr_left fun p hp => ?_
    rw [Function.comp_apply, swapAt_module (List.mem_filter.1 hp).1]
  rw [scriptPieces, swaps_cellPieces (pairwise_missingPlaces keys t) (missingPlaces_lt keys t),
    map_redirection_importsIn, hparts, hswaps, List.map_map]
  simp only [Function.comp_def]

/-! ### Lines for tags -/

/-- The lines of some tags, each with its name and the module. -/
def tagLines (ns : List String) : List (List Char × List Char) :=
  ns.map fun n => (n.toList, (standInForTag n).specifier.toList)

lemma joined_tagLines (ns : List String) :
    joined (lineCells (tagLines ns)) = importLines (ns.map standInForTag) := by
  induction ns with
  | nil => rfl
  | cons n ns ih =>
    have hline : joined (importCells n.toList (standInForTag n).specifier.toList) =
        (importLine (standInForTag n)).toList := by
      simp only [joined_importCells, importLine, String.toList_append, quoted, String.toList_ofList,
        standInForTag]
      rfl
    rw [tagLines, List.map_cons, lineCells, List.flatMap_cons, ← lineCells, joined_append, hline,
      List.map_cons, importLines, List.flatMap_cons, ← importLines, ← ih, tagLines]

variable {ns : List String} (hns : ∀ n ∈ ns, IsLineName n.toList)

include hns

lemma isLineName_tagLines : ∀ l ∈ tagLines ns, IsLineName l.1 := by
  intro l hl
  obtain ⟨n, hn, rfl⟩ := List.mem_map.1 hl
  exact hns n hn

/-- **No name is lost** in a script with stand-ins, and the lines bring theirs. -/
theorem namesIn_redirected (hfault : (parse t).fault = none) :
    namesIn (parse (importLines (ns.map standInForTag) ++ redirected keys t)) =
      ns ++ namesIn (parse t) := by
  have h := (parse_lineCells_swapCells (closed_of_fault hfault) isLiteral_standInLiteral
    (missingPlaces_subset keys t) (isLineName_tagLines hns)).1
  rw [joined_append, joined_tagLines] at h
  rw [redirected, namesIn, h, tagLines, List.map_map]
  simp [Function.comp_def, namesIn]

/-- **The specifiers of a script with stand-ins**: those of the lines and the old ones, but for those
of the missing modules. -/
theorem specifiersIn_redirected (hclosed : Closed {} (cells t)) :
    specifiersIn (parse (importLines (ns.map standInForTag) ++ redirected keys t)) =
      ns.map (fun n => written (standInForTag n).specifier) ++
        (specifiersIn (parse t)).map (redirect keys) := by
  have h := (parse_lineCells_swapCells hclosed isLiteral_standInLiteral
    (missingPlaces_subset keys t) (isLineName_tagLines hns)).2
  rw [joined_append, joined_tagLines, ← redirected] at h
  have hvalue : Part.value = (fun s : String => String.ofList (unquote s.toList)) ∘ Part.text := rfl
  rw [specifiersIn, hvalue, ← List.map_map, h, List.map_append, tagLines, List.map_map,
    List.map_map, List.map_map]
  refine congrArg₂ (· ++ ·) ?_ ?_
  · refine List.map_congr_left fun n _ => ?_
    simp only [Function.comp_apply, String.toList_ofList, unquote_quote, written]
  · rw [specifiersIn, statements_parse, modulesOf_restore, List.map_map, List.map_map]
    refine List.map_congr_left fun p hp => ?_
    simp only [Function.comp_apply, redirect, ← mem_missingPlaces_iff hp]
    split
    · rw [String.toList_ofList, standInLiteral, unquote_quote, written, String.toList_append,
        Part.value, String.toList_ofList]
    · rfl

lemma notMem_importLines : '<' ∉ importLines (ns.map standInForTag) := by
  have hname : ∀ n ∈ ns, '<' ∉ n.toList := fun n hn h => by
    have := (hns n hn).word.all _ h
    exact absurd this (by decide)
  rw [← joined_tagLines]
  intro h
  obtain ⟨c, hc, hmem⟩ := List.mem_flatMap.1 h
  obtain ⟨l, hl, hc⟩ := List.mem_flatMap.1 hc
  obtain ⟨n, hn, rfl⟩ := List.mem_map.1 hl
  have hline : '<' ∈ joined (importCells n.toList (standInForTag n).specifier.toList) :=
    List.mem_flatMap.2 ⟨c, hc, hmem⟩
  have hspecifier : '<' ∉ (standInForTag n).specifier.toList := by
    rw [standInForTag, String.toList_append, String.toList_append, List.mem_append, List.mem_append,
      not_or, not_or]
    exact ⟨⟨by decide, by decide⟩, hname n hn⟩
  simp only [joined_importCells, List.mem_append, List.mem_singleton] at hline
  rcases hline with (((h | h) | h) | h) | h
  · exact absurd h (by decide)
  · exact hname n hn h
  · exact absurd h (by decide)
  · exact hspecifier (Json.mem_of_mem_quote (by decide) h)
  · exact absurd h (by decide)

/-- **No closing tag comes about** in a script with stand-ins. -/
theorem lacks_redirected (h : Lacks Kind.script.closing t) :
    Lacks Kind.script.closing (importLines (ns.map standInForTag) ++ redirected keys t) := by
  rw [lacks_iff] at h ⊢
  intro m hm hinfix
  have houtside := outside_closing hm
  obtain ⟨c, r, rfl⟩ : ∃ c r, m = c :: r := by
    obtain ⟨c, r, hr, -⟩ := houtside.unescaped.head
    exact ⟨c, r, hr⟩
  have hc : c = '<' := eq_of_toLower (by decide) (List.cons.inj hm).1
  have hlines : c ∉ importLines (ns.map standInForTag) := hc ▸ notMem_importLines hns
  have hin := infix_of_infix_swapCells houtside (Json.infix_of_infix_append hlines hinfix)
  rw [joined_cells] at hin
  exact h _ hm hin

end Mender.Component
