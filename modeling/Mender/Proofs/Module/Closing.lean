import Mathlib.Data.List.Nodup
import Mathlib.Tactic.Common
import Mathlib.Tactic.Lemma
import Mender.Proofs.Module.Sentences
import Mender.Proofs.Module.Splice
import Mender.Proofs.Script.Extents

/-!
A closed module against the module it comes from.

The statements of a module are stretches of its text, one behind the other, so what closing puts in
cuts the text into pieces. The sentences of a statement depend on the statements before it only
through the number of modules they require.
-/

namespace Mender.Module

open Mender.Text Mender.Script

/-! ### Stretches one behind the other -/

/-- New texts for stretches that lie one behind the other cut a text into pieces. -/
lemma exists_pieces {a b : List Char} {es : List (Extent × List Char)}
    (hstretch : ∀ e ∈ es, IsStretch (a ++ b) e.1) (hfirst : ∀ e ∈ es, width a ≤ e.1.first)
    (hpair : es.Pairwise fun e e' => e.1.last ≤ e'.1.first) :
    ∃ ps, oldText ps = b ∧ added ps = [] ∧ swaps (width a) ps = es := by
  induction es generalizing a b with
  | nil => exact ⟨[.kept b], List.append_nil b, rfl, rfl⟩
  | cons e es ih =>
    obtain ⟨extent, new⟩ := e
    obtain ⟨a', m, b', ht, rfl⟩ := hstretch _ List.mem_cons_self
    obtain ⟨k, rfl, rfl⟩ := exists_append_of_width_le ht (hfirst _ List.mem_cons_self)
    obtain ⟨hbehind, hpair⟩ := List.pairwise_cons.1 hpair
    have htext : a ++ (k ++ (m ++ b')) = (a ++ k ++ m) ++ b' := by simp only [List.append_assoc]
    obtain ⟨ps, hold, hadded, hswaps⟩ := ih (a := a ++ k ++ m) (b := b')
      (fun e he => htext ▸ hstretch e (List.mem_cons_of_mem _ he))
      (fun e he => by simpa [Nat.add_assoc] using hbehind e he) hpair
    refine ⟨.kept k :: .swapped m new :: ps, ?_, hadded, ?_⟩
    · rw [oldText_cons, oldText_cons, hold]
      rfl
    · have hstep : swaps (width a) (.kept k :: .swapped m new :: ps) =
          (⟨width a + width k, width a + width k + width m⟩, new) ::
            swaps (width a + width k + width m) ps := rfl
      rw [width_append] at hswaps
      rw [hstep, ← width_append, hswaps]

/-! ### The imports and exports of a module -/

/-- An import or an export, with the number of modules that are required before it. -/
structure Crossing where
  number : Nat
  statement : Statement

/-- The imports and exports among some statements. -/
def crossingsFrom : (n : Nat) → List Statement → List Crossing
  | _, [] => []
  | n, s :: ss =>
    if crosses s then ⟨n, s⟩ :: crossingsFrom (n + (specifier? s).toList.length) ss
    else crossingsFrom n ss

def topLevel (code : String) : List Statement := (parse code.toList).statements

def crossingsOf (code : String) : List Crossing := crossingsFrom 0 (topLevel code)

namespace Crossing

/-- What takes the place of an import or an export of a module. -/
def sentences (code : String) (r : Crossing) : List Sentence :=
  Module.sentences (partOf code.toList) r.number r.statement

def text (code : String) (r : Crossing) : String := written (r.sentences code)

def assigned (code : String) (r : Crossing) : List String :=
  (r.sentences code).filterMap Sentence.assigned?

end Crossing

lemma specifier?_of_not_crosses {s : Statement} (h : ¬ crosses s = true) : specifier? s = none := by
  obtain ⟨extent, form⟩ := s
  cases form with
  | imports | exports => exact absurd rfl h
  | declares | other => rfl

lemma map_statement_crossingsFrom (n : Nat) (ss : List Statement) :
    (crossingsFrom n ss).map Crossing.statement = ss.filter crosses := by
  induction ss generalizing n with
  | nil => rfl
  | cons s ss ih =>
    rw [crossingsFrom, List.filter_cons]
    split
    · rw [List.map_cons, ih]
    · exact ih n

/-- The number of an import or export counts the specifiers before it. -/
lemma exists_of_mem_crossingsFrom {n : Nat} {ss : List Statement} {r : Crossing}
    (h : r ∈ crossingsFrom n ss) :
    ∃ before after, ss = before ++ r.statement :: after ∧
      r.number = n + (before.filterMap specifier?).length := by
  induction ss generalizing n with
  | nil => cases h
  | cons s ss ih =>
    rw [crossingsFrom] at h
    split at h
    · rcases List.mem_cons.1 h with rfl | h
      · exact ⟨[], ss, rfl, rfl⟩
      · obtain ⟨before, after, rfl, hnumber⟩ := ih h
        refine ⟨s :: before, after, rfl, ?_⟩
        rw [hnumber, List.filterMap_cons]
        cases specifier? s <;> simp only [Option.toList_none, Option.toList_some, List.length_nil,
          List.length_cons] <;> omega
    · obtain ⟨before, after, rfl, hnumber⟩ := ih h
      refine ⟨s :: before, after, rfl, ?_⟩
      rw [hnumber, List.filterMap_cons, specifier?_of_not_crosses ‹_›]

lemma getElem?_of_mem_crossingsFrom {ss : List Statement} {r : Crossing}
    (h : r ∈ crossingsFrom 0 ss) {x : String}
    (hx : specifier? r.statement = some x) : (ss.filterMap specifier?)[r.number]? = some x := by
  obtain ⟨before, after, rfl, hnumber⟩ := exists_of_mem_crossingsFrom h
  rw [Nat.zero_add] at hnumber
  rw [hnumber, List.filterMap_append, List.filterMap_cons, hx, List.getElem?_append_right le_rfl,
    Nat.sub_self]
  rfl

lemma required_crossingsFrom (part : Extent → String) (n : Nat) (ss : List Statement) :
    ((crossingsFrom n ss).flatMap fun r =>
        (sentences part r.number r.statement).filterMap Sentence.required?) =
      (ss.filterMap specifier?).zipIdx n := by
  induction ss generalizing n with
  | nil => rfl
  | cons s ss ih =>
    rw [crossingsFrom, List.filterMap_cons]
    split
    · rw [List.flatMap_cons, ih, required_sentences]
      cases specifier? s <;> rfl
    · rw [ih, specifier?_of_not_crosses ‹_›]

/-! ### Closing -/

/-- What closing does with one statement. -/
lemma replacements_cons (part : Extent → String) (n : Nat) {s : Statement} (h : IsSupported s)
    (ss : List Statement) : replacements part n (s :: ss) =
      if crosses s then
        (replacements part (n + (specifier? s).toList.length) ss).map
          ((s.extent, ⟨written (sentences part n s), specifier? s⟩) :: ·)
      else replacements part n ss := by
  rw [replacements, closeStatement?_of_supported part n h]
  cases crosses s <;> rfl

lemma replacements_of_supported (part : Extent → String) (n : Nat) {ss : List Statement}
    (h : ∀ s ∈ ss, IsSupported s) :
    replacements part n ss = .ok ((crossingsFrom n ss).map fun r => (r.statement.extent,
      ⟨written (sentences part r.number r.statement), specifier? r.statement⟩)) := by
  induction ss generalizing n with
  | nil => rfl
  | cons s ss ih =>
    obtain ⟨hs, hss⟩ := List.forall_mem_cons.1 h
    rw [replacements_cons part n hs, crossingsFrom]
    split
    · rw [ih _ hss]
      rfl
    · exact ih n hss

/-- Why closing stops at a statement. -/
inductive StopsAt (part : Extent → String) (s : Statement) : Refusal → Prop
  | importForm {i : Import} : s.form = .imports i → i.typeOnly = false → i.source = none →
      StopsAt part s (.importForm (part s.extent))
  | exportForm : s.form = .exports .unsupported → StopsAt part s (.exportForm (part s.extent))

lemma exists_stops (part : Extent → String) {s : Statement} (h : ¬ IsSupported s) :
    ∃ refusal, StopsAt part s refusal ∧ ∀ n, closeStatement? part n s = some (.error refusal) := by
  obtain ⟨extent, form⟩ := s
  cases form with
  | imports i =>
    obtain ⟨htypes, hsource⟩ := not_or.1 h
    have hnone : i.source = none := by simpa using hsource
    refine ⟨_, .importForm rfl (by simpa using htypes) hnone, fun n => ?_⟩
    simp only [closeStatement?, closeImport, htypes, hnone]
    rfl
  | exports e =>
    obtain rfl : e = .unsupported := not_not.1 h
    exact ⟨_, .exportForm rfl, fun n => rfl⟩
  | declares | other => exact absurd trivial h

lemma replacements_of_stops (part : Extent → String) (n : Nat) {before after : List Statement}
    {s : Statement} {refusal : Refusal} (hbefore : ∀ x ∈ before, IsSupported x)
    (h : ∀ n, closeStatement? part n s = some (.error refusal)) :
    replacements part n (before ++ s :: after) = .error refusal := by
  induction before generalizing n with
  | nil => rw [List.nil_append, replacements, h]
  | cons x before ih =>
    obtain ⟨hx, hbefore⟩ := List.forall_mem_cons.1 hbefore
    rw [List.cons_append, replacements_cons part n hx]
    split
    · rw [ih _ hbefore]
      rfl
    · exact ih n hbefore

lemma exists_first_unsupported {ss : List Statement} (h : ¬ ∀ s ∈ ss, IsSupported s) :
    ∃ before s after, ss = before ++ s :: after ∧ (∀ x ∈ before, IsSupported x) ∧
      ¬ IsSupported s := by
  classical
  push Not at h
  obtain ⟨x, hx, hnot⟩ := h
  have hfound : (ss.find? fun s => decide (¬ IsSupported s)).isSome :=
    List.find?_isSome.2 ⟨x, hx, decide_eq_true hnot⟩
  obtain ⟨s, hs⟩ := Option.isSome_iff_exists.1 hfound
  obtain ⟨hunsupported, before, after, hsplit, hbefore⟩ := List.find?_eq_some_iff_append.1 hs
  exact ⟨before, s, after, hsplit, fun y hy => by simpa using hbefore y hy,
    of_decide_eq_true hunsupported⟩

/-- A module without a fault whose imports and exports have forms that closing knows. -/
structure Closable (code : String) : Prop where
  faultless : (parse code.toList).fault = none
  supported : ∀ s ∈ topLevel code, IsSupported s

/-- Why a module cannot be closed: its first fault, or else the first statement with a form that
closing does not know. -/
inductive Refuses (code : String) : Refusal → Prop
  | faulty {place : Nat} : (parse code.toList).fault = some place →
      Refuses code (.faulty (positionIn code.toList place).1 (positionIn code.toList place).2)
  | form {before after : List Statement} {s : Statement} {refusal : Refusal} :
      (parse code.toList).fault = none → topLevel code = before ++ s :: after →
      (∀ x ∈ before, IsSupported x) → StopsAt (partOf code.toList) s refusal → Refuses code refusal

/-- How a closed module relates to the one it comes from. -/
structure ClosesTo (code : String) (closed : Closed) : Prop where
  /-- Each import and each export gives way to its sentences, and all other text stays. -/
  text : ∃ ps, oldText ps = code.toList ∧ added ps = [] ∧
    swaps 0 ps = (crossingsOf code).map (fun r => (r.statement.extent, (r.text code).toList)) ∧
    closed.code = "(function (__pw_require, __pw_exports) \x7b\n" ++ String.ofList (newText ps) ++
      "\n\x7d)"
  crossings : (crossingsOf code).map Crossing.statement = (topLevel code).filter crosses
  types : ∀ r ∈ crossingsOf code, ConcernsTypes r.statement → r.sentences code = []
  imports : closed.imports = (topLevel code).filterMap specifier?
  /-- The modules are required in order, and each is held under a name of its own. -/
  requires : (crossingsOf code).flatMap (fun r => (r.sentences code).filterMap Sentence.required?) =
    closed.imports.zipIdx
  holders : (closed.imports.zipIdx.map fun p => holder p.2).Nodup
  /-- The module of a statement is the one with its number. -/
  modules : ∀ r ∈ crossingsOf code, ∀ x, specifier? r.statement = some x →
    closed.imports[r.number]? = some x
  /-- Each name that an import introduces is bound once, to a member of the module it asks for. -/
  binds : ∀ r ∈ crossingsOf code, (r.sentences code).filterMap Sentence.bound? =
    (membersBound r.statement).map fun b => (b.1, r.number, b.2)
  names : ∀ s ∈ topLevel code, ∀ i, s.form = .imports i → i.typeOnly = false →
    (membersBound s).map Prod.fst = i.boundNames
  /-- Each exported name is assigned once. -/
  assigns : ∀ r ∈ crossingsOf code, r.assigned code = namesExported r.statement

variable {code : String}

lemma exists_crossing {s : Statement} (h : s ∈ topLevel code) (hs : crosses s = true) :
    ∃ r ∈ crossingsOf code, r.statement = s := by
  have hmem : s ∈ (crossingsOf code).map Crossing.statement := by
    rw [crossingsOf, map_statement_crossingsFrom]
    exact List.mem_filter.2 ⟨h, hs⟩
  exact List.mem_map.1 hmem

lemma mem_topLevel_of_mem_crossingsOf {r : Crossing} (h : r ∈ crossingsOf code) :
    r.statement ∈ topLevel code := by
  obtain ⟨before, after, hsplit, -⟩ := exists_of_mem_crossingsFrom h
  rw [hsplit]
  exact List.mem_append_right _ List.mem_cons_self

/-- The texts that closing puts in cut the module into pieces. -/
lemma exists_crossingPieces (code : String) :
    ∃ ps, oldText ps = code.toList ∧ added ps = [] ∧
      swaps 0 ps = (crossingsOf code).map (fun r => (r.statement.extent, (r.text code).toList)) := by
  have hstatements : ((crossingsOf code).map Crossing.statement).Pairwise EndsBefore := by
    rw [crossingsOf, map_statement_crossingsFrom]
    exact (pairwise_statements code.toList).filter _
  have hstretch : ∀ r ∈ crossingsOf code, IsStretch code.toList r.statement.extent :=
    fun r hr => isStretch_of_mem (mem_topLevel_of_mem_crossingsOf hr)
  refine exists_pieces (a := []) (List.forall_mem_map.2 hstretch) (fun _ _ => Nat.zero_le _) ?_
  exact List.pairwise_map.2 ((List.pairwise_map.1 hstatements).imp And.left)

lemma holder_inj {n m : Nat} (h : holder n = holder m) : n = m := by
  have hrepr : n.repr = m.repr := (String.append_right_inj "__pw_m").1 h
  rw [← Nat.ofDigitChars_ten_toDigits (n := n), ← Nat.toList_repr, hrepr, Nat.toList_repr,
    Nat.ofDigitChars_ten_toDigits]

lemma nodup_holders (xs : List String) : (xs.zipIdx.map fun p => holder p.2).Nodup := by
  have hmap : xs.zipIdx.map (fun p => holder p.2) = (List.range' 0 xs.length).map holder := by
    rw [← List.zipIdx_map_snd 0 xs, List.map_map]
    rfl
  rw [hmap]
  exact List.Nodup.map (fun _ _ => holder_inj) List.nodup_range'

lemma specifiers_crossingsOf (code : String) :
    (crossingsOf code).filterMap (fun r => specifier? r.statement) =
      (topLevel code).filterMap specifier? := by
  have hmap : (crossingsOf code).filterMap (fun r => specifier? r.statement) =
      ((crossingsOf code).map Crossing.statement).filterMap specifier? := by
    rw [List.filterMap_map]
    rfl
  rw [hmap, crossingsOf, map_statement_crossingsFrom, List.filterMap_filter]
  refine List.filterMap_congr fun s _ => ?_
  split
  · rfl
  · exact (specifier?_of_not_crosses ‹_›).symm

/-- What a module is closed to. -/
lemma close_of_closable (h : Closable code) : close code = .ok {
    code := closedForm (String.ofList (splice code.toList 0 ((crossingsOf code).map fun r =>
      (r.statement.extent, (r.text code).toList))))
    imports := (topLevel code).filterMap specifier? } := by
  have hreplacements := replacements_of_supported (partOf code.toList) 0 h.supported
  have hsplices (rs : List Crossing) : (rs.map fun r => (r.statement.extent,
      Replacement.mk (r.text code) (specifier? r.statement))).map (fun r => (r.1, r.2.text.toList)) =
        rs.map fun r => (r.statement.extent, (r.text code).toList) := List.map_map
  have hrequired (rs : List Crossing) : (rs.map fun r => (r.statement.extent,
      Replacement.mk (r.text code) (specifier? r.statement))).filterMap (fun r => r.2.required) =
        rs.filterMap fun r => specifier? r.statement := List.filterMap_map
  rw [close]
  dsimp only
  rw [h.faultless]
  dsimp only
  rw [← specifiers_crossingsOf, ← hsplices, ← hrequired]
  exact congrArg _ hreplacements

theorem closes_of_closable (h : Closable code) :
    ∃ closed, close code = .ok closed ∧ ClosesTo code closed := by
  obtain ⟨ps, hold, hadded, hswaps⟩ := exists_crossingPieces code
  have hsplice : splice code.toList 0 ((crossingsOf code).map fun r =>
      (r.statement.extent, (r.text code).toList)) = newText ps := by
    rw [← hswaps, ← edits_eq_swaps hadded, ← hold]
    exact splice_edits [] ps
  refine ⟨_, close_of_closable h, ?_⟩
  constructor
  · refine ⟨ps, hold, hadded, hswaps, ?_⟩
    dsimp only
    rw [hsplice]
    rfl
  · exact map_statement_crossingsFrom _ _
  · exact fun r _ => sentences_of_concernsTypes _ _
  · rfl
  · exact required_crossingsFrom _ _ _
  · exact nodup_holders _
  · exact fun r hr x hx => getElem?_of_mem_crossingsFrom hr hx
  · exact fun r _ => bound_sentences _ _ r.statement
  · exact fun s _ i hi htypes => names_membersBound hi htypes
  · exact fun r _ => assigned_sentences _ _ r.statement

theorem refuses_of_not_closable (h : ¬ Closable code) :
    ∃ refusal, close code = .error refusal ∧ Refuses code refusal := by
  cases hfault : (parse code.toList).fault with
  | some place =>
    refine ⟨_, ?_, .faulty hfault⟩
    rw [close]
    dsimp only
    rw [hfault]
  | none =>
    have hunsupported : ¬ ∀ s ∈ topLevel code, IsSupported s := fun hs => h ⟨hfault, hs⟩
    obtain ⟨before, s, after, hsplit, hbefore, hs⟩ := exists_first_unsupported hunsupported
    obtain ⟨refusal, hstops, hclose⟩ := exists_stops (partOf code.toList) hs
    refine ⟨refusal, ?_, .form hfault hsplit hbefore hstops⟩
    have hreplacements : replacements (partOf code.toList) 0 (topLevel code) = .error refusal := by
      rw [hsplit]
      exact replacements_of_stops _ 0 hbefore hclose
    rw [close]
    dsimp only
    rw [hfault]
    exact congrArg (Except.map _) hreplacements

/-- The names that a statement exports are all those of values just when none is marked. -/
lemma valuesExported_eq_iff (s : Statement) : namesExported s = valuesExported s ↔
    ∀ names source, s.form = .exports (.names names source) → ∀ a ∈ names, a.typeOnly = false := by
  obtain ⟨extent, form⟩ := s
  constructor
  · rintro h names source rfl
    have hlength : names.length = (names.filter fun a => !a.typeOnly).length := by
      simpa [namesExported, valuesExported, exportedNames, withoutTypes] using congrArg List.length h
    simpa using List.length_filter_eq_length_iff.1 hlength.symm
  · intro h
    cases form with
    | exports e =>
      cases e with
      | names names source =>
        have hall : names.filter (fun a => !a.typeOnly) = names :=
          List.filter_eq_self.2 fun a ha => by simp [h names source rfl a ha]
        simp only [namesExported, valuesExported, withoutTypes, hall]
      | _ => rfl
    | _ => rfl

/-- **Closing a module.** A module closes just when it has no fault and its imports and exports have
forms that closing knows. What concerns types only is left out, but for names in a list of exports
that are marked as those of types: these are exported as any other. -/
theorem close_module (code : String) :
    (Closable code → ∃ closed, close code = .ok closed ∧ ClosesTo code closed) ∧
      (¬ Closable code → ∃ refusal, close code = .error refusal ∧ Refuses code refusal) ∧
      ((∀ r ∈ crossingsOf code, r.assigned code = valuesExported r.statement) ↔
        ∀ s ∈ topLevel code, ∀ names source, s.form = .exports (.names names source) →
          ∀ a ∈ names, a.typeOnly = false) := by
  refine ⟨closes_of_closable, refuses_of_not_closable, ?_⟩
  have hassigned (r : Crossing) : r.assigned code = namesExported r.statement :=
    assigned_sentences _ _ r.statement
  constructor
  · intro h s hs names source hform
    have hcrosses : crosses s = true := by rw [crosses, hform]
    obtain ⟨r, hr, rfl⟩ := exists_crossing hs hcrosses
    exact (valuesExported_eq_iff _).1 ((hassigned r).symm.trans (h r hr)) names source hform
  · intro h r hr
    exact (hassigned r).trans
      ((valuesExported_eq_iff _).2 (h _ (mem_topLevel_of_mem_crossingsOf hr)))

/-- Imports of each kind with a type among them, a pattern, and what is exported from elsewhere. -/
def sampleModule : String :=
  "import a, \x7b b as c, type T \x7d from './a';\nimport type U from './u';\n" ++
    "export const [d, \x7b e: f = 1 \x7d] = c;\nexport * as g from './g';"

theorem close_sampleModule :
    Closable sampleModule ∧ ∃ closed, close sampleModule = .ok closed ∧
      ClosesTo sampleModule closed ∧ closed.imports = ["./a", "./g"] ∧
      (crossingsOf sampleModule).map (Crossing.assigned sampleModule) =
        [[], [], ["d", "f"], ["g"]] := by
  have hruns : (close sampleModule).toOption.map Closed.imports = some ["./a", "./g"] ∧
      (crossingsOf sampleModule).map (Crossing.assigned sampleModule) =
        [[], [], ["d", "f"], ["g"]] := by decide +kernel
  obtain ⟨hok, hassigned⟩ := hruns
  have hclosable : Closable sampleModule := by
    by_contra h
    obtain ⟨refusal, hclose, -⟩ := (close_module sampleModule).2.1 h
    rw [hclose] at hok
    cases hok
  obtain ⟨closed, hclose, hcloses⟩ := (close_module sampleModule).1 hclosable
  rw [hclose] at hok
  exact ⟨hclosable, closed, hclose, hcloses, Option.some.inj hok, hassigned⟩

/-- A name marked as that of a type is left in the exports. -/
theorem marked_type_exported :
    close "export \x7b type T, v \x7d;" =
        .ok ⟨closedForm " __pw_exports[\"T\"] = T; __pw_exports[\"v\"] = v;", []⟩ ∧
      (crossingsOf "export \x7b type T, v \x7d;").map
          (Crossing.assigned "export \x7b type T, v \x7d;") = [["T", "v"]] ∧
      (topLevel "export \x7b type T, v \x7d;").map valuesExported = [["v"]] := by
  refine ⟨?_, ?_, ?_⟩ <;> decide +kernel

end Mender.Module
