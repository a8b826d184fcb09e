import Mender.Proofs.Script.Ended
import Mender.Proofs.Script.ImportLine

/-!
Where the imports of a script start.

An import starts with its first word, and in front of it something has come to an end: a blank, a
comment or another statement. So what stands before it is no half of a longer word or operator.
-/

namespace Mender.Script

open Mender.Text Reader

/-! ### Behind a pause -/

/-- The text ends with a blank, with a comment or with a sign that may end a statement. -/
inductive Pauses : List Char → Prop
  | sign (t : List Char) {c : Char} (h : isGap c = true ∨ c ∈ [';', '}', ')']) : Pauses (t ++ [c])
  | comment (t : List Char) : Pauses (t ++ ['*', '/'])

lemma Pauses.append {t : List Char} (h : Pauses t) (s : List Char) : Pauses (s ++ t) := by
  cases h with
  | sign t h => exact List.append_assoc s t _ ▸ .sign (s ++ t) h
  | comment t => exact List.append_assoc s t _ ▸ .comment (s ++ t)

lemma Pauses.cons {t : List Char} (h : Pauses t) (c : Char) : Pauses (c :: t) := h.append [c]

lemma pauses_gap {c : Char} (h : isGap c = true) : Pauses [c] := .sign [] (.inl h)

/-- What lies behind once blanks were passed over, in the middle of a comment or not. -/
def Passed : Gap → List Char → Prop
  | .blank, z => z = [] ∨ Pauses z
  | .star, z => Pauses ('*' :: z)
  | _, z => Pauses z

/-- A comment ends with a pause behind its next character, if it does behind the ones after it. -/
lemma passed_next {g : Gap} (hg : g ≠ .blank) {c : Char} {z : List Char} (h : Passed (g.next c) z) :
    Passed g (c :: z) := by
  have hblock (h : Passed (if c = '*' then .star else .block) z) : Pauses (c :: z) := by
    split at h
    · next hc =>
      rw [hc]
      exact h
    · exact Pauses.cons h c
  cases g with
  | blank => exact absurd rfl hg
  | opening =>
    rw [Gap.next] at h
    split at h <;> exact Pauses.cons h c
  | line =>
    rw [Gap.next] at h
    split at h
    · next hc =>
      rcases h with rfl | h
      · exact pauses_gap (hc ▸ by decide)
      · exact h.cons c
    · exact Pauses.cons h c
  | star =>
    rw [Gap.next] at h
    split at h
    · next hc =>
      rcases h with rfl | h
      · exact hc ▸ .comment []
      · exact (h.cons c).cons '*'
    · exact (hblock h).cons '*'
  | block => exact hblock h

/-- So do blanks and comments. -/
lemma passed_past {g g' : Gap} {c : Char} {following : Option Char} {z : List Char}
    (hg : g.past? c following = some g') (h : Passed g' z) : Passed g (c :: z) := by
  by_cases hblank : g = .blank
  · subst hblank
    rw [Gap.past?, if_pos rfl] at hg
    split at hg
    · next hgap =>
      cases hg
      rcases h with rfl | h
      · exact .inr (pauses_gap hgap)
      · exact .inr (h.cons c)
    · split at hg
      · cases hg
        exact .inr (Pauses.cons h c)
      · cases hg
  · rw [Gap.past?_of_ne hblank] at hg
    cases hg
    exact passed_next hblank h

/-- Blanks and comments that end before the text does end with a pause. -/
lemma passed_skipGap (g : Gap) (e : Bool) (t : List Char) (h : (skipGap g e t).1 ≠ []) :
    ∃ z, t = z ++ (skipGap g e t).1 ∧ Passed g z := by
  induction t generalizing g e with
  | nil => cases g <;> exact absurd rfl h
  | cons c t ih =>
    obtain ⟨e', -, hstep⟩ := skipGap_cons g e c t
    rw [hstep] at h ⊢
    cases hg : g.past? c t.head? with
    | none =>
      obtain rfl := Gap.past?_eq_none hg
      exact ⟨[], rfl, .inl rfl⟩
    | some g' =>
      rw [hg] at h
      obtain ⟨z, hz, hpassed⟩ := ih g' e' h
      exact ⟨c :: z, congrArg (c :: ·) hz, passed_past hg hpassed⟩

/-- What is left behind blanks has none in front. -/
lemma skipGap_skipGap (g : Gap) (e e' : Bool) (t : List Char) :
    skipGap .blank e' (skipGap g e t).1 = ((skipGap g e t).1, e') := by
  induction t generalizing g e with
  | nil => cases g <;> rfl
  | cons c t ih =>
    obtain ⟨e₁, -, hstep⟩ := skipGap_cons g e c t
    rw [hstep]
    cases hg : g.past? c t.head? with
    | none =>
      obtain ⟨e₂, -, hagain⟩ := skipGap_cons .blank e' c t
      obtain rfl := Gap.past?_eq_none hg
      rw [hg] at hagain
      exact hagain
    | some g' => exact ih g' e₁

lemma skipGap_lineEnd (g : Gap) (t : List Char) : (skipGap g true t).2 = true := by
  induction t generalizing g with
  | nil => cases g <;> rfl
  | cons c t ih =>
    obtain ⟨e', he, hstep⟩ := skipGap_cons g true c t
    rw [hstep]
    obtain rfl := he rfl
    cases g.past? c t.head? with
    | none => rfl
    | some g' => exact ih g'

/-! ### Between two statements -/

lemma stops_nil : Stops [] := .inr (.inl rfl)

lemma stops_newline (t : List Char) : Stops ('\n' :: t) := by
  refine .inl ?_
  rw [skipGap, if_pos (by decide)]
  exact skipGap_lineEnd _ _

/-- No statement stops in front of a word. -/
lemma not_stops (r : List Char) : ¬ Stops ('i' :: r) := by
  rw [Stops, skipGap_lexeme ⟨_, _, rfl, by decide, by decide⟩]
  simp

/-- Nothing is unfinished at the end of the text. -/
def Rests (t : List Char) : Prop := t = [] ∨ Pauses t

/-- A statement may start in the last part of a text. -/
def Ready (t u : List Char) : Prop := ∃ a, t = a ++ u ∧ (Rests a ∨ Stops u)

/-- An import starts there, and nothing is unfinished in front of it. -/
def StartsAt (t u : List Char) : Prop := ∃ a r, t = a ++ u ∧ u = 'i' :: r ∧ Rests a

variable {t u : List Char}

lemma Ready.of_stops (h : u <:+ t) (hu : Stops u) : Ready t u := by
  obtain ⟨a, rfl⟩ := h
  exact ⟨a, rfl, .inr hu⟩

lemma Ready.startsAt {r : List Char} (h : Ready t ('i' :: r)) : StartsAt t ('i' :: r) := by
  obtain ⟨a, ha, hr⟩ := h
  exact ⟨a, r, ha, rfl, hr.resolve_right (not_stops r)⟩

lemma startsAt_statementStart (n : Nat) (h : Ready t u) {r : List Char}
    (hr : statementStart n u = 'i' :: r) : StartsAt t ('i' :: r) := by
  induction n generalizing u with
  | zero =>
    obtain rfl : u = 'i' :: r := hr
    exact h.startsAt
  | succ n ih =>
    obtain ⟨a, rfl, ha⟩ := h
    have hgap := skipGap_suffix .blank false u
    have hpassed := passed_skipGap .blank false u
    rw [statementStart] at hr
    generalize (skipGap .blank false u).1 = s at hr hgap hpassed
    split at hr
    · refine ih (.of_stops ?_ ?_) hr
      · exact (List.dropWhile_suffix _).trans (hgap.trans (List.suffix_append _ _))
      · cases hline : s.dropWhile (· != '\n') with
        | nil => exact stops_nil
        | cons c v =>
          have hc := List.head_dropWhile_not (· != '\n') (l := s) (by simp [hline])
          obtain rfl : c = '\n' := by simpa [hline] using hc
          exact stops_newline v
    · obtain rfl : s = 'i' :: r := hr
      obtain ⟨z, rfl, hz⟩ := hpassed (List.cons_ne_nil _ _)
      rcases hz with rfl | hz
      · exact Ready.startsAt ⟨a, rfl, ha⟩
      · exact ⟨a ++ z, r, (List.append_assoc _ _ _).symm, rfl, .inr (hz.append a)⟩

/-- A statement starts with a lexeme. -/
lemma skipGap_statementStart {n : Nat} (h : u.length ≤ n) :
    (skipGap .blank false (statementStart n u)).1 = statementStart n u := by
  induction n generalizing u with
  | zero =>
    obtain rfl : u = [] := List.length_eq_zero_iff.1 (Nat.le_zero.1 h)
    rfl
  | succ n ih =>
    have hgap := (skipGap_suffix .blank false u).length_le
    have hagain := congrArg Prod.fst (skipGap_skipGap .blank false false u)
    rw [statementStart]
    generalize (skipGap .blank false u).1 = s at hgap hagain ⊢
    split
    · next hmark =>
      have := length_dropWhile_markup hmark
      exact ih (by omega)
    · exact hagain

/-! ### The word `import` -/

/-- A text begins with its first word. -/
lemma prefix_of_firstWord {w : String} (h : firstWord t = w) : w.toList <+: t := by
  rw [← h, firstWord, String.toList_ofList]
  cases hname : name? t with
  | none => exact List.nil_prefix
  | some p =>
    unfold name? at hname
    split at hname
    · split at hname
      · split at hname
        · cases hname
        · cases hname
          exact ⟨_, append_splitName 0 _⟩
      · cases hname
    · cases hname

/-- An import starts with its word. -/
lemma post_importWord (go : Rules) (c : Cursor) :
    (statementRule go).Post c fun f d =>
      NoImport f ∨ (∃ r, c.next = 'i' :: r) ∧ d.rest.length < c.rest.length :=
  post_statement (fun _ _ hf => .inl hf) fun hword _ _ hlt => Post.of_leads fun _ _ he => by
    obtain ⟨r, hr⟩ := prefix_of_firstWord hword
    exact .inr ⟨⟨_, hr.symm⟩, Nat.lt_of_le_of_lt he.rest.length_le hlt⟩

/-! ### Rows of imports -/

/-- What is given up ends where a statement may start. -/
lemma ready_giveUp (h : u <:+ t) : Ready t (giveUp u) := by
  obtain ⟨a, rfl⟩ := h
  unfold giveUp
  dsimp only
  split
  · next c r hr =>
    obtain ⟨z, hz⟩ := hr ▸ List.dropWhile_suffix (l := u) _
    have hc : c = ';' ∨ c = '\n' := by
      have := List.head?_dropWhile_not (fun c => (startsWith "#!".toList u || c != ';') && c != '\n') u
      rw [hr] at this
      simp only [List.head?_cons, Bool.and_eq_false_iff, Bool.or_eq_false_iff, bne_eq_false_iff_eq] at this
      exact this.imp And.right id
    refine ⟨a ++ (z ++ [c]), by simp [← hz], .inl (.inr (.append (.sign z ?_) a))⟩
    rcases hc with rfl | rfl
    · exact .inr (by decide)
    · exact .inl (by decide)
  · exact .of_stops List.nil_suffix stops_nil

/-- Behind a statement another one may start. -/
lemma ready_readStatement (h : u <:+ t) : Ready t (readStatement u).2.2 := by
  unfold readStatement
  split
  · next form c hread =>
    have hended := (goesWell_run (fuelFor u)).statement (.atStart u) form c hread
    have hleads := (run _ _).forward hread
    dsimp only
    split
    · next hlt =>
      rcases hended with ⟨x, hx, hlately⟩ | hstops
      · obtain ⟨a, ha⟩ := (hlately ▸ hleads.lately).trans h
        refine ⟨a ++ [x], ?_, .inl (.inr (.sign a (.inr hx)))⟩
        rw [← ha, List.append_assoc, List.singleton_append]
      · exact .of_stops (hleads.rest.trans h) hstops
    · exact ready_giveUp h
  · exact ready_giveUp h

/-- An import starts at its first sign, if no blank is in front. -/
lemma startsWith_of_import {s : Statement} (hs : (readStatement u).1 = some s) {i : Import}
    (hi : s.form = .imports i) :
    (∃ r, (skipGap .blank false u).1 = 'i' :: r) ∧ s.extent.last < u.length := by
  unfold readStatement at hs
  split at hs
  · next form c hread =>
    cases hs
    rw [fuelFor_eq] at hread
    exact (post_importWord _ _ _ _ hread).resolve_left fun hno => hno i hi
  · cases hs

lemma extent_readStatement {s : Statement} (hs : (readStatement u).1 = some s) (hu : u ≠ []) :
    s.extent.first = u.length ∧ s.extent.last ≤ u.length ∧
      (readStatement u).2.2.length ≤ s.extent.last := by
  unfold readStatement at hs ⊢
  split at hs
  · next form c hread =>
    cases hs
    have hrest : c.rest.length ≤ u.length := ((run _ _).forward hread).rest.length_le
    refine ⟨rfl, hrest, ?_⟩
    dsimp only
    split
    · exact Nat.le_refl _
    · have := giveUp_lt hu
      omega
  · cases hs

/-- One statement is read before the other and ends before the other starts. -/
def Precedes (s s' : Statement) : Prop :=
  s'.extent.first ≤ s.extent.last ∧ s'.extent.first < s.extent.first

/-- **Statements are read in their order.** -/
theorem precedes_readStatements (n : Nat) (u : List Char) :
    (∀ s ∈ (readStatements n u).1, s.extent.last ≤ s.extent.first ∧ s.extent.first ≤ u.length) ∧
      (readStatements n u).1.Pairwise Precedes := by
  induction n generalizing u with
  | zero => exact ⟨List.forall_mem_nil _, .nil⟩
  | succ n ih =>
    have hstart := (statementStart_suffix u.length u).length_le
    rw [readStatements]
    generalize statementStart u.length u = v at hstart ⊢
    split
    · exact ⟨List.forall_mem_nil _, .nil⟩
    · next hne =>
      have hlt := readStatement_lt hne
      obtain ⟨hmore, hpairwise⟩ := ih (readStatement v).2.2
      have hbehind : ∀ s ∈ (readStatements n (readStatement v).2.2).1,
          s.extent.last ≤ s.extent.first ∧ s.extent.first ≤ u.length := fun s hs => by
        have := hmore s hs
        omega
      dsimp only
      cases hs : (readStatement v).1 with
      | none => exact ⟨hbehind, hpairwise⟩
      | some s =>
        obtain ⟨hfirst, hlast, hleft⟩ := extent_readStatement hs hne
        refine ⟨List.forall_mem_cons.2 ⟨by omega, hbehind⟩, .cons (fun s' hs' => ?_) hpairwise⟩
        have := hmore s' hs'
        constructor <;> omega

/-- **Every import starts where nothing is unfinished.** -/
theorem startsAt_readStatements (n : Nat) (h : Ready t u) {s : Statement}
    (hs : s ∈ (readStatements n u).1) {i : Import} (hi : s.form = .imports i) :
    ∃ v, StartsAt t v ∧ s.extent.first = v.length ∧ s.extent.last < v.length := by
  induction n generalizing u with
  | zero => cases hs
  | succ n ih =>
    have hsuffix : statementStart u.length u <:+ t := by
      obtain ⟨a, rfl, -⟩ := h
      exact (statementStart_suffix _ _).trans (List.suffix_append _ _)
    have hlexeme := skipGap_statementStart (Nat.le_refl u.length)
    have hstarts (r : List Char) := startsAt_statementStart u.length h (r := r)
    rw [readStatements] at hs
    generalize statementStart u.length u = v at hs hsuffix hlexeme hstarts
    split at hs
    · cases hs
    · next hne =>
      rcases List.mem_append.1 hs with hs | hs
      · rw [Option.mem_toList] at hs
        obtain ⟨⟨r, hr⟩, hlast⟩ := startsWith_of_import hs hi
        rw [hlexeme] at hr
        exact ⟨v, hr ▸ hstarts r hr, (extent_readStatement hs hne).1, hlast⟩
      · exact ih (ready_readStatement hsuffix) hs

end Mender.Script
