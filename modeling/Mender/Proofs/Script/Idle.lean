import Mender.Proofs.Script.Brought

/-!
Blanks and comments in front of a script.

A text of blanks and whole comments says nothing: the scan for literals passes over it, and so does the
grammar.
-/

namespace Mender.Script

open Mender.Text

variable {a y : List Char} {g : Gap}

/-- Whether blanks and comments make up the text, from where the passing over stands. -/
def idle : Gap → List Char → Bool
  | g, [] => g = .blank
  | g, c :: r =>
    if g = .blank then
      if isGap c then idle .blank r
      else if c = '/' ∧ (r.head? = some '/' ∨ r.head? = some '*') then idle .opening r
      else false
    else idle (g.next c) r

lemma idle_nil : idle g [] = true ↔ g = .blank := by
  simp [idle]

/-- The next character is blank, starts a comment or is in one. -/
lemma idle_cons {c : Char} (h : idle g (c :: a) = true) :
    (g = .blank ∧ isGap c = true ∧ idle .blank a = true) ∨
      (g = .blank ∧ c = '/' ∧ (∃ d s, a = d :: s ∧ (d = '/' ∨ d = '*')) ∧ idle .opening a = true) ∨
      (g ≠ .blank ∧ idle (g.next c) a = true) := by
  rw [idle] at h
  split at h
  · next hg =>
    split at h
    · next hgap => exact .inl ⟨hg, hgap, h⟩
    · split at h
      · next hopen =>
        refine .inr (.inl ⟨hg, hopen.1, ?_, h⟩)
        cases a with
        | nil => exact absurd hopen.2 (by simp)
        | cons d s => exact ⟨d, s, rfl, by simpa using hopen.2⟩
      · cases h
  · next hg => exact .inr (.inr ⟨hg, h⟩)

/-! ### The grammar -/

/-- A sign that is no quote is the sign of that character only. -/
lemma sign_plain_eq_iff {c d : Char} (hd : d ≠ '"' ∧ d ≠ '\'') : (Cell.plain c).sign = d ↔ c = d := by
  rw [Cell.sign]
  split
  · next hc =>
    rw [hc]
    exact iff_of_false hd.2.symm hd.1.symm
  · exact Iff.rfl

lemma isGap_sign (c : Char) : isGap (Cell.plain c).sign = isGap c := by
  rw [Cell.sign]
  split
  · next hc =>
    rw [hc]
    rfl
  · rfl

/-- A comment goes on with the next sign. -/
lemma skipGap_next (hg : g ≠ .blank) (c : Char) (e : Bool) (r : List Char) :
    (skipGap g e ((Cell.plain c).sign :: r)).1 = (skipGap (g.next c) false r).1 := by
  have hslash : (Cell.plain c).sign = '/' ↔ c = '/' := sign_plain_eq_iff (by decide)
  have hstar : (Cell.plain c).sign = '*' ↔ c = '*' := sign_plain_eq_iff (by decide)
  have hend : (Cell.plain c).sign = '\n' ↔ c = '\n' := sign_plain_eq_iff (by decide)
  have hsame : g.next (Cell.plain c).sign = g.next c := by
    cases g <;> simp only [Gap.next, hslash, hstar, hend]
  obtain ⟨e', -, hstep⟩ := skipGap_cons g e (Cell.plain c).sign r
  rw [hstep, Gap.past?_of_ne hg, hsame]
  exact skipGap_fst _ _ _ _

/-- **The grammar passes over** blanks and comments. -/
theorem skipGap_idle (h : idle g a = true) (e e' : Bool) (r : List Char) :
    (skipGap g e (signs (a.map .plain) ++ r)).1 = (skipGap .blank e' r).1 := by
  induction a generalizing g e with
  | nil =>
    rw [idle_nil.1 h]
    exact skipGap_fst _ _ _ _
  | cons c a ih =>
    rw [List.map_cons, signs_cons, List.cons_append]
    rcases idle_cons h with ⟨rfl, hgap, ha⟩ | ⟨rfl, rfl, ⟨d, s, rfl, hd⟩, ha⟩ | ⟨hg, ha⟩
    · rw [skipGap, isGap_sign, if_pos hgap]
      exact ih ha _
    · have hsign : (Cell.plain d).sign = '/' ∨ (Cell.plain d).sign = '*' := by
        rwa [sign_plain_eq_iff (by decide), sign_plain_eq_iff (by decide)]
      have hopen : (signs ((d :: s).map .plain) ++ r).head? = some '/' ∨
          (signs ((d :: s).map .plain) ++ r).head? = some '*' :=
        hsign.imp (congrArg some) (congrArg some)
      rw [skipGap, if_neg (by decide), if_pos ⟨rfl, hopen⟩]
      exact ih ha _
    · rw [skipGap_next hg]
      exact ih ha _

/-! ### The scan for literals -/

lemma isTame_of_isGap {c : Char} (h : isGap c = true) : isTame c = true := by
  have hall : "\"'/#\x60(){}[]".toList.all (fun c => !isGap c) = true := by decide
  rw [isTame, Bool.not_eq_true', Bool.eq_false_iff]
  intro hc
  have hno := List.all_eq_true.1 hall c (List.contains_iff_mem.1 hc)
  rw [h] at hno
  cases hno

lemma step_gap {c : Char} (hc : isGap c = true) (next : Option Char) : ({} : Scan).step c next = {} := by
  have hstep := step_of_isTame (isTame_of_isGap hc) (s := {}) rfl next
  have hpush : ({} : Scan).before.push c = .other := by
    unfold Before.push
    rw [if_pos hc]
    rfl
  rw [hstep, hpush]

/-- The scan where the passing over stands. -/
def Gap.scan : Gap → Scan
  | .blank => {}
  | g => { mode := .comment g }

lemma step_comment (hg : g ≠ .blank) (c : Char) (next : Option Char) :
    g.scan.step c next = (g.next c).scan := by
  cases g with
  | blank => exact absurd rfl hg
  | _ =>
    simp only [Gap.scan, Gap.next, Scan.step]
    repeat' split
    all_goals simp_all

/-- **The scan passes over** blanks and comments, and no literal is in them. -/
theorem cellsFrom_idle (h : idle g a = true) (y : List Char) :
    cellsFrom 0 g.scan (a ++ y) = a.map .plain ++ cellsFrom 0 {} y := by
  induction a generalizing g with
  | nil =>
    rw [idle_nil.1 h]
    rfl
  | cons c a ih =>
    have hplain {g' : Gap} (hstart : g.scan.startsLiteral c = false)
        (hstep : g.scan.step c (a ++ y).head? = g'.scan) (ha : idle g' a = true) :
        cellsFrom 0 g.scan (c :: a ++ y) = (c :: a).map .plain ++ cellsFrom 0 {} y := by
      rw [List.cons_append, cellsFrom, hstart, if_neg (by decide), hstep, ih ha, List.map_cons,
        List.cons_append]
    rcases idle_cons h with ⟨rfl, hgap, ha⟩ | ⟨rfl, rfl, ⟨d, s, rfl, hd⟩, ha⟩ | ⟨hg, ha⟩
    · exact hplain (startsLiteral_of_isTame (isTame_of_isGap hgap) _) (step_gap hgap _) ha
    · refine hplain (by decide) ?_ ha
      have hopen : (d :: s ++ y).head? = some '/' ∨ (d :: s ++ y).head? = some '*' :=
        hd.imp (congrArg some) (congrArg some)
      show ({} : Scan).pass '/' _ = _
      rw [Scan.pass, if_pos ⟨rfl, hopen⟩]
      rfl
    · refine hplain ?_ (step_comment hg c _) ha
      rw [Bool.eq_false_iff]
      intro hstart
      have hmode := (startsLiteral_iff.1 hstart).1
      cases g with
      | blank => exact hg rfl
      | _ => cases hmode

/-! ### Texts in front of a script -/

lemma cells_idle (h : idle .blank a = true) (y : List Char) : cells (a ++ y) = a.map .plain ++ cells y :=
  cellsFrom_idle h y

/-- **Blanks and comments in front** hold no statement. -/
theorem rowOf_idle (h : idle .blank a = true) (y : List Char) : rowOf (a ++ y) = rowOf y := by
  rw [rowOf, rowOf, cells_idle h, signs_append]
  exact statementsOf_skipGap (skipGap_idle h _ _ _)

end Mender.Script
