import Mender.Preview.Sandbox
import Mender.Proofs.Session
import Mender.Proofs.Text.Pattern

/-!
Which hazards are reported.

A hazard is reported exactly when one of its patterns matches a stretch of the text that has no
line feed, and the sandbox refuses exactly the texts with such a stretch. The patterns allow line
feeds among their blanks, so a call that is spread over lines is a match that is not reported.
-/

namespace Mender

open Mender.Text Mender.Preview

namespace HazardKind

/-- One of the hazard's patterns matches the stretch `m` of the text `a ++ m ++ b`. -/
def Occurs (k : HazardKind) (a m b : List Char) : Prop := ∃ p ∈ k.patterns, p.Occurs a m b

lemma keepsToLine : ∀ k : HazardKind, ∀ p ∈ k.patterns, p.KeepsToLine
  | .eval | .newFunction | .documentCookie | .webStorage | .processEnv | .require | .childProcess
  | .xmlHttpRequest | .importScripts => by decide

lemma mem_all (k : HazardKind) : k ∈ all := by cases k <;> decide

lemma isIn_iff (k : HazardKind) (t : List Char) :
    k.isIn t = true ↔ ∃ a m b, t = a ++ m ++ b ∧ k.Occurs a m b := by
  simp only [isIn, List.any_eq_true, Occurs]
  constructor
  · rintro ⟨p, hp, h⟩
    obtain ⟨a, m, b, rfl, hs⟩ := (Pattern.isIn_iff (k.keepsToLine p hp).settled).1 h
    exact ⟨a, m, b, rfl, p, hp, hs⟩
  · rintro ⟨a, m, b, rfl, p, hp, hs⟩
    exact ⟨p, hp, (Pattern.isIn_iff (k.keepsToLine p hp).settled).2 ⟨a, m, b, rfl, hs⟩⟩

lemma exists_line_isIn_iff (k : HazardKind) (t : List Char) :
    (∃ l ∈ lines t, k.isIn l = true) ↔
      ∃ a m b, t = a ++ m ++ b ∧ '\n' ∉ m ∧ k.Occurs a m b := by
  simp only [isIn, List.any_eq_true, Occurs]
  constructor
  · rintro ⟨l, hl, p, hp, h⟩
    obtain ⟨a, m, b, rfl, hm, hs⟩ :=
      (Pattern.exists_line_isIn_iff (k.keepsToLine p hp)).1 ⟨l, hl, h⟩
    exact ⟨a, m, b, rfl, hm, p, hp, hs⟩
  · rintro ⟨a, m, b, rfl, hm, p, hp, hs⟩
    obtain ⟨l, hl, h⟩ :=
      (Pattern.exists_line_isIn_iff (k.keepsToLine p hp)).2 ⟨a, m, b, rfl, hm, hs⟩
    exact ⟨l, hl, p, hp, h⟩

end HazardKind

namespace Hazard

lemma exists_onLine_iff (k : HazardKind) (l : List Char) (n : Nat) :
    (∃ z ∈ onLine l n, z.kind = k) ↔ k.isIn l = true := by
  simp [onLine, HazardKind.mem_all]

lemma exists_scan_iff (k : HazardKind) (t : List Char) :
    (∃ z ∈ scan t, z.kind = k) ↔ ∃ l ∈ lines t, k.isIn l = true := by
  have hlines : ((lines t).zipIdx 1).map Prod.fst = lines t := List.zipIdx_map_fst 1 (lines t)
  rw [← hlines]
  simp only [scan, List.mem_flatMap, List.mem_map]
  constructor
  · rintro ⟨z, ⟨p, hp, hz⟩, hk⟩
    exact ⟨p.1, ⟨p, hp, rfl⟩, (exists_onLine_iff k p.1 p.2).1 ⟨z, hz, hk⟩⟩
  · rintro ⟨_, ⟨p, hp, rfl⟩, h⟩
    obtain ⟨z, hz, hk⟩ := (exists_onLine_iff k p.1 p.2).2 h
    exact ⟨z, ⟨p, hp, hz⟩, hk⟩

lemma refuseHazards_eq_ok_iff (code : String) :
    refuseHazards code = .ok () ↔ ∀ k, ¬ ∃ z ∈ scan code.toList, z.kind = k := by
  unfold refuseHazards
  cases h : scan code.toList with
  | nil => simp
  | cons z zs =>
    refine iff_of_false (by simp) fun hno => hno z.kind ⟨z, List.mem_cons_self, rfl⟩

/-- **What is reported** are the matches that do not reach over the end of a line, and the sandbox
refuses a text for nothing else. -/
theorem reported_iff (code : String) :
    (∀ k : HazardKind, (∃ z ∈ scan code.toList, z.kind = k) ↔
      ∃ a m b, code.toList = a ++ m ++ b ∧ '\n' ∉ m ∧ k.Occurs a m b) ∧
    (refuseHazards code = .ok () ↔
      ∀ (k : HazardKind) a m b, code.toList = a ++ m ++ b → k.Occurs a m b → '\n' ∈ m) := by
  have hreport : ∀ k, (∃ z ∈ scan code.toList, z.kind = k) ↔
      ∃ a m b, code.toList = a ++ m ++ b ∧ '\n' ∉ m ∧ k.Occurs a m b := fun k =>
    (exists_scan_iff k code.toList).trans (k.exists_line_isIn_iff code.toList)
  refine ⟨hreport, ?_⟩
  rw [refuseHazards_eq_ok_iff]
  constructor
  · intro h k a m b ht hs
    by_contra hm
    exact h k ((hreport k).2 ⟨a, m, b, ht, hm, hs⟩)
  · intro h k hk
    obtain ⟨a, m, b, ht, hm, hs⟩ := (hreport k).1 hk
    exact hm (h k a m b ht hs)

/-- A call that is spread over two lines is not reported, and the sandbox runs it. -/
theorem spread_call_runs :
    (¬ ∀ (t : List Char) (k : HazardKind), (∃ a m b, t = a ++ m ++ b ∧ k.Occurs a m b) →
      ∃ z ∈ scan t, z.kind = k) ∧
    (({} : Session).answer (Sandbox.render
      ⟨some fun _ _ => { result := .ok { html := "ran" } }, {}, .standard⟩
      (fun _ _ => return .error (.unavailable "")) "eval\n('1');" {} {})).1 =
      .ok { html := "ran" } := by
  refine ⟨fun h => ?_, by decide +kernel⟩
  have hscan : scan "eval\n(0)".toList = [] := by decide
  obtain ⟨z, hz, -⟩ := h "eval\n(0)".toList .eval ((HazardKind.eval.isIn_iff _).1 (by decide))
  rw [hscan] at hz
  cases hz

end Hazard

end Mender
