import Mender.Proofs.Diagnostic
import Mender.Proofs.Repair.Provenance

/-!
What a repair without errors says about its last check.

The findings of the type checker are merged into those of the validator, and of those that agree in
origin, message and line only the first is kept. Severities play no part in it, so a warning may
stand for an error.
-/

namespace Mender

/-! ### Errors of a merge -/

section

variable {into extra : List Diagnostic}

/-- Every error of `extra` comes after a milder diagnostic with its key. -/
def Softened (into extra : List Diagnostic) : Prop :=
  ∀ before d after, extra = before ++ d :: after → d.isError = true →
    ∃ e ∈ into ++ before, e.isError = false ∧ e.key = d.key

lemma mergeDiagnostics_clean :
    (∀ d ∈ mergeDiagnostics into extra, d.isError = false) ↔
      (∀ d ∈ into, d.isError = false) ∧ Softened into extra := by
  constructor
  · intro hclean
    refine ⟨fun d hd => hclean d (mem_mergeDiagnostics_of_mem hd), ?_⟩
    intro before d after hextra herr
    rcases merged_or_behind into hextra with hd | ⟨e, he, hmerged, hkey⟩
    · exact absurd (hclean d hd) (by simp [herr])
    · exact ⟨e, he, hclean e hmerged, hkey⟩
  · rintro ⟨hinto, hsoft⟩ d hd
    rcases first_of_mem_mergeDiagnostics hd with hd | ⟨before, after, rfl, hfirst⟩
    · exact hinto d hd
    · by_contra herr
      obtain ⟨e, he, -, hkey⟩ := hsoft before d after rfl (by simpa using herr)
      exact hfirst e he hkey

end

namespace Repair

open Session

/-! ### A check -/

section

variable (w : Workshop) (file : String) (k : Check)

/-- What the validator says in a check. -/
def Check.validation : Validation.Result :=
  k.session.answer (Validation.validateFile w.tools w.config file k.text)

/-- What a type checker reports at its `n`-th call. Its failure is a finding, too. -/
def typeFindings (check : Nat → (file source : String) → Except Tool.Fault (List Diagnostic))
    (n : Nat) (file source : String) : List Diagnostic :=
  match check n file source with
  | .ok found => found
  | .error f => [f.diagnostic .typecheck .typecheck]

/-- What the type checker reports in a check, if it is asked. -/
def Check.findings? : Option (List Diagnostic) :=
  let v := k.validation w file
  let t := k.session.after (Validation.validateFile w.tools w.config file k.text)
  w.check.bind fun check =>
    if k.afterPatch ∧ errorCount v.diagnostics < w.policy.typecheckBelow then
      some (typeFindings check (t.callsOf .checker + 1) file v.formatted)
    else none

lemma answer_checkTypes
    (check : Nat → (file source : String) → Except Tool.Fault (List Diagnostic)) (c : Checked)
    (t : Session) :
    t.answer (checkTypes check file c) = ⟨c.text, mergeDiagnostics c.diagnostics
      (typeFindings check (t.callsOf .checker + 1) file c.text)⟩ := by
  unfold checkTypes typeFindings
  rw [answer_bind, answer_note, answer_pure]
  rfl

lemma Check.diagnostics_result :
    (k.result w file).diagnostics =
      mergeDiagnostics (k.validation w file).diagnostics ((k.findings? w file).getD []) := by
  unfold result findings? validation checkText
  rw [answer_bind]
  generalize k.session.answer _ = v
  generalize k.session.after _ = t
  cases w.check with
  | none => simp [mergeDiagnostics]
  | some check =>
    by_cases h : k.afterPatch = true ∧ errorCount v.diagnostics < w.policy.typecheckBelow
    · simp [Checked.errors, h, answer_checkTypes]
    · simp [Checked.errors, h, mergeDiagnostics]

/-- The validator finds no error, and each error of the type checker is taken for something
milder. -/
structure Check.Passed : Prop where
  valid : ∀ d ∈ (k.validation w file).diagnostics, d.isError = false
  typed : ∀ found, k.findings? w file = some found →
    Softened (k.validation w file).diagnostics found

lemma Check.passed_iff : k.Passed w file ↔ (k.result w file).errors = 0 := by
  rw [errors_eq_zero_iff, diagnostics_result, mergeDiagnostics_clean]
  constructor
  · rintro ⟨hvalid, htyped⟩
    refine ⟨hvalid, ?_⟩
    cases hf : k.findings? w file with
    | none =>
      intro before d after hd
      simp at hd
    | some found => exact htyped found hf
  · rintro ⟨hvalid, htyped⟩
    refine ⟨hvalid, fun found hf => ?_⟩
    rwa [hf] at htyped

end

/-! ### A whole repair -/

variable {w : Workshop} {r : Request} {given : String} {s : Session}

/-- **A repair has no errors left** exactly if its last check is passed, and then nothing that was
found in that check is missing from its diagnostics but for what comes after a diagnostic of the same
key. -/
theorem clean_iff_last_check_passed (h : Accepted w r given s) :
    let k := lastCheck w r given s
    let found := (k.findings? w r.filename).getD []
    ∃ o, s.answer (repair w r) = .ok o ∧
      (o.provenance = .aiRepair ∨ o.provenance = .alreadyValid ↔ k.Passed w r.filename) ∧
      (k.Passed w r.filename → o.fixedCode = (k.result w r.filename).text ∧
        (∀ d ∈ (k.validation w r.filename).diagnostics, d ∈ o.finalDiagnostics) ∧
        ∀ before d after, found = before ++ d :: after →
          d ∈ o.finalDiagnostics ∨
            ∃ e ∈ (k.validation w r.filename).diagnostics ++ before,
              e ∈ o.finalDiagnostics ∧ e.key = d.key) := by
  intro k found
  obtain ⟨o, ho, -, htrue⟩ := outcome_truthful h
  have hclean : o.provenance = .aiRepair ∨ o.provenance = .alreadyValid ↔
      k.Passed w r.filename := by
    rw [htrue.aiRepair, htrue.alreadyValid, Check.passed_iff, ← and_or_left]
    refine and_iff_left ?_
    by_cases hch : ∃ x ∈ o.records, x.changed = true
    · exact .inl hch
    · exact .inr (by simpa using hch)
  refine ⟨o, ho, hclean, fun hpassed => ?_⟩
  obtain ⟨htext, hdiags, -⟩ := htrue.checked (hclean.2 hpassed)
  have hmerged : o.finalDiagnostics =
      mergeDiagnostics (k.validation w r.filename).diagnostics found := by
    rw [hdiags, Check.diagnostics_result]
  rw [hmerged]
  exact ⟨htext, fun d hd => mem_mergeDiagnostics_of_mem hd,
    fun before d after hfound => merged_or_behind _ hfound⟩

/-- The model proposes `b`, which the formatter accepts, but the type checker warns of something that
it then also takes for an error. -/
def typedSample : Workshop where
  tools := {
    start := fun _ => .ok ()
    lint := fun _ _ _ => .answered {}
    format := fun _ _ source =>
      if source = "b" then .answered source else .failed (.rejected "bad" none none)
    formatAll := none
    compile := none }
  generate := some fun _ _ _ => .ok "b"
  check := some fun _ _ _ => .ok [
    ⟨.warning, .typecheck, "unused", some 1, none, none, none⟩,
    ⟨.error, .typecheck, "unused", some 1, none, none, none⟩]

def typedOutcome : Outcome where
  passes := 1
  fixedCode := "b"
  finalDiagnostics := [⟨.warning, .typecheck, "unused", some 1, none, none, none⟩]
  provenance := .aiRepair
  records := [⟨1, 1, 0, true, none⟩]
  memory := ["fixed: bad"]

theorem typedSample_passed :
    Accepted typedSample sampleRequest "a" {} ∧
      (lastCheck typedSample sampleRequest "a" {}).Passed typedSample "note.txt" := by
  have h : Accepted typedSample sampleRequest "a" {} := ⟨by decide +kernel, by decide +kernel⟩
  obtain ⟨o, ho, hclean, -⟩ := clean_iff_last_check_passed h
  have hout : ({} : Session).answer (repair typedSample sampleRequest) = .ok typedOutcome := by
    decide +kernel
  obtain rfl : typedOutcome = o := Except.ok.inj (hout.symm.trans ho)
  exact ⟨h, hclean.1 (.inl rfl)⟩

/-- An error that the type checker reports may be lost. -/
theorem reported_error_lost :
    ¬ ∀ (w : Workshop) (r : Request) (given : String) (s : Session) (o : Outcome),
      Accepted w r given s → s.answer (repair w r) = .ok o →
        o.provenance = .aiRepair ∨ o.provenance = .alreadyValid →
        let k := lastCheck w r given s
        (∀ d ∈ (k.validation w r.filename).diagnostics, d.isError = false) ∧
          ∀ found, k.findings? w r.filename = some found → ∀ d ∈ found, d.isError = false := by
  intro hall
  have h : Accepted typedSample sampleRequest "a" {} := ⟨by decide +kernel, by decide +kernel⟩
  have hout : ({} : Session).answer (repair typedSample sampleRequest) = .ok typedOutcome := by
    decide +kernel
  have hfound : (lastCheck typedSample sampleRequest "a" {}).findings? typedSample "note.txt" =
      some [⟨.warning, .typecheck, "unused", some 1, none, none, none⟩,
        ⟨.error, .typecheck, "unused", some 1, none, none, none⟩] := by decide +kernel
  obtain ⟨-, hnone⟩ := hall _ _ _ _ _ h hout (.inl rfl)
  exact absurd (hnone _ hfound _ (List.mem_cons_of_mem _ List.mem_cons_self)) (by decide)

end Repair

end Mender
