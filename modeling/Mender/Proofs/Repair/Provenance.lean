import Mender.Proofs.Repair.Course

/-!
Whether an outcome tells truly how its text came about.

The provenance follows from the errors that the passes leave, from whether a pass has changed
the text, and from the catalog. Text and diagnostics always come from one and the same check,
except that a repair that failed returns the text as it was given.
-/

namespace Mender.Repair

open Session

variable (w : Workshop) (r : Request) (given : String) (s : Session)

lemma errors_eq_zero_iff {c : Checked} :
    c.errors = 0 ↔ ∀ d ∈ c.diagnostics, d.isError = false := by
  unfold Checked.errors errorCount
  simp [List.countP_eq_zero]

/-! ### The verdict -/

lemma verdict_of_clean (h : (loopEnd w r given s).current.errors = 0) :
    verdict w r given s = ⟨(loopEnd w r given s).current.text,
      (loopEnd w r given s).current.diagnostics,
      if (loopEnd w r given s).records.any (·.changed) then .aiRepair else .alreadyValid⟩ := by
  unfold verdict conclude
  rw [if_pos h, answer_pure]

lemma verdict_of_substitute (h : (loopEnd w r given s).current.errors ≠ 0) {source : String}
    (hsub : substitute? w r (loopEndSession w r given s) = some source) :
    let c := (substituteCheck r source (loopEndSession w r given s)).result w r.filename
    verdict w r given s = ⟨c.text, c.diagnostics, .catalog⟩ := by
  unfold verdict conclude
  rw [if_neg h, answer_bind, (catalogFallback_of_some w r hsub).1, answer_pure]

lemma verdict_of_none (h : (loopEnd w r given s).current.errors ≠ 0)
    (hsub : substitute? w r (loopEndSession w r given s) = none) :
    verdict w r given s =
      ⟨given, ((firstCheck w r given s).result w r.filename).diagnostics, .asGiven⟩ := by
  unfold verdict conclude
  rw [if_neg h, answer_bind, (catalogFallback_of_none w r hsub).1, answer_pure]

/-- Errors are left only if there were some at first. -/
lemma firstCheck_errors (h : (loopEnd w r given s).current.errors ≠ 0) :
    ((firstCheck w r given s).result w r.filename).errors ≠ 0 := by
  intro hfirst
  have hledger := passes_ledger w r.filename (passBudget w r) (passBudget w r)
    (loopStart w r given s) (loopStartSession w r given s) (.nil _)
  have hstart : (loopStart w r given s).current.errors = 0 := by
    rw [loopStart]
    exact hfirst
  rw [hstart] at hledger
  exact h hledger.eq_nil.2

/-- What an outcome tells: `first` is the check of the source, `last` the last check of the
passes. -/
structure Truthful (o : Outcome) (first last : Checked) : Prop where
  aiRepair : o.provenance = .aiRepair ↔ last.errors = 0 ∧ ∃ x ∈ o.records, x.changed = true
  alreadyValid : o.provenance = .alreadyValid ↔
    last.errors = 0 ∧ ∀ x ∈ o.records, x.changed = false
  catalog : o.provenance = .catalog ↔ last.errors ≠ 0 ∧ r.allowCatalog = true ∧
    ∃ source, lookedUp? w r (loopEndSession w r given s) = some source
  asGiven : o.provenance = .asGiven ↔ last.errors ≠ 0 ∧
    (r.allowCatalog = false ∨ lookedUp? w r (loopEndSession w r given s) = none)
  /-- A text without errors is the one that was checked last. -/
  checked : o.provenance = .aiRepair ∨ o.provenance = .alreadyValid →
    o.fixedCode = last.text ∧ o.finalDiagnostics = last.diagnostics ∧
      ∀ d ∈ o.finalDiagnostics, d.isError = false
  /-- A component of the catalog is checked afresh. -/
  substituted : ∀ source, o.provenance = .catalog →
    lookedUp? w r (loopEndSession w r given s) = some source →
    let c := (substituteCheck r source (loopEndSession w r given s)).result w r.filename
    o.fixedCode = c.text ∧ o.finalDiagnostics = c.diagnostics
  /-- A repair that failed returns the source and what the first check found. -/
  returned : o.provenance = .asGiven → o.fixedCode = given ∧
    o.finalDiagnostics = first.diagnostics ∧ ∃ d ∈ o.finalDiagnostics, d.isError = true

/-! ### The three ends -/

variable {w r given s}

lemma truthful_of_clean {first last : Checked} {p : Progress} (hp : p.current = last)
    (h : last.errors = 0) :
    Truthful w r given s (outcomeOf p ⟨p.current.text, p.current.diagnostics,
      if p.records.any (·.changed) then .aiRepair else .alreadyValid⟩) first last := by
  have hclean := errors_eq_zero_iff.1 h
  subst hp
  unfold outcomeOf
  by_cases hch : p.records.any (·.changed)
  · have hex : ∃ x ∈ p.records, x.changed = true := List.any_eq_true.1 hch
    have hall : ¬ ∀ x ∈ p.records, x.changed = false := by
      obtain ⟨x, hx, hxc⟩ := hex
      exact fun hno => by simp [hno x hx] at hxc
    rw [if_pos hch]
    exact {
      aiRepair := ⟨fun _ => ⟨h, hex⟩, fun _ => rfl⟩
      alreadyValid := ⟨by simp, fun hno => absurd hno.2 hall⟩
      catalog := by simp [h]
      asGiven := by simp [h]
      checked := fun _ => ⟨rfl, rfl, hclean⟩
      substituted := by simp
      returned := by simp }
  · have hall : ∀ x ∈ p.records, x.changed = false := by simpa using hch
    have hex : ¬ ∃ x ∈ p.records, x.changed = true := by
      rintro ⟨x, hx, hxc⟩
      simp [hall x hx] at hxc
    rw [if_neg hch]
    exact {
      aiRepair := ⟨by simp, fun hno => absurd hno.2 hex⟩
      alreadyValid := ⟨fun _ => ⟨h, hall⟩, fun _ => rfl⟩
      catalog := by simp [h]
      asGiven := by simp [h]
      checked := fun _ => ⟨rfl, rfl, hclean⟩
      substituted := by simp
      returned := by simp }

lemma truthful_of_substitute {first last : Checked} {p : Progress} (h : last.errors ≠ 0)
    {source : String} (hsub : substitute? w r (loopEndSession w r given s) = some source) :
    let c := (substituteCheck r source (loopEndSession w r given s)).result w r.filename
    Truthful w r given s (outcomeOf p ⟨c.text, c.diagnostics, .catalog⟩) first last := by
  obtain ⟨hallow, hlook⟩ := (substitute?_eq_some w r).1 hsub
  exact {
    aiRepair := by simp [outcomeOf, h]
    alreadyValid := by simp [outcomeOf, h]
    catalog := ⟨fun _ => ⟨h, hallow, source, hlook⟩, fun _ => rfl⟩
    asGiven := by simp [outcomeOf, hallow, hlook]
    checked := by simp [outcomeOf]
    substituted := by
      intro source' _ hlook'
      obtain rfl : source = source' := Option.some.inj (hlook.symm.trans hlook')
      exact ⟨rfl, rfl⟩
    returned := by simp [outcomeOf] }

lemma truthful_of_none {last : Checked} {p : Progress} (h : last.errors ≠ 0)
    (hsub : substitute? w r (loopEndSession w r given s) = none)
    (hfirst : ((firstCheck w r given s).result w r.filename).errors ≠ 0) :
    Truthful w r given s
      (outcomeOf p ⟨given, ((firstCheck w r given s).result w r.filename).diagnostics, .asGiven⟩)
      ((firstCheck w r given s).result w r.filename) last := by
  have hwhy : r.allowCatalog = false ∨ lookedUp? w r (loopEndSession w r given s) = none := by
    unfold substitute? at hsub
    by_cases ha : r.allowCatalog = true
    · exact .inr (by simpa [ha] using hsub)
    · exact .inl (by simpa using ha)
  have hno : ¬ (r.allowCatalog = true ∧
      ∃ source, lookedUp? w r (loopEndSession w r given s) = some source) := by
    rintro ⟨ha, source, hlook⟩
    rcases hwhy with hwhy | hwhy
    · simp [hwhy] at ha
    · simp [hwhy] at hlook
  have herr : ∃ d ∈ ((firstCheck w r given s).result w r.filename).diagnostics,
      d.isError = true := by
    rw [Ne, errors_eq_zero_iff] at hfirst
    simpa using hfirst
  exact {
    aiRepair := by simp [outcomeOf, h]
    alreadyValid := by simp [outcomeOf, h]
    catalog := ⟨by simp [outcomeOf], fun hc => absurd hc.2 hno⟩
    asGiven := ⟨fun _ => ⟨h, hwhy⟩, fun _ => rfl⟩
    checked := by simp [outcomeOf]
    substituted := by simp [outcomeOf]
    returned := fun _ => ⟨rfl, rfl, herr⟩ }

/-- **The provenance of an outcome is true**, and so are its text and its diagnostics. -/
theorem outcome_truthful (h : Accepted w r given s) :
    ∃ o, s.answer (repair w r) = .ok o ∧
      (loopEnd w r given s).current = (lastCheck w r given s).result w r.filename ∧
      Truthful w r given s o ((firstCheck w r given s).result w r.filename)
        ((lastCheck w r given s).result w r.filename) := by
  have hlast := current_loopEnd w r given s
  refine ⟨_, h.repair.1, hlast, ?_⟩
  by_cases hz : (loopEnd w r given s).current.errors = 0
  · rw [verdict_of_clean w r given s hz]
    exact truthful_of_clean hlast (hlast ▸ hz)
  · cases hsub : substitute? w r (loopEndSession w r given s) with
    | some source =>
      rw [verdict_of_substitute w r given s hz hsub]
      exact truthful_of_substitute (hlast ▸ hz) hsub
    | none =>
      rw [verdict_of_none w r given s hz hsub]
      exact truthful_of_none (hlast ▸ hz) hsub (firstCheck_errors w r given s hz)

theorem sample_truthful :
    Accepted sample sampleRequest "a" {} ∧
      ∃ o, ({} : Session).answer (repair sample sampleRequest) = .ok o ∧
        (loopEnd sample sampleRequest "a" {}).current =
          (lastCheck sample sampleRequest "a" {}).result sample sampleRequest.filename ∧
        Truthful sample sampleRequest "a" {} o
          ((firstCheck sample sampleRequest "a" {}).result sample sampleRequest.filename)
          ((lastCheck sample sampleRequest "a" {}).result sample sampleRequest.filename) := by
  have h : Accepted sample sampleRequest "a" {} := ⟨by decide +kernel, by decide +kernel⟩
  exact ⟨h, outcome_truthful h⟩

end Mender.Repair
