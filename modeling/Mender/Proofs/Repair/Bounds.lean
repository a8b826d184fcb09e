import Mender.Proofs.Repair.Course

/-!
How much a repair may do, whatever its collaborators answer: the number of its passes, of the
questions to the model and of the look-ups in the catalog, and the records it leaves.
-/

namespace Mender.Repair

open Session

variable (w : Workshop) (r : Request)

/-- Neither the model nor the catalog is called before the passes. -/
lemma extends_loopStart (given : String) (s : Session) :
    Extends Call.Aside (·.metrics.patchesApplied) s (loopStartSession w r given s) := by
  have hsource : Makes Call.Aside (·.metrics.patchesApplied) (resolveSource w r) :=
    (makes_resolveSource w r).mono (fun _ h => h.ofStore.aside) fun _ _ h => by
      rw [metrics_of_beyondTools h]
  have hopening : Makes Call.Aside (·.metrics.patchesApplied) (opening w r) :=
    (makes_opening w r).mono (fun _ h => h.ofStore.aside) fun _ _ h => h
  have hcheck : Makes Call.Aside (·.metrics.patchesApplied)
      (checkText w r.filename given false) :=
    (makes_checkText w r.filename given false).mono (fun _ h => h.aside) fun _ _ h => by
      rw [metrics_of_beyondTools h]
  exact ((hsource s).trans (hopening _)).trans (hcheck _)

/-- At the end the model is not asked, and the catalog only when errors remain. -/
lemma conclude_adds (given : String) (initial : Checked) (p : Progress) (s : Session) :
    ∃ l, (s.after (conclude w r given initial p)).calls = s.calls ++ l ∧
      callsTo .generator l = 0 ∧ callsTo .catalog l ≤ 1 ∧
      (callsTo .catalog l ≠ 0 → p.current.errors ≠ 0 ∧ r.allowCatalog = true) ∧
      (s.after (conclude w r given initial p)).metrics.patchesApplied =
        s.metrics.patchesApplied := by
  unfold conclude
  by_cases h : p.current.errors = 0
  · exact ⟨[], by simp [h], rfl, by simp, by simp, by simp [h]⟩
  rw [if_neg h]
  simp only [after_bind]
  cases hsub : substitute? w r s with
  | some source =>
    obtain ⟨ha, hs⟩ := catalogFallback_of_some w r hsub
    obtain ⟨⟨l, hl, htools⟩, hsame⟩ :=
      makes_checkText w r.filename source true (foundSession r s)
    obtain ⟨hgen, hcat⟩ := callsTo_of_aside fun c hc => (htools c hc).aside
    have hallow : r.allowCatalog = true := by
      by_contra hr
      simp [substitute?, hr] at hsub
    refine ⟨.lookUp (Catalog.stemOf r.filename) :: l, ?_, ?_, ?_, fun _ => ⟨h, hallow⟩, ?_⟩
    · rw [ha, hs]
      simp [hl]
    · simp [hgen, Call.collaborator]
    · simp [hcat, Call.collaborator]
    · rw [ha, hs]
      simp [metrics_of_beyondTools hsame]
  | none =>
    obtain ⟨ha, hs⟩ := catalogFallback_of_none w r hsub
    rw [ha]
    rcases hs with hs | ⟨hallow, hs⟩
    · exact ⟨[], by simp [hs], rfl, by simp, by simp, by simp [hs]⟩
    · refine ⟨[.lookUp (Catalog.stemOf r.filename)], ?_, ?_, ?_, fun _ => ⟨h, hallow⟩, ?_⟩
      · simp [hs]
      · simp [Call.collaborator]
      · simp [Call.collaborator]
      · simp [hs]

/-- The bounds that a repair keeps which starts in `s` from the text `given` and ends with `o`:
`last` errors are left by its passes, and its calls are first `early` and then `late`. -/
structure WithinBounds (s : Session) (o : Outcome) (given : String) (last : Nat)
    (early late : List Call) : Prop where
  passes : o.passes ≤ min (r.maxPasses.getD w.policy.maxPasses) w.policy.ceiling
  /-- Passes are saved only when no errors are left. -/
  saved : o.passes < min (r.maxPasses.getD w.policy.maxPasses) w.policy.ceiling → last = 0
  records : o.records.length = o.passes
  ledger : Ledger ((firstCheck w r given s).result w r.filename).errors last o.records
  calls : (s.after (repair w r)).calls = s.calls ++ early ++ late
  /-- Each pass asks the model once, if there is one. -/
  asked : callsTo .generator early = if w.canPatch then o.passes else 0
  askedLate : callsTo .generator late = 0
  lookedUpEarly : callsTo .catalog early = 0
  lookedUp : callsTo .catalog late ≤ 1
  lookedUpWhy : callsTo .catalog late = 1 → 0 < last ∧ r.allowCatalog = true
  patches : (s.after (repair w r)).metrics.patchesApplied =
    s.metrics.patchesApplied + o.records.countP (·.changed)

/-- **Bounds of a repair**, whatever its collaborators answer. -/
theorem repair_within_bounds {given : String} {s : Session} (h : Accepted w r given s) :
    ∃ o last early late, s.answer (repair w r) = .ok o ∧
      WithinBounds w r s o given last early late := by
  obtain ⟨hanswer, hafter⟩ := h.repair
  obtain ⟨⟨l₁, hl₁, hp₁⟩, hm₁⟩ := extends_loopStart w r given s
  obtain ⟨hgen₁, hcat₁⟩ := callsTo_of_aside hp₁
  obtain ⟨rs, l₂, hadd⟩ := passes_add w r.filename (passBudget w r) (passBudget w r)
    (loopStart w r given s) (loopStartSession w r given s)
  have hledger := passes_ledger w r.filename (passBudget w r) (passBudget w r)
    (loopStart w r given s) (loopStartSession w r given s) (.nil _)
  obtain ⟨l₃, hl₃, hgen₃, hcat₃, hwhy, hm₃⟩ := conclude_adds w r given
    ((firstCheck w r given s).result w r.filename) (loopEnd w r given s)
    (loopEndSession w r given s)
  obtain ⟨⟨l₄, hl₄, hp₄⟩, hm₄⟩ := makes_keep w r
    (outcomeOf (loopEnd w r given s) (verdict w r given s)) (verdictSession w r given s)
  obtain ⟨hgen₄, hcat₄⟩ := callsTo_of_aside fun c hc => (hp₄ c hc).aside
  have hrs : (loopEnd w r given s).records = rs := hadd.records
  refine ⟨_, (loopEnd w r given s).current.errors, l₁ ++ l₂, l₃ ++ l₄, hanswer,
    ⟨?_, ?_, rfl, hledger, ?_, ?_, ?_, ?_, ?_, ?_, ?_⟩⟩
  · rw [outcomeOf, hrs]
    exact hadd.bounded
  · rw [outcomeOf, hrs]
    exact hadd.clean
  · rw [hafter, hl₄, verdictSession, hl₃, loopEndSession, hadd.calls, hl₁]
    simp only [List.append_assoc]
  · rw [callsTo_append, hgen₁, hadd.asked, Nat.zero_add, outcomeOf, hrs]
  · rw [callsTo_append, hgen₃, hgen₄]
  · rw [callsTo_append, hcat₁, hadd.lookedUp]
  · rw [callsTo_append, hcat₄]
    exact hcat₃
  · intro hone
    rw [callsTo_append, hcat₄, Nat.add_zero] at hone
    obtain ⟨herr, hallow⟩ := hwhy (by omega)
    exact ⟨Nat.pos_of_ne_zero herr, hallow⟩
  · have hpatches := congrArg Metrics.patchesApplied hm₄
    rw [hafter, hpatches, verdictSession, hm₃, loopEndSession, hadd.patches, outcomeOf, hrs]
    exact congrArg (· + _) hm₁

/-- In the sample the model fails once and helps too little once, and the catalog takes over. -/
theorem sample_within_bounds :
    Accepted sample sampleRequest "a" {} ∧
      ({} : Session).answer (repair sample sampleRequest) = .ok sampleOutcome ∧
      ∃ o last early late, ({} : Session).answer (repair sample sampleRequest) = .ok o ∧
        WithinBounds sample sampleRequest {} o "a" last early late := by
  have h : Accepted sample sampleRequest "a" {} := ⟨by decide +kernel, by decide +kernel⟩
  exact ⟨h, by decide +kernel, repair_within_bounds sample sampleRequest h⟩

end Mender.Repair
