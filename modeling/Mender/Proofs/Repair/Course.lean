import Mender.Proofs.Repair.Passes

/-!
The course of a repair: from the source, through the first check and the passes, to an end.

The stages are those of `repairSource`, each with the session it begins in.
-/

namespace Mender.Repair

open Session

/-! ### Stages -/

section Stages

variable (w : Workshop) (r : Request) (given : String) (s : Session)

/-- The session in which the source of a request is first checked. -/
def firstSession : Session := (s.after (resolveSource w r)).after (opening w r)

def firstCheck : Check := ⟨given, false, firstSession w r s⟩

/-- Where the passes begin. -/
def loopStart : Progress where
  current := (firstCheck w r given s).result w r.filename
  memory := .ofList ((s.after (resolveSource w r)).answer (opening w r) ++ r.memory)

def loopStartSession : Session :=
  (firstSession w r s).after (checkText w r.filename given false)

/-- Where the passes end. -/
def loopEnd : Progress :=
  (loopStartSession w r given s).answer
    (passes w r.filename (passBudget w r) (passBudget w r) (loopStart w r given s))

def loopEndSession : Session :=
  (loopStartSession w r given s).after
    (passes w r.filename (passBudget w r) (passBudget w r) (loopStart w r given s))

/-- The checks from that of the source to the last one of the passes. -/
def checks : List Check :=
  firstCheck w r given s :: passChecks w r.filename (passBudget w r) (passBudget w r)
    (loopStart w r given s) (loopStartSession w r given s)

def lastCheck : Check :=
  (checks w r given s).getLast (List.cons_ne_nil _ _)

theorem current_loopEnd :
    (loopEnd w r given s).current = (lastCheck w r given s).result w r.filename := by
  have hlast : (checks w r given s).getLast? = some (lastCheck w r given s) :=
    List.getLast?_eq_some_getLast _
  unfold checks at hlast
  rw [List.getLast?_cons, Option.some_inj] at hlast
  unfold loopEnd
  rw [current_passes, ← hlast]
  cases (passChecks _ _ _ _ _ _).getLast? with
  | none => rw [Option.map_none, Option.getD_none, Option.getD_none, loopStart]
  | some k => rw [Option.map_some, Option.getD_some, Option.getD_some]

/-- The end of a repair, whose store calls are still to come. -/
def verdict : Verdict :=
  (loopEndSession w r given s).answer
    (conclude w r given ((firstCheck w r given s).result w r.filename) (loopEnd w r given s))

def verdictSession : Session :=
  (loopEndSession w r given s).after
    (conclude w r given ((firstCheck w r given s).result w r.filename) (loopEnd w r given s))

lemma answer_repairSource :
    (s.after (resolveSource w r)).answer (repairSource w r given) =
      outcomeOf (loopEnd w r given s) (verdict w r given s) := by
  unfold repairSource verdict loopEnd loopEndSession loopStartSession loopStart firstCheck
    firstSession Check.result
  simp only [answer_bind, answer_pure]

lemma after_repairSource :
    (s.after (resolveSource w r)).after (repairSource w r given) =
      (verdictSession w r given s).after
        (keep w r (outcomeOf (loopEnd w r given s) (verdict w r given s))) := by
  unfold repairSource verdictSession verdict loopEnd loopEndSession loopStartSession loopStart
    firstCheck firstSession Check.result
  simp only [after_bind, after_pure]

end Stages

/-- A request that a repair begins with: it names a file, whose text is `given`. -/
structure Accepted (w : Workshop) (r : Request) (given : String) (s : Session) : Prop where
  named : Reply.blank r.filename = false
  source : s.answer (resolveSource w r) = .ok given

/-- A repair of an accepted request has an outcome, and goes through all stages. -/
theorem Accepted.repair {w : Workshop} {r : Request} {given : String} {s : Session}
    (h : Accepted w r given s) :
    s.answer (repair w r) = .ok (outcomeOf (loopEnd w r given s) (verdict w r given s)) ∧
      s.after (repair w r) = (verdictSession w r given s).after
        (keep w r (outcomeOf (loopEnd w r given s) (verdict w r given s))) := by
  have hnamed : ¬ Reply.blank r.filename = true := by simp [h.named]
  unfold Repair.repair
  rw [if_neg hnamed, answer_bind, after_bind, h.source]
  simp only [answer_bind, answer_pure, after_bind, after_pure, answer_repairSource,
    after_repairSource, and_self]

/-- No other request has an outcome. -/
theorem accepted_of_ok {w : Workshop} {r : Request} {s : Session} {o : Outcome}
    (h : s.answer (repair w r) = .ok o) : ∃ given, Accepted w r given s := by
  unfold repair at h
  by_cases hb : Reply.blank r.filename = true
  · rw [if_pos hb, answer_pure] at h
    cases h
  · rw [if_neg hb, answer_bind] at h
    cases hs : s.answer (resolveSource w r) with
    | error e =>
      rw [hs, answer_pure] at h
      cases h
    | ok given => exact ⟨given, by simpa using hb, hs⟩

/-- A refused request has come to its source at most. -/
lemma after_repair_of_error {w : Workshop} {r : Request} {s : Session} {e : Fault}
    (h : s.answer (repair w r) = .error e) :
    s.after (repair w r) = s ∨ s.after (repair w r) = s.after (resolveSource w r) := by
  unfold repair at h ⊢
  by_cases hb : Reply.blank r.filename = true
  · rw [if_pos hb]
    exact .inl (after_pure s _)
  · rw [if_neg hb, answer_bind] at h
    rw [if_neg hb, after_bind]
    right
    cases hs : s.answer (resolveSource w r) with
    | error e => exact after_pure _ _
    | ok given =>
      rw [hs, answer_bind, answer_pure] at h
      cases h

/-! ### What the other parts do -/

variable (w : Workshop) (r : Request)

lemma makes_callStore {p : Call → Prop} (fails : StoreFailures) {request : StoreRequest}
    {key : FileKey} (h : p (.store request key)) :
    Makes p beyondTools (callStore fails request key) :=
  .bind (.note h fun _ => rfl) fun _ => .pure _

lemma makes_resolveSource : Makes Call.Reads beyondTools (resolveSource w r) := by
  unfold resolveSource
  split
  · exact .pure _
  · exact .pure _
  · exact .pure _
  · refine .bind (makes_callStore _ trivial) fun f => ?_
    split
    · exact .pure _
    · refine .bind .get fun s => ?_
      split <;> exact .pure _

lemma makes_loadMemory (kept : Option (StoreFailures × FileKey)) :
    Makes Call.Reads beyondTools (loadMemory kept) := by
  unfold loadMemory
  split
  · exact .pure _
  · refine .bind (makes_callStore _ trivial) fun f => ?_
    split
    · exact .pure _
    · exact .bind .get fun _ => .pure _

lemma makes_opening : Makes Call.Reads (·.metrics.patchesApplied) (opening w r) := by
  refine .bind (.modify (fun _ => rfl) fun _ => rfl) fun _ => ?_
  exact (makes_loadMemory _).mono (fun _ h => h) fun _ _ h => by rw [metrics_of_beyondTools h]

lemma makes_changeStore (fails : StoreFailures) (request : StoreRequest) (key : FileKey) :
    Makes Call.OfStore Session.metrics (changeStore fails request key) := by
  refine .bind ?_ fun e => ?_
  · have hcall : Makes Call.OfStore beyondTools (callStore fails request key) := makes_callStore _ rfl
    exact hcall.mono (fun _ h => h) fun _ _ h => metrics_of_beyondTools h
  · split
    · exact .modify (fun _ => rfl) fun _ => rfl
    · exact .pure _

lemma makes_keep (o : Outcome) : Makes Call.OfStore Session.metrics (keep w r o) := by
  unfold keep
  split
  · exact .bind (makes_changeStore _ _ _) fun _ =>
      .bind (makes_changeStore _ _ _) fun _ => makes_changeStore _ _ _
  · exact .pure _

/-! ### The catalog -/

/-- What the catalog, if there is one, answers in this session. -/
def lookedUp? (s : Session) : Option String :=
  w.catalog.bind fun c => w.gives (s.callsOf .catalog + 1) c (Catalog.stemOf r.filename)

/-- The component that may take a file's place. -/
def substitute? (s : Session) : Option String := if r.allowCatalog then lookedUp? w r s else none

/-- The session after a component has been found. -/
def foundSession (s : Session) : Session where
  calls := s.calls ++ [.lookUp (Catalog.stemOf r.filename)]
  metrics := { s.metrics with catalogSubstitutions := s.metrics.catalogSubstitutions + 1 }
  clock := s.clock
  toolchain := s.toolchain
  store := s.store

@[simp] lemma calls_foundSession (s : Session) :
    (foundSession r s).calls = s.calls ++ [.lookUp (Catalog.stemOf r.filename)] := rfl

@[simp] lemma patchesApplied_foundSession (s : Session) :
    (foundSession r s).metrics.patchesApplied = s.metrics.patchesApplied := rfl

/-- The check of a component that takes a file's place. -/
def substituteCheck (source : String) (s : Session) : Check := ⟨source, true, foundSession r s⟩

lemma substitute?_eq_some {s : Session} {source : String} :
    substitute? w r s = some source ↔ r.allowCatalog = true ∧ lookedUp? w r s = some source := by
  unfold substitute?
  cases r.allowCatalog <;> simp

lemma catalogFallback_of_some {s : Session} {source : String}
    (h : substitute? w r s = some source) :
    s.answer (catalogFallback w r) = some ((substituteCheck r source s).result w r.filename) ∧
      s.after (catalogFallback w r) =
        (foundSession r s).after (checkText w r.filename source true) := by
  obtain ⟨ha, hlook⟩ := (substitute?_eq_some w r).1 h
  obtain ⟨c, hc, hf⟩ := Option.bind_eq_some_iff.1 hlook
  unfold catalogFallback substituteCheck Check.result foundSession
  simp [ha, hc, hf, Call.collaborator]

lemma catalogFallback_of_none {s : Session} (h : substitute? w r s = none) :
    s.answer (catalogFallback w r) = none ∧
      (s.after (catalogFallback w r) = s ∨ r.allowCatalog = true ∧
        s.after (catalogFallback w r) =
          { s with calls := s.calls ++ [.lookUp (Catalog.stemOf r.filename)] }) := by
  unfold substitute? lookedUp? at h
  unfold catalogFallback
  cases hc : w.catalog with
  | none => simp
  | some catalog =>
    cases ha : r.allowCatalog with
    | false => simp
    | true =>
      have hf : w.gives (s.callsOf .catalog + 1) catalog (Catalog.stemOf r.filename) = none := by
        simpa [ha, hc] using h
      simp [hf, Call.collaborator]

/-! ### A sample -/

/-- The formatter accepts the text `c` only; the model fails at first, and then proposes `b`. -/
def sample : Workshop where
  tools := {
    start := fun _ => .ok ()
    lint := fun _ _ _ => .answered {}
    format := fun _ _ source =>
      if source = "c" then .answered source else .failed (.rejected "bad" none none)
    formatAll := none
    compile := none }
  generate := some fun n _ _ => if n = 1 then .error (.http "down") else .ok "b"
  catalog := some (.ofList [("Note", "c")])

def sampleRequest : Request := { filename := "note.txt", code := some "a", maxPasses := some 2 }

def sampleOutcome : Outcome where
  passes := 2
  fixedCode := "c"
  finalDiagnostics := []
  provenance := .catalog
  records := [⟨1, 1, 1, false, none⟩, ⟨2, 1, 1, true, none⟩]
  memory := ["fixed: bad"]

end Mender.Repair
