import Mender.Proofs.Repair.Remembered

/-!
A store that fails does not spoil a repair.

An outcome is settled before anything is written. So it does not depend on which of the writes fail, and
each of them is attempted once, whatever has become of those before it. A memory that cannot be read is
taken to be empty.
-/

namespace Mender

/-! ### Writes -/

def StoreCall.Writes : StoreCall → Prop
  | .readFile | .loadMemory => False
  | .upsertFile | .saveMemory | .appendAudit => True

/-- The call asks the store for a change. -/
def Call.Writes : Call → Prop
  | .store request _ => request.call.Writes
  | _ => False

lemma Call.Writes.ofStore {c : Call} (h : c.Writes) : c.OfStore := by
  cases c with
  | store => rfl
  | _ => exact h.elim

lemma Call.Reads.not_writes {c : Call} (h : c.Reads) : ¬ c.Writes := by
  cases c with
  | store request =>
    cases request with
    | readFile | loadMemory => exact id
    | _ => exact h.elim
  | _ => exact id

namespace Session

/-- Two sessions that differ in what the store holds, if at all. -/
structure AlikeButStore (s t : Session) : Prop where
  calls : t.calls = s.calls
  metrics : t.metrics = s.metrics
  clock : t.clock = s.clock
  toolchain : t.toolchain = s.toolchain

namespace AlikeButStore

variable {s t : Session} (h : AlikeButStore s t)

include h

lemma callsOf (c : Collaborator) : t.callsOf c = s.callsOf c := by rw [Session.callsOf, h.calls]; rfl

lemma note (c : Call) : AlikeButStore (s.after (note c)) (t.after (note c)) := by
  rw [after_note, after_note]
  exact { h with calls := congrArg (· ++ [c]) h.calls }

lemma count (f : Metrics → Metrics) : AlikeButStore (s.after (count f)) (t.after (count f)) := by
  rw [after_count, after_count]
  exact { h with metrics := congrArg f h.metrics }

end AlikeButStore

end Session

namespace Repair

open Session

variable {w : Workshop} {r : Request} {given : String} {s t : Session}

lemma repeats_alikeButStore (w : Workshop) : Repeats w AlikeButStore where
  note := by
    intro c _ s t h
    refine ⟨?_, h.note c⟩
    rw [answer_note, answer_note, h.callsOf]
    exact w.sameAnswers_refl _ _
  count f _ := fun _ _ h => ⟨rfl, h.count f⟩
  start := by
    refine .bind_eq (.modify fun _ _ h => ?_) fun _ => .bind .get fun s t h => ?_
    · exact { h with toolchain := congrArg (·.ensure w.tools.start) h.toolchain }
    · rw [h.toolchain]
      exact .pure rfl

/-! ### The middle of a repair -/

/-- What is done between the reading of the memory and the writing of the outcome. -/
def mend (w : Workshop) (r : Request) (given : String) (loaded : List String) : Run Outcome := do
  let initial ← checkText w r.filename given false
  let start : Progress := { current := initial, memory := .ofList (loaded ++ r.memory) }
  let p ← passes w r.filename (passBudget w r) (passBudget w r) start
  let v ← conclude w r given initial p
  return outcomeOf p v

variable (w r given s) in
/-- It is what an accepted request comes to. -/
lemma outcome_eq_mend : outcomeOf (loopEnd w r given s) (verdict w r given s) =
    (firstSession w r s).answer
      (mend w r given ((s.after (resolveSource w r)).answer (opening w r))) := by
  unfold mend verdict loopEnd loopEndSession loopStartSession loopStart firstCheck firstSession
    Check.result
  simp only [answer_bind, answer_pure]

lemma steady_mend {R : Session → Session → Prop} (h : Repeats w R) (loaded : List String) :
    Steady R (mend w r given loaded) :=
  .bind_eq (steady_checkText h.checks _ _ _) fun initial => .bind_eq (steady_passes h _ _ _ _) fun p =>
    .bind_eq (steady_conclude h p r given initial) fun _ => .pure rfl

/-! ### What is attempted -/

/-- The writes that keep an outcome; nothing is kept of a refused request. -/
def writesOf (key : FileKey) : Except Fault Outcome → List Call
  | .ok o => [.store (.upsertFile o.fixedCode) key, .store (.saveMemory o.memory) key,
      .store (.appendAudit (auditOf key o)) key]
  | .error _ => []

/-- On the way from `s` to `t` the writes that keep this answer have been attempted, at the end, and no
other before them. -/
def Attempted (key : FileKey) (x : Except Fault Outcome) (s t : Session) : Prop :=
  ∃ l, t.calls = s.calls ++ l ++ writesOf key x ∧ ∀ c ∈ l, ¬ c.Writes

lemma calls_callStore (fails : StoreFailures) (q : StoreRequest) (key : FileKey) :
    (s.after (callStore fails q key)).calls = s.calls ++ [.store q key] := by
  rw [callStore, after_bind, after_note, after_pure]

lemma calls_changeStore (fails : StoreFailures) (q : StoreRequest) (key : FileKey) :
    (s.after (changeStore fails q key)).calls = s.calls ++ [.store q key] := by
  rw [changeStore, after_bind, ← calls_callStore fails]
  split
  · rw [after_modify]
  · rw [after_pure]

lemma calls_persist (fails : StoreFailures) (key : FileKey) (o : Outcome) :
    (s.after (persist fails key o)).calls = s.calls ++ writesOf key (.ok o) := by
  unfold persist
  rw [after_bind, after_bind, calls_changeStore, calls_changeStore, calls_changeStore,
    List.append_assoc, List.append_assoc]
  rfl

variable (w r given s) in
/-- Nothing is written until the outcome is settled. -/
lemma calls_verdictSession :
    ∃ l, (verdictSession w r given s).calls = s.calls ++ l ∧ ∀ c ∈ l, ¬ c.Writes := by
  obtain ⟨l, hl, hlw⟩ := (makes_resolveSource w r s).calls
  obtain ⟨l', hl', hlw'⟩ := (makes_opening w r (s.after (resolveSource w r))).calls
  obtain ⟨m, hm, hmw⟩ := (spares_course w r given s).calls
  refine ⟨l ++ l' ++ m, ?_, fun c hc => ?_⟩
  · rw [hm, firstSession, hl', hl]
    simp only [List.append_assoc]
  · rcases List.mem_append.1 hc with hc | hc
    · exact ((List.mem_append.1 hc).elim (hlw c) (hlw' c)).not_writes
    · exact fun h => hmw c hc h.ofStore

lemma attempted_repair {fails : StoreFailures} {p : String} (hstore : w.store = some fails)
    (hproject : r.project = some p) :
    Attempted ⟨p, r.filename⟩ (s.answer (repair w r)) s (s.after (repair w r)) := by
  cases hanswer : s.answer (repair w r) with
  | error e =>
    rcases after_repair_of_error hanswer with h | h
    · exact ⟨[], by rw [h]; simp [writesOf], by simp⟩
    · obtain ⟨l, hl, hlw⟩ := (makes_resolveSource w r s).calls
      exact ⟨l, by rw [h, hl]; simp [writesOf], fun c hc => (hlw c hc).not_writes⟩
  | ok o =>
    obtain ⟨given, hacc⟩ := accepted_of_ok hanswer
    obtain ⟨ho, hafter⟩ := hacc.repair
    obtain rfl := Except.ok.inj (hanswer.symm.trans ho)
    obtain ⟨l, hl, hlw⟩ := calls_verdictSession w r given s
    refine ⟨l, ?_, hlw⟩
    rw [hafter, keep, keptAt, hstore, hproject, ← hl]
    exact calls_persist fails _ _

/-! ### What is answered -/

/-- The workshop with a store that fails so. -/
def Workshop.storing (w : Workshop) (fails : StoreFailures) : Workshop :=
  { w with store := some fails }

/-- The two stores fail in the same calls of this kind. -/
def FailAlike (what : StoreCall) (fails fails' : StoreFailures) : Prop :=
  ∀ n key, fails' n what key = fails n what key

section Storing

variable {fails fails' : StoreFailures} {key : FileKey}

lemma callStore_congr {q : StoreRequest} (h : FailAlike q.call fails fails') (key : FileKey) :
    callStore fails' q key = callStore fails q key :=
  bind_congr fun n => by rw [h n key]

/-- Sessions that differ in the store, but not in what it holds of a file. -/
def AlikeButMemory (key : FileKey) (s t : Session) : Prop :=
  AlikeButStore s t ∧ s.store.file? key = t.store.file? key

lemma coupled_callStore {q : StoreRequest} (h : FailAlike q.call fails fails') :
    Coupled (AlikeButMemory key) Eq (callStore fails q key) (callStore fails' q key) := by
  intro s t hst
  unfold callStore
  simp only [answer_bind, answer_note, answer_pure, after_bind, after_pure, hst.1.callsOf]
  exact ⟨(h _ _).symm, hst.1.note _, by simpa using hst.2⟩

lemma resolveSource_storing {p : String} (hproject : r.project = some p)
    (h : FailAlike .readFile fails fails') :
    resolveSource (w.storing fails') r = resolveSource (w.storing fails) r := by
  have hcall : Coupled Eq Eq (callStore fails .readFile ⟨p, r.filename⟩)
      (callStore fails' .readFile ⟨p, r.filename⟩) := by
    rw [callStore_congr (q := .readFile) h]
    exact .refl _
  have hstore : ∀ f : StoreFailures, (w.storing f).store = some f := fun _ => rfl
  have hsame := coupled_resolveSource r hproject rfl (hstore fails) (hstore fails') hcall
    fun s t hst => hst ▸ rfl
  exact run_ext fun s => ⟨(hsame s s rfl).1.symm, (hsame s s rfl).2.symm⟩

/-- A memory that cannot be read is empty. -/
lemma loaded_eq_nil (h : (loadFault? fails key s).isSome ∨ s.store.memory key = []) :
    s.answer (loadMemory (some (fails, key))) = [] := by
  rw [answer_loadMemory]
  rcases h with h | h
  · rw [if_neg (by cases hf : loadFault? fails key s <;> simp_all)]
  · rw [h, ite_self]

lemma after_loadMemory :
    s.after (loadMemory (some (fails, key))) = s.after (note (.store .loadMemory key)) := by
  unfold loadMemory callStore
  simp only [after_bind, answer_bind, answer_pure, after_pure]
  split
  · exact after_pure _ _
  · rw [after_bind, after_pure, after_get]

lemma answer_opening : s.answer (opening w r) = s.answer (loadMemory (keptAt w r)) := by
  rw [opening, answer_bind, after_count]
  cases keptAt w r with
  | none => rw [loadMemory, answer_pure, answer_pure]
  | some k =>
    rw [answer_loadMemory, answer_loadMemory]
    rfl

lemma mend_storing : mend (w.storing fails) r given = mend w r given := by
  have hpasses : ∀ n p, passes (w.storing fails) r.filename (passBudget w r) n p =
      passes w r.filename (passBudget w r) n p := by
    intro n
    induction n with
    | zero => exact fun p => rfl
    | succ n ih =>
      intro p
      rw [passes, passes]
      split
      · rfl
      · exact bind_congr ih
  funext loaded
  exact bind_congr fun initial => congrArg (· >>= _) (hpasses _ _)

/-- What is answered depends on how a store is read. -/
lemma answer_repair_storing {p : String} (hproject : r.project = some p)
    (hread : FailAlike .readFile fails fails') (hst : AlikeButMemory ⟨p, r.filename⟩ s t)
    (hload : (s.after (resolveSource (w.storing fails) r)).answer
        (loadMemory (some (fails, ⟨p, r.filename⟩))) =
      (t.after (resolveSource (w.storing fails') r)).answer
        (loadMemory (some (fails', ⟨p, r.filename⟩)))) :
    s.answer (repair (w.storing fails) r) = t.answer (repair (w.storing fails') r) := by
  have hstore : ∀ f : StoreFailures, (w.storing f).store = some f := fun _ => rfl
  obtain ⟨hsource, halike, -⟩ := coupled_resolveSource r hproject rfl (hstore fails) (hstore fails')
    (coupled_callStore (q := .readFile) hread) (fun _ _ h => h.2) s t hst
  have hkept : ∀ f, keptAt (w.storing f) r = some (f, ⟨p, r.filename⟩) := by
    intro f
    rw [keptAt, hproject]
    rfl
  by_cases hb : Reply.blank r.filename = true
  · unfold repair
    rw [if_pos hb, if_pos hb, answer_pure, answer_pure]
  · cases hs : s.answer (resolveSource (w.storing fails) r) with
    | error e =>
      unfold repair
      rw [if_neg hb, if_neg hb, answer_bind, answer_bind, ← hsource, hs, answer_pure, answer_pure]
    | ok given =>
      have hs' := hsource.symm.trans hs
      have hnamed : Reply.blank r.filename = false := by simpa using hb
      rw [(Accepted.repair ⟨hnamed, hs⟩).1, (Accepted.repair ⟨hnamed, hs'⟩).1, outcome_eq_mend,
        outcome_eq_mend, mend_storing, mend_storing, answer_opening, answer_opening, hkept, hkept, ← hload]
      refine congrArg Except.ok (steady_mend (repeats_alikeButStore w) _ _ _ ?_).1
      unfold firstSession opening
      rw [after_bind, after_bind, hkept, hkept, after_loadMemory, after_loadMemory]
      exact (halike.count _).note _

end Storing

/-- A store that only reads files. -/
def readOnly : StoreFailures :=
  fun _ call _ => if call = .readFile then none else some (.backend "connection reset")

/-- What is remembered of the answer, if it is an outcome. -/
def rememberedIn (x : Except Fault Outcome) : Option (List String) := x.toOption.map (·.memory)

end Repair

end Mender
