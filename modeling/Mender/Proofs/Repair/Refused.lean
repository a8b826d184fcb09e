import Mender.Proofs.Repair.Remembered
import Mender.Proofs.Text.Blank

/-!
When a repair is refused.

A request is refused for what it says, for want of a store, or because its file cannot be read. All this
is settled before anything is counted or written, and the one call that may have been made is the reading
of the file. Behind that point nothing stops a repair: whatever the collaborators answer, there is an
outcome.
-/

namespace Mender.Repair

open Session Text

variable (w : Workshop) (r : Request) (s : Session)

/-- The request names a file. -/
def Named : Prop := ∃ c ∈ r.filename.toList, isBlank c = false

/-- The file whose text is to be read from the store. -/
structure ToRead (fails : StoreFailures) (key : FileKey) : Prop where
  named : Named r
  code : r.code = none
  store : w.store = some fails
  project : r.project = some key.project
  file : r.filename = key.file

/-- Why a request is refused in a session. -/
inductive Refused : Fault → Prop
  | unnamed (h : ¬ Named r) : Refused (.invalidRequest "filename is required")
  | sourceless (h : Named r) (hcode : r.code = none) (hproject : r.project = none) :
    Refused (.invalidRequest "either code or projectId is required")
  | storeless (h : Named r) (hcode : r.code = none) {p : String} (hproject : r.project = some p)
      (hstore : w.store = none) :
    Refused (.invalidRequest "projectId given but no project store is configured")
  | unreadable {fails : StoreFailures} {key : FileKey} (h : ToRead w r fails key) {f : StoreFault}
      (hfault : fails (s.callsOf .store + 1) .readFile key = some f) : Refused (.storage f)
  | missing {fails : StoreFailures} {key : FileKey} (h : ToRead w r fails key)
      (hread : fails (s.callsOf .store + 1) .readFile key = none) (hfile : s.store.file? key = none) :
    Refused (.fileNotFound key.project key.file)

/-! ### The source -/

variable {w r s}

lemma blank_iff : Reply.blank r.filename = true ↔ ¬ Named r := by
  rw [Reply.blank, List.isEmpty_iff, trim_eq_nil_iff, Named]
  simp

/-- What a session is after one more call and nothing else. -/
def calling (c : Call) (s : Session) : Session := { s with calls := s.calls ++ [c] }

/-- How the reading of a file ends. -/
lemma resolveSource_of_toRead {fails : StoreFailures} {key : FileKey} (h : ToRead w r fails key) :
    s.after (resolveSource w r) = calling (.store .readFile key) s ∧
      s.answer (resolveSource w r) = match fails (s.callsOf .store + 1) .readFile key with
        | some f => .error (.storage f)
        | none => match s.store.file? key with
          | some record => .ok record.content
          | none => .error (.fileNotFound key.project key.file) := by
  have hkey : (⟨key.project, r.filename⟩ : FileKey) = key := by rw [h.file]
  have hcall : s.after (callStore fails .readFile key) = calling (.store .readFile key) s := by
    rw [callStore, after_bind, after_note, after_pure, calling]
  have hfault : s.answer (callStore fails .readFile key) = fails (s.callsOf .store + 1) .readFile key := by
    simp [callStore, Call.collaborator, StoreRequest.call]
  unfold resolveSource
  simp only [h.code, h.store, h.project, h.file]
  rw [after_bind, answer_bind, hcall, hfault]
  cases fails (s.callsOf .store + 1) .readFile key with
  | some f => exact ⟨after_pure _ _, answer_pure _ _⟩
  | none =>
    dsimp only
    rw [after_bind, answer_bind, after_get, answer_get]
    have hstore : (calling (.store .readFile key) s).store = s.store := rfl
    rw [hstore]
    cases s.store.file? key with
    | some record => exact ⟨after_pure _ _, answer_pure _ _⟩
    | none => exact ⟨after_pure _ _, answer_pure _ _⟩

/-- A request that names a file has a text, or one that is to be read, or is refused. -/
lemma source_cases (h : Named r) : (∃ given, r.code = some given) ∨ (r.code = none ∧ r.project = none) ∨
    (r.code = none ∧ (∃ p, r.project = some p) ∧ w.store = none) ∨ ∃ fails key, ToRead w r fails key := by
  cases hcode : r.code with
  | some given => exact .inl ⟨given, rfl⟩
  | none =>
    cases hproject : r.project with
    | none => exact .inr (.inl ⟨rfl, rfl⟩)
    | some p =>
      cases hstore : w.store with
      | none => exact .inr (.inr (.inl ⟨rfl, ⟨p, rfl⟩, rfl⟩))
      | some fails => exact .inr (.inr (.inr ⟨fails, ⟨p, r.filename⟩, h, hcode, hstore, hproject, rfl⟩))

/-- A named request is refused with the fault that its source has. -/
lemma answer_resolveSource_iff (h : Named r) (e : Fault) :
    s.answer (resolveSource w r) = .error e ↔ Refused w r s e := by
  constructor
  · intro he
    rcases source_cases (w := w) h with ⟨given, hcode⟩ | ⟨hcode, hproject⟩ | ⟨hcode, ⟨p, hproject⟩, hstore⟩ |
      ⟨fails, key, hread⟩
    · simp [resolveSource, hcode] at he
    · simp only [resolveSource, hcode, hproject, answer_pure] at he
      cases he
      exact .sourceless h hcode hproject
    · simp only [resolveSource, hcode, hproject, hstore, answer_pure] at he
      cases he
      exact .storeless h hcode hproject hstore
    · rw [(resolveSource_of_toRead hread).2] at he
      cases hfault : fails (s.callsOf .store + 1) .readFile key with
      | some f =>
        rw [hfault] at he
        cases he
        exact .unreadable hread hfault
      | none =>
        cases hfile : s.store.file? key with
        | some record => simp [hfault, hfile] at he
        | none =>
          rw [hfault, hfile] at he
          cases he
          exact .missing hread hfault hfile
  · intro he
    cases he with
    | unnamed hno => exact absurd h hno
    | sourceless _ hcode hproject => simp [resolveSource, hcode, hproject]
    | storeless _ hcode hproject hstore => simp [resolveSource, hcode, hproject, hstore]
    | unreadable hread hfault => rw [(resolveSource_of_toRead hread).2, hfault]
    | missing hread hfault hfile => rw [(resolveSource_of_toRead hread).2, hfault, hfile]

/-- Reading the source makes one call at most. -/
lemma after_resolveSource (h : Named r) : s.after (resolveSource w r) = s ∨
    ∃ p, r.project = some p ∧
      s.after (resolveSource w r) = calling (.store .readFile ⟨p, r.filename⟩) s := by
  rcases source_cases (w := w) h with ⟨given, hcode⟩ | ⟨hcode, hproject⟩ | ⟨hcode, ⟨p, hproject⟩, hstore⟩ |
    ⟨fails, key, hread⟩
  · exact .inl (by rw [resolveSource, hcode, after_pure])
  · exact .inl (by rw [resolveSource, hcode, hproject, after_pure])
  · exact .inl (by rw [resolveSource, hcode, hproject, hstore, after_pure])
  · refine .inr ⟨key.project, hread.project, ?_⟩
    rw [(resolveSource_of_toRead hread).1, hread.file]

/-! ### The whole repair -/

/-- A refusal comes before everything else. -/
lemma answer_repair_iff (e : Fault) : s.answer (repair w r) = .error e ↔ Refused w r s e := by
  by_cases h : Named r
  · rw [← answer_resolveSource_iff h]
    unfold repair
    rw [if_neg (by rw [blank_iff]; exact not_not_intro h), answer_bind]
    cases s.answer (resolveSource w r) with
    | error e' => simp
    | ok given => simp
  · unfold repair
    rw [if_pos (blank_iff.2 h), answer_pure]
    constructor
    · intro he
      cases he
      exact .unnamed h
    · intro he
      cases he with
      | unnamed => rfl
      | sourceless hn | storeless hn => exact absurd hn h
      | unreadable hread | missing hread => exact absurd hread.named h

/-- A repair with an outcome has been counted, once. -/
lemma repairsStarted_of_ok {o : Outcome} (h : s.answer (repair w r) = .ok o) :
    (s.after (repair w r)).metrics.repairsStarted = s.metrics.repairsStarted + 1 := by
  obtain ⟨given, hacc⟩ := accepted_of_ok h
  have hkept := (makes_keep w r (outcomeOf (loopEnd w r given s) (verdict w r given s))
    (verdictSession w r given s)).same
  have hcourse := congrArg Prod.snd (spares_course w r given s).same
  have hloaded := (makes_loadMemory (keptAt w r) ((s.after (resolveSource w r)).after
    (Session.count fun m => { m with repairsStarted := m.repairsStarted + 1 }))).same
  have hsource := metrics_of_beyondTools (makes_resolveSource w r s).same
  calc (s.after (repair w r)).metrics.repairsStarted
      = (verdictSession w r given s).metrics.repairsStarted := by rw [hacc.repair.2, hkept]
    _ = (firstSession w r s).metrics.repairsStarted := hcourse
    _ = (s.after (resolveSource w r)).metrics.repairsStarted + 1 := by
      rw [firstSession, opening, after_bind, metrics_of_beyondTools hloaded, after_count]
    _ = s.metrics.repairsStarted + 1 := by rw [hsource]

/-- A request that is refused changes nothing, but for the one call that reads its file. -/
lemma after_repair_of_refused {e : Fault} (h : Refused w r s e) : s.after (repair w r) = s ∨
    ∃ p, r.project = some p ∧ s.after (repair w r) = calling (.store .readFile ⟨p, r.filename⟩) s := by
  have herror := (answer_repair_iff e).2 h
  by_cases hnamed : Named r
  · rcases after_repair_of_error herror with hafter | hafter
    · exact .inl hafter
    · rw [hafter]
      exact after_resolveSource hnamed
  · refine .inl ?_
    unfold repair
    rw [if_pos (blank_iff.2 hnamed), after_pure]

variable (w r s)

/-- **A repair fails exactly where its request is refused.** Then nothing has been called but the store,
once and to read the file, and nothing has been counted, written or started. In every other case there is
an outcome, whatever the collaborators answer, and the repair has been counted. -/
theorem repair_refused_iff :
    (∀ e, s.answer (repair w r) = .error e ↔ Refused w r s e) ∧
      (∀ e, Refused w r s e → s.after (repair w r) = s ∨ ∃ p, r.project = some p ∧
        s.after (repair w r) = { s with calls := s.calls ++ [.store .readFile ⟨p, r.filename⟩] }) ∧
      ((∀ e, ¬ Refused w r s e) → ∃ o, s.answer (repair w r) = .ok o ∧
        (s.after (repair w r)).metrics.repairsStarted = s.metrics.repairsStarted + 1) := by
  refine ⟨answer_repair_iff, fun e => after_repair_of_refused, fun h => ?_⟩
  cases hanswer : s.answer (repair w r) with
  | error e => exact absurd ((answer_repair_iff e).1 hanswer) (h e)
  | ok o => exact ⟨o, rfl, repairsStarted_of_ok hanswer⟩

-- a file that is missing is asked for once
example : Session.answer {} (repair (keptSample .saveMemory) { filename := "a", project := some "p" }) =
    .error (.fileNotFound "p" "a") := by decide +kernel

end Mender.Repair
