import Mender.Proofs.Repair.Course
import Mender.Proofs.Repair.Checks

/-!
What a repair does to the memory that is kept of its file.

A repair reads the memory, adds the notes of the request and those of its passes, and writes the
result back. The writing replaces what was kept, so it matters whether the reading went well: if it
failed, the repair has gone on as if nothing had been kept.
-/

namespace Mender

/-! ### The newest entries -/

lemma bound_eq_self {l : List String} (h : l.length ≤ memoryLimit) : bound l = l := by
  rw [bound, Nat.sub_eq_zero_of_le h, List.drop_zero]

lemma length_bound (l : List String) : (bound l).length = min l.length memoryLimit := by
  rw [bound, List.length_drop]
  omega

/-- Entries in front of enough newer ones do not matter. -/
lemma bound_append_of_le (l : List String) {m : List String} (h : memoryLimit ≤ m.length) :
    bound (l ++ m) = bound m := by
  have hlen : l.length + m.length - memoryLimit = l.length + (m.length - memoryLimit) := by omega
  rw [bound, bound, List.length_append, hlen, List.drop_length_add_append]

/-- What was dropped once does not come back. -/
lemma bound_bound_append (l m : List String) : bound (bound l ++ m) = bound (l ++ m) := by
  rcases Nat.le_total l.length memoryLimit with h | h
  · rw [bound_eq_self h]
  · have hlong : memoryLimit ≤ (bound l ++ m).length := by
      rw [List.length_append, length_bound, Nat.min_eq_right h]
      omega
    have hsplit : l.take (l.length - memoryLimit) ++ bound l = l := List.take_append_drop _ _
    rw [← bound_append_of_le (l.take (l.length - memoryLimit)) hlong, ← List.append_assoc, hsplit]

lemma bound_bound (l : List String) : bound (bound l) = bound l := by
  simpa using bound_bound_append l []

/-- Nothing is dropped of what may be kept as a whole. -/
lemma length_le_of_bound {l : List String} (h : bound l = l) : l.length ≤ memoryLimit := by
  rw [← h, length_bound]
  exact Nat.min_le_right _ _

namespace Repair

open Session

/-! ### Notes of the passes -/

lemma Memory.entries_push {m : Memory} (h : m.entries.length ≤ memoryLimit) (entry : String) :
    (m.push entry).entries = bound (m.entries ++ [entry]) := by
  have hlength : (m.entries ++ [entry]).length = m.entries.length + 1 := List.length_append
  unfold Memory.push bound
  dsimp only
  split
  · have hone : (m.entries ++ [entry]).length - memoryLimit = 1 := by omega
    rw [hone, List.drop_one]
  · have hzero : (m.entries ++ [entry]).length - memoryLimit = 0 := by omega
    rw [hzero, List.drop_zero]

/-- The second memory has the notes of the first and then new ones, `n` at most, as far as so many
are kept. -/
def Memory.Gains (n : Nat) (m m' : Memory) : Prop :=
  ∃ notes, notes.length ≤ n ∧ m'.entries = bound (m.entries ++ notes)

namespace Memory.Gains

variable {m m' m'' : Memory} {n n' : Nat}

lemma refl (h : bound m.entries = m.entries) : Gains 0 m m :=
  ⟨[], Nat.le_refl _, by rw [List.append_nil, h]⟩

lemma mono (h : Gains n m m') (hn : n ≤ n') : Gains n' m m' := by
  obtain ⟨notes, hlen, hm⟩ := h
  exact ⟨notes, Nat.le_trans hlen hn, hm⟩

lemma trans (h : Gains n m m') (h' : Gains n' m' m'') : Gains (n + n') m m'' := by
  obtain ⟨notes, hlen, hm⟩ := h
  obtain ⟨more, hlen', hm'⟩ := h'
  refine ⟨notes ++ more, ?_, ?_⟩
  · rw [List.length_append]
    exact Nat.add_le_add hlen hlen'
  · rw [hm', hm, bound_bound_append, List.append_assoc]

lemma bounded (h : Gains n m m') : bound m'.entries = m'.entries := by
  obtain ⟨notes, -, hm⟩ := h
  rw [hm, bound_bound]

lemma remember (h : bound m.entries = m.entries) (note : String) : Gains 1 m (m.remember note) := by
  unfold Memory.remember
  dsimp only
  split
  · exact (refl h).mono (Nat.zero_le 1)
  · exact ⟨[_], Nat.le_refl _, entries_push (length_le_of_bound h) _⟩

end Memory.Gains

variable (w : Workshop) (file : String) (budget : Nat)

/-- Only a pass that changes the text leaves a note. -/
lemma gains_tryPass {p : Progress} (hp : bound p.memory.entries = p.memory.entries)
    (q : Reply.Proposal) (s : Session) :
    p.memory.Gains (if differs (cleanedUp q.code) p.current.text then 1 else 0)
      (s.answer (tryPass w file p q)).memory := by
  have hnone : p.memory.Gains 0 p.memory := .refl hp
  unfold tryPass
  by_cases h : differs (cleanedUp q.code) p.current.text = true
  · cases hnote : noteOf q.summary (shown w p.current) with
    | none => simpa [h] using hnone.mono (Nat.zero_le 1)
    | some note => simpa [h] using Memory.Gains.remember hp note
  · cases hnote : noteOf q.summary (shown w p.current) <;> simpa [h] using hnone

lemma gains_onePass {p : Progress} (hp : bound p.memory.entries = p.memory.entries) (s : Session) :
    ∃ x, (s.answer (onePass w file budget p)).records = p.records ++ [x] ∧
      p.memory.Gains (if x.changed then 1 else 0) (s.answer (onePass w file budget p)).memory := by
  rw [answer_onePass]
  cases tried? w file budget p s with
  | none =>
    exact ⟨⟨p.records.length + 1, p.current.errors, p.current.errors, false, none⟩, rfl, .refl hp⟩
  | some q =>
    refine ⟨_, records_tryPass w file p q _, ?_⟩
    generalize hx : recordOf p q _ = x
    have hchanged : x.changed = differs (cleanedUp q.code) p.current.text := by rw [← hx, recordOf]
    rw [hchanged]
    exact gains_tryPass w file hp q _

/-- **The memory of the passes** is what they began with and the notes of those that changed the
text. -/
theorem gains_passes (n : Nat) {p : Progress} (hp : bound p.memory.entries = p.memory.entries)
    (s : Session) :
    ∃ rs, (s.answer (passes w file budget n p)).records = p.records ++ rs ∧
      p.memory.Gains (rs.countP (·.changed)) (s.answer (passes w file budget n p)).memory := by
  induction n generalizing p s with
  | zero => exact ⟨[], by simp [passes], by simpa [passes] using Memory.Gains.refl hp⟩
  | succ n ih =>
    by_cases h : p.current.errors = 0
    · rw [(passes_of_clean w file budget h (n + 1) s).1]
      exact ⟨[], by simp, by simpa using Memory.Gains.refl hp⟩
    · obtain ⟨x, hx, hgain⟩ := gains_onePass w file budget hp s
      obtain ⟨rs, hrs, hmore⟩ := ih hgain.bounded (s.after (onePass w file budget p))
      rw [answer_passes_succ w file budget h]
      refine ⟨x :: rs, by rw [hrs, hx, List.append_assoc, List.singleton_append], ?_⟩
      rw [List.countP_cons, Nat.add_comm]
      exact hgain.trans hmore

/-! ### What goes on inside -/

lemma store_of_beyondTools {s t : Session} (h : t.beyondTools = s.beyondTools) :
    t.store = s.store := by
  unfold beyondTools at h
  exact (Prod.mk.inj (Prod.mk.inj h).2).1

lemma spares_onePass (p : Progress) : Spares (onePass w file budget p) :=
  makes_of_steady fun s₀ => steady_onePass (repeats_since w s₀) file budget p

lemma spares_passes (n : Nat) (p : Progress) : Spares (passes w file budget n p) :=
  makes_of_steady fun s₀ => steady_passes (repeats_since w s₀) file budget p n

lemma spares_conclude (r : Request) (given : String) (c : Checked) (p : Progress) :
    Spares (conclude w r given c p) :=
  makes_of_steady fun s₀ => steady_conclude (repeats_since w s₀) p r given c

/-- Between its beginning and its end a repair leaves the store alone. -/
lemma spares_course (r : Request) (given : String) (s : Session) :
    Extends (¬ Call.OfStore ·) lasting (firstSession w r s) (verdictSession w r given s) :=
  ((spares_of_tools (makes_checkText w r.filename given false) (firstSession w r s)).trans
    (spares_passes w r.filename (passBudget w r) (passBudget w r) (loopStart w r given s)
      (loopStartSession w r given s))).trans
    (spares_conclude w r given ((firstCheck w r given s).result w r.filename)
      (loopEnd w r given s) (loopEndSession w r given s))

/-! ### Reading and writing back -/

section

variable (fails : StoreFailures) (key : FileKey) (s : Session)

/-- How a reading of the memory would fail in a session, if it does. -/
def loadFault? : Option StoreFault := fails (s.callsOf .store + 1) .loadMemory key

lemma answer_loadMemory :
    s.answer (loadMemory (some (fails, key))) =
      if (loadFault? fails key s).isNone then s.store.memory key else [] := by
  unfold loadMemory callStore loadFault?
  simp only [answer_bind, after_bind, answer_note, after_note, answer_pure, after_pure,
    Call.collaborator, StoreRequest.call]
  cases fails (s.callsOf .store + 1) .loadMemory key <;> simp

/-- Some call of this kind fails. -/
def Fails (what : StoreCall) : Prop := ∃ n, (fails n what key).isSome

/-- A change is made unless its call fails. -/
lemma store_changeStore (q : StoreRequest) :
    (s.after (changeStore fails q key)).store = s.store ∧ Fails fails key q.call ∨
      (s.after (changeStore fails q key)).store = q.perform key s.store := by
  unfold changeStore
  have hcall : (s.after (callStore fails q key)).store = s.store :=
    store_of_beyondTools (makes_callStore (p := Call.OfStore) fails rfl s).same
  have hanswer : s.answer (callStore fails q key) = fails (s.callsOf .store + 1) q.call key := by
    simp [callStore, Call.collaborator]
  rw [after_bind, hanswer]
  cases hfail : fails (s.callsOf .store + 1) q.call key with
  | none =>
    right
    rw [if_pos (by simp), after_modify]
    exact congrArg (q.perform key) hcall
  | some e =>
    left
    rw [if_neg (by simp), after_pure]
    exact ⟨hcall, _, by rw [hfail, Option.isSome_some]⟩

@[simp] lemma memory_putFile (t : Store) (k : FileKey) (text : String) :
    (t.putFile k text).memory k = t.memory k := rfl

@[simp] lemma memory_addAudit (t : Store) (a : Audit) : (t.addAudit a).memory key = t.memory key := rfl

@[simp] lemma memory_putMemory (t : Store) (notes : List String) :
    (t.putMemory key notes).memory key = bound notes := by
  simp [Store.putMemory, Store.memory, valueAt]

/-- The memory is replaced by that of the outcome, unless the call for it fails. -/
lemma memory_persist (o : Outcome) :
    (s.after (persist fails key o)).store.memory key = s.store.memory key ∧
        Fails fails key .saveMemory ∨
      (s.after (persist fails key o)).store.memory key = bound o.memory := by
  unfold persist
  simp only [after_bind]
  generalize hfile : s.after (changeStore fails (.upsertFile o.fixedCode) key) = t
  generalize hmem : t.after (changeStore fails (.saveMemory o.memory) key) = u
  have htext : t.store.memory key = s.store.memory key := by
    rcases hfile ▸ store_changeStore fails key s _ with ⟨h, -⟩ | h
    · rw [h]
    · rw [h, StoreRequest.perform, memory_putFile]
  have hnotes : u.store.memory key = t.store.memory key ∧ Fails fails key .saveMemory ∨
      u.store.memory key = bound o.memory := by
    rcases hmem ▸ store_changeStore fails key t _ with ⟨h, hfail⟩ | h
    · exact .inl ⟨congrArg (·.memory key) h, hfail⟩
    · exact .inr (by rw [h, StoreRequest.perform, memory_putMemory])
  rw [← htext]
  rcases store_changeStore fails key u (.appendAudit (auditOf key o)) with ⟨h, -⟩ | h
  · rw [h]
    exact hnotes
  · rw [h, StoreRequest.perform, memory_addAudit]
    exact hnotes

end

/-! ### A whole repair -/

variable {w} {r : Request} {given : String} {s : Session}

/-- Nothing is written before the end of a repair. -/
lemma store_verdictSession : (verdictSession w r given s).store = s.store := by
  have hsource := store_of_beyondTools (makes_resolveSource w r s).same
  have hloaded := store_of_beyondTools (makes_loadMemory (keptAt w r)
    ((s.after (resolveSource w r)).after
      (Session.count fun m => { m with repairsStarted := m.repairsStarted + 1 }))).same
  calc (verdictSession w r given s).store
      = (firstSession w r s).store := congrArg Prod.fst (spares_course w r given s).same
    _ = (s.after (resolveSource w r)).store := by
      rw [firstSession, opening, after_bind, hloaded, after_count]
    _ = s.store := hsource

/-- A given text is repaired without the store, if the request names no project. -/
lemma repair_spares_store (hproject : r.project = none) (hcode : r.code = some given)
    (hnamed : ¬ Reply.blank r.filename = true) :
    Extends (¬ Call.OfStore ·) Session.store s (s.after (repair w r)) ∧
      (s.after (repair w r)).metrics.repairsStarted = s.metrics.repairsStarted + 1 := by
  have hsource : resolveSource w r = pure (.ok given) := by rw [resolveSource, hcode]
  have hkept : keptAt w r = none := by rw [keptAt, hproject]; cases w.store <;> rfl
  have hacc : Accepted w r given s := ⟨by simpa using hnamed, by rw [hsource, answer_pure]⟩
  have hfirst : firstSession w r s =
      { s with metrics := { s.metrics with repairsStarted := s.metrics.repairsStarted + 1 } } := by
    rw [firstSession, hsource, after_pure, opening, after_bind, hkept, loadMemory, after_pure,
      after_count]
  have hafter : s.after (repair w r) = verdictSession w r given s := by
    rw [hacc.repair.2, keep, hkept, after_pure]
  have hcourse := spares_course w r given s
  obtain ⟨hstore, hstarted⟩ := Prod.mk.inj hcourse.same
  rw [hafter]
  rw [hfirst] at hcourse hstore hstarted
  exact ⟨⟨hcourse.calls, hstore⟩, hstarted⟩

variable (given) in
/-- What an outcome remembers of the memory that was read, which is empty if the reading failed. -/
lemma memory_outcome (read : List String)
    (hread : (s.after (resolveSource w r)).answer (opening w r) = read) :
    ∃ notes, notes.length ≤ (loopEnd w r given s).records.countP (·.changed) ∧
      (loopEnd w r given s).memory.entries = bound (read ++ r.memory ++ notes) := by
  have hstart : (loopStart w r given s).memory.entries = bound (read ++ r.memory) := by
    rw [loopStart, hread, Memory.ofList]
  obtain ⟨rs, hrs, notes, hlen, hnotes⟩ := gains_passes w r.filename (passBudget w r) (passBudget w r)
    (p := loopStart w r given s) (by rw [hstart, bound_bound]) (loopStartSession w r given s)
  refine ⟨notes, ?_, ?_⟩
  · rw [loopEnd, hrs, loopStart, List.nil_append]
    exact hlen
  · rw [loopEnd, hnotes, hstart, bound_bound_append]

/-- A refused request leaves the store alone. -/
lemma store_repair_of_error {e : Fault} (h : s.answer (repair w r) = .error e) :
    (s.after (repair w r)).store = s.store := by
  rcases after_repair_of_error h with h | h
  · rw [h]
  · rw [h]
    exact store_of_beyondTools (makes_resolveSource w r s).same

/-- **The memory of a file** after a repair is as it was, if the request was refused or the writing
failed, or else the newest entries of what was read of it, the notes of the request and those of the
passes. If it could not be read, what was kept is not among them. -/
theorem memory_after_repair {fails : StoreFailures} {p : String} (hstore : w.store = some fails)
    (hproject : r.project = some p) :
    let key : FileKey := ⟨p, r.filename⟩
    let kept := s.store.memory key
    let left := (s.after (repair w r)).store.memory key
    let fault := loadFault? fails key (s.after (resolveSource w r))
    (left = kept ∧
        ((∃ e, s.answer (repair w r) = .error e) ∨ Fails fails key .saveMemory)) ∨
      ∃ o notes, s.answer (repair w r) = .ok o ∧
      notes.length ≤ o.records.countP (·.changed) ∧
      left = bound ((if fault.isNone then kept else []) ++ r.memory ++ notes) := by
  intro key kept left fault
  cases hanswer : s.answer (repair w r) with
  | error e => exact .inl ⟨congrArg (·.memory key) (store_repair_of_error hanswer), .inl ⟨e, rfl⟩⟩
  | ok o =>
    obtain ⟨given, hacc⟩ := accepted_of_ok hanswer
    obtain ⟨ho, hafter⟩ := hacc.repair
    have hkept : keptAt w r = some (fails, key) := by rw [keptAt, hstore, hproject]
    have hsource := store_of_beyondTools (makes_resolveSource w r s).same
    have hread : (s.after (resolveSource w r)).answer (opening w r) =
        if fault.isNone then kept else [] := by
      rw [opening, answer_bind, hkept, answer_loadMemory, after_count]
      exact hsource ▸ rfl
    obtain ⟨notes, hlen, hnotes⟩ := memory_outcome given _ hread
    obtain rfl := Except.ok.inj (hanswer.symm.trans ho)
    have hwritten := memory_persist fails key (verdictSession w r given s)
      (outcomeOf (loopEnd w r given s) (verdict w r given s))
    rw [store_verdictSession] at hwritten
    have hleft : left = ((verdictSession w r given s).after (persist fails key
        (outcomeOf (loopEnd w r given s) (verdict w r given s)))).store.memory key := by
      rw [show left = (s.after (repair w r)).store.memory key from rfl, hafter, keep, hkept]
    rw [← hleft] at hwritten
    refine hwritten.imp (fun h => ⟨h.1, .inr h.2⟩) fun h => ⟨_, notes, rfl, hlen, ?_⟩
    rw [h, outcomeOf, hnotes, bound_bound]

/-- A store whose calls of one kind fail. -/
def failing (what : StoreCall) : StoreFailures :=
  fun _ call _ => if call = what then some (.backend "connection reset") else none

def keptSample (what : StoreCall) : Workshop := { sample with store := some (failing what) }

def keptRequest : Request := { sampleRequest with project := some "p", memory := ["13"] }

def noteKey : FileKey := ⟨"p", "note.txt"⟩

/-- The notes "1" to "12" are kept of the sample's file. -/
def notedSession : Session where
  store := Store.putMemory noteKey ((List.range' 1 12).map toString) {}

def memoryLeft (what : StoreCall) : List String :=
  (notedSession.after (repair (keptSample what) keptRequest)).store.memory noteKey

-- the text cannot be written, but the memory is, and its two oldest notes make room
theorem memory_after_repair_noted :
    (keptSample .upsertFile).store = some (failing .upsertFile) ∧ keptRequest.project = some "p" ∧
      memoryLeft .upsertFile = (List.range' 3 11).map toString ++ ["fixed: bad"] ∧
      ∃ o notes, notedSession.answer (repair (keptSample .upsertFile) keptRequest) = .ok o ∧
        notes.length ≤ o.records.countP (·.changed) ∧
        memoryLeft .upsertFile = bound ((List.range' 1 12).map toString ++ ["13"] ++ notes) := by
  have hstore : (keptSample .upsertFile).store = some (failing .upsertFile) := rfl
  have hproject : keptRequest.project = some "p" := rfl
  have hleft : memoryLeft .upsertFile = (List.range' 3 11).map toString ++ ["fixed: bad"] := by
    decide +kernel
  have hkept : notedSession.store.memory noteKey = (List.range' 1 12).map toString := by
    decide +kernel
  refine ⟨hstore, hproject, hleft, ?_⟩
  rcases memory_after_repair (s := notedSession) hstore hproject with
    ⟨h, -⟩ | ⟨o, notes, ho, hlen, h⟩
  · have hsame : memoryLeft .upsertFile = notedSession.store.memory noteKey := h
    rw [hleft, hkept] at hsame
    exact absurd hsame (by decide +kernel)
  · exact ⟨o, notes, ho, hlen, hkept ▸ h⟩

/-- What was kept may be lost: it could not be read, and the memory was written all the same. -/
theorem unread_memory_lost :
    ¬ ∀ (w : Workshop) (r : Request) (s : Session) (fails : StoreFailures) (p : String),
      w.store = some fails → r.project = some p →
        let key : FileKey := ⟨p, r.filename⟩
        let left := (s.after (repair w r)).store.memory key
        left = s.store.memory key ∨ ∃ added, left = bound (s.store.memory key ++ added) := by
  intro h
  have hleft : memoryLeft .loadMemory = ["13", "fixed: bad"] := by decide +kernel
  have hkept : notedSession.store.memory noteKey = (List.range' 1 12).map toString := by
    decide +kernel
  rcases h (keptSample .loadMemory) keptRequest notedSession (failing .loadMemory) "p" rfl rfl
    with hsame | ⟨added, hbound⟩
  · have hlost : memoryLeft .loadMemory = notedSession.store.memory noteKey := hsame
    rw [hleft, hkept] at hlost
    exact absurd hlost (by decide +kernel)
  · have hlost : memoryLeft .loadMemory = bound (notedSession.store.memory noteKey ++ added) := hbound
    have hlen := congrArg List.length hlost
    rw [hleft, hkept, length_bound, List.length_append, List.length_map, List.length_range'] at hlen
    simp [memoryLimit] at hlen

end Repair

end Mender
