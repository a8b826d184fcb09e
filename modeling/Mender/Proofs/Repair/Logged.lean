import Mathlib.Data.List.TakeDrop
import Mender.Proofs.Repair.Bounds
import Mender.Proofs.Repair.Remembered
import Mender.Proofs.Text.Blank

/-!
The memory of repairs as a log.

Think of a log from which nothing is ever dropped. A memory that is cut whenever it grows too long holds
the newest entries of the log at any time, for the entry that a note is compared with is always among
them. So the memory of a whole repair is the log of its notes, cut once at the end.

A note is compared as it is, but kept with a limited length. So a long note is not taken for a repeat of
itself.
-/

namespace Mender

/-- The newest entry is never dropped. -/
lemma getLast?_bound (l : List String) : (bound l).getLast? = l.getLast? := by
  rw [bound, List.getLast?_drop]
  split
  · next h =>
    have hlength : l.length = 0 := by
      unfold memoryLimit at h
      omega
    rw [List.length_eq_zero_iff.1 hlength, List.getLast?_nil]
  · rfl

namespace Repair

open Session Text

/-! ### Notes that are repeated -/

lemma forall_eq_of_append_singleton {α : Type} {x y : α} {l : List α} (h : l ++ [x] = y :: l) :
    ∀ e ∈ y :: l, e = x := by
  induction l generalizing y with
  | nil =>
    rw [List.nil_append, List.cons.injEq] at h
    simp [h.1]
  | cons z l ih =>
    rw [List.cons_append, List.cons.injEq] at h
    exact List.forall_mem_cons.2 ⟨h.1 ▸ ih h.2 z List.mem_cons_self, ih h.2⟩

namespace Memory

variable (m : Memory) (x : String)

lemma getLast?_push : (m.push x).entries.getLast? = some x := by
  unfold push
  dsimp only
  split
  · next h =>
    rw [List.getLast?_tail, if_neg (by unfold memoryLimit at h; omega), List.getLast?_concat]
  · exact List.getLast?_concat

/-- The same entry is not noticed a second time only where all others have made room for it. -/
lemma push_push_iff : (m.push x).push x = m.push x ↔
    memoryLimit ≤ (m.push x).entries.length ∧ ∀ e ∈ (m.push x).entries, e = x := by
  generalize m.push x = m'
  obtain ⟨es⟩ := m'
  have hlength : (es ++ [x]).length = es.length + 1 := List.length_append
  unfold push
  simp only [Memory.mk.injEq]
  constructor
  · intro h
    split at h
    · next hlong =>
      cases es with
      | nil =>
        unfold memoryLimit at hlong
        simp at hlong
      | cons y es => exact ⟨by omega, forall_eq_of_append_singleton h⟩
    · have := congrArg List.length h
      omega
  · rintro ⟨hlong, hall⟩
    obtain ⟨n, rfl⟩ : ∃ n, es = List.replicate n x := ⟨es.length, List.eq_replicate_iff.2 ⟨rfl, hall⟩⟩
    rw [if_pos (by omega), ← List.replicate_succ', List.replicate_succ, List.tail_cons]

end Memory

lemma collapse_congr {a b : String} (h : words a.toList = words b.toList) :
    collapse b.toList = collapse a.toList := by
  rw [collapse, collapse, h]

/-- **A note that is given twice**, with whatever blanks, is kept once exactly if it is short enough to be
kept as it is, or was the newest entry before, or has taken the place of all others. -/
theorem remember_twice_iff {a b : String} (h : words a.toList = words b.toList) (m : Memory) :
    (m.remember a).remember b = m.remember a ↔
      (collapse a.toList).length ≤ noteLimit ∨
        m.entries.getLast? = some (String.ofList (collapse a.toList)) ∨
        memoryLimit ≤ (m.remember a).entries.length ∧ ∀ e ∈ (m.remember a).entries,
          e = String.ofList ((collapse a.toList).take noteLimit) := by
  rw [Memory.remember, collapse_congr h]
  unfold Memory.remember
  dsimp only
  generalize collapse a.toList = n
  by_cases hskip : n.isEmpty = true ∨ m.entries.getLast? = some (String.ofList n)
  · rw [if_pos hskip, if_pos hskip]
    refine ⟨fun _ => ?_, fun _ => rfl⟩
    rcases hskip with hempty | hrepeat
    · rw [List.isEmpty_iff.1 hempty]
      exact .inl (Nat.zero_le _)
    · exact .inr (.inl hrepeat)
  · obtain ⟨hempty, hrepeat⟩ := not_or.1 hskip
    have hagain : (n.isEmpty = true ∨ (m.push (String.ofList (n.take noteLimit))).entries.getLast? =
        some (String.ofList n)) ↔ n.length ≤ noteLimit := by
      rw [or_iff_right hempty, Memory.getLast?_push, Option.some_inj, String.ofList_inj,
        List.take_eq_self_iff]
    rw [if_neg hskip]
    by_cases hshort : n.length ≤ noteLimit
    · rw [if_pos (hagain.2 hshort)]
      exact ⟨fun _ => .inl hshort, fun _ => rfl⟩
    · rw [if_neg (mt hagain.1 hshort), Memory.push_push_iff]
      exact ⟨fun hall => .inr (.inr hall), fun hall => (hall.resolve_left hshort).resolve_left hrepeat⟩

/-- A text without blanks is one word. -/
lemma collapse_of_visible {t : List Char} (h : ∀ c ∈ t, isBlank c = false) : collapse t = t := by
  have hspaced (u : List Char) (hu : ∀ c ∈ u, isBlank c = false) : spaced u = u := by
    induction u with
    | nil => rfl
    | cons c u ih =>
      obtain ⟨hc, hu⟩ := List.forall_mem_cons.1 hu
      rw [spaced_cons hc, ih hu]
  cases t with
  | nil => rfl
  | cons c t =>
    obtain ⟨hc, ht⟩ := List.forall_mem_cons.1 h
    rw [collapse_cons hc, hspaced t ht]

/-- A note of one character more than are kept. -/
def longNote : List Char := List.replicate (noteLimit + 1) 'a'

def cutNote : String := String.ofList (longNote.take noteLimit)

lemma collapse_longNote : collapse (String.ofList longNote).toList = longNote := by
  rw [String.toList_ofList]
  refine collapse_of_visible fun c hc => ?_
  rw [List.eq_of_mem_replicate hc]
  rfl

lemma longNote_not_kept : ¬ longNote.length ≤ noteLimit := by
  rw [longNote, List.length_replicate]
  omega

lemma remember_longNote : (Memory.mk []).remember (String.ofList longNote) = ⟨[cutNote]⟩ := by
  have hskip : ¬ (longNote.isEmpty = true ∨ ([] : List String).getLast? = some (String.ofList longNote)) := by
    rintro (hempty | hlast)
    · exact longNote_not_kept (by rw [List.isEmpty_iff.1 hempty]; exact Nat.zero_le _)
    · cases hlast
  rw [Memory.remember, collapse_longNote]
  exact if_neg hskip

-- the blank in front does not count, and still the note is kept twice
theorem remember_twice_long : words (String.ofList longNote).toList =
      words (String.ofList (' ' :: longNote)).toList ∧
    ¬ ((Memory.mk []).remember (String.ofList longNote)).remember (String.ofList (' ' :: longNote)) =
      (Memory.mk []).remember (String.ofList longNote) := by
  have hwords : words (String.ofList longNote).toList =
      words (String.ofList (' ' :: longNote)).toList := by
    rw [String.toList_ofList, String.toList_ofList, words_of_blank (by decide)]
  refine ⟨hwords, fun h => ?_⟩
  rcases (remember_twice_iff hwords _).1 h with hshort | hnewest | ⟨hfull, -⟩
  · rw [collapse_longNote] at hshort
    exact longNote_not_kept hshort
  · cases hnewest
  · rw [remember_longNote] at hfull
    exact absurd hfull (by decide)

/-- A note that has to be cut is not recognised when it comes again. -/
theorem long_note_kept_twice : ¬ ∀ (m : Memory) (a b : String), words a.toList = words b.toList →
    (m.remember a).remember b = m.remember a := by
  intro h
  have hsame := h ⟨[]⟩ (String.ofList longNote) (String.ofList longNote) rfl
  have hskip : ¬ (longNote.isEmpty = true ∨ [cutNote].getLast? = some (String.ofList longNote)) := by
    rintro (hempty | hlast)
    · exact longNote_not_kept (by rw [List.isEmpty_iff.1 hempty]; exact Nat.zero_le _)
    · have hcut : longNote.take noteLimit = longNote := String.ofList_injective (Option.some.inj hlast)
      exact longNote_not_kept ((List.take_eq_self_iff longNote).1 hcut)
  rw [remember_longNote, Memory.remember, collapse_longNote] at hsame
  have htwice : Memory.push cutNote ⟨[cutNote]⟩ = ⟨[cutNote]⟩ := (if_neg hskip).symm.trans hsame
  exact absurd (congrArg (·.entries.length) htwice) (by decide)

/-! ### Notes of a repair -/

/-- A log with a note added, if the note is not blank and does not repeat the newest entry. -/
def logged (log : List String) (note : String) : List String :=
  let n := collapse note.toList
  if n.isEmpty ∨ log.getLast? = some (String.ofList n) then log
  else log ++ [String.ofList (n.take noteLimit)]

/-- **A memory holds the newest entries of the log**, and does so behind every note. -/
theorem entries_remember {m : Memory} {log : List String} (h : m.entries = bound log) (note : String) :
    (m.remember note).entries = bound (logged log note) := by
  have hlength : m.entries.length ≤ memoryLimit := by
    rw [h]
    exact length_le_of_bound (bound_bound log)
  unfold Memory.remember logged
  dsimp only
  rw [h, getLast?_bound]
  split
  · exact h
  · rw [Memory.entries_push hlength, h, bound_bound_append]

/-- What a pass has to note: its summary or else the first of the errors that it was shown, if it has
changed the text. -/
def PassRecord.note? (x : PassRecord) (errors : List Diagnostic) : Option String :=
  match x.changed, x.summary, errors with
  | false, _, _ => none
  | true, some summary, _ => some summary
  | true, none, [] => none
  | true, none, d :: _ => some ("fixed: " ++ d.message)

/-- A log behind some passes, each with the prompt that it made. -/
def logBehind (log : List String) (rows : List (PassRecord × Prompt)) : List String :=
  (rows.filterMap fun row => row.1.note? row.2.diagnostics).foldl logged log

lemma logBehind_append (log : List String) (rows rows' : List (PassRecord × Prompt)) :
    logBehind log (rows ++ rows') = logBehind (logBehind log rows) rows' := by
  rw [logBehind, List.filterMap_append, List.foldl_append, logBehind, logBehind]

section Passes

variable (w : Workshop) (file : String) (budget : Nat)

lemma note?_recordOf (p : Progress) (q : Reply.Proposal) (n : Nat) (errors : List Diagnostic) :
    (recordOf p q n).note? errors =
      if differs (cleanedUp q.code) p.current.text then noteOf q.summary errors else none := by
  unfold PassRecord.note? recordOf noteOf
  cases differs (cleanedUp q.code) p.current.text <;> cases q.summary <;> cases errors <;> rfl

/-- A pass notes what its record tells, in the memory as in the log. -/
lemma memory_tryPass {p : Progress} {log : List String} (h : p.memory.entries = bound log)
    (q : Reply.Proposal) (n : Nat) (s : Session) :
    (s.answer (tryPass w file p q)).memory.entries =
      bound (logBehind log [(recordOf p q n, promptFor w file budget p)]) := by
  have hnote : (recordOf p q n).note? (promptFor w file budget p).diagnostics = _ :=
    note?_recordOf p q n (shown w p.current)
  unfold tryPass logBehind
  by_cases hdiffers : differs (cleanedUp q.code) p.current.text = true
  · rw [if_pos hdiffers] at hnote
    cases hnoted : noteOf q.summary (shown w p.current) with
    | none => simpa [hdiffers, hnote, hnoted] using h
    | some note => simpa [hdiffers, hnote, hnoted] using entries_remember h note
  · rw [if_neg hdiffers] at hnote
    cases noteOf q.summary (shown w p.current) <;> simpa [hdiffers, hnote] using h

lemma memory_onePass {p : Progress} {log : List String} (h : p.memory.entries = bound log)
    (s : Session) : ∃ x, (s.answer (onePass w file budget p)).records = p.records ++ [x] ∧
      (s.answer (onePass w file budget p)).memory.entries =
        bound (logBehind log [(x, promptFor w file budget p)]) := by
  rw [answer_onePass]
  cases tried? w file budget p s with
  | none => exact ⟨⟨p.records.length + 1, p.current.errors, p.current.errors, false, none⟩, rfl, h⟩
  | some q => exact ⟨_, records_tryPass w file p q _, memory_tryPass w file budget h q _ _⟩

/-- The prompts that passes make, in their order. -/
def passPrompts (n : Nat) (p : Progress) (s : Session) : List Prompt :=
  (passStarts w file budget n p s).map fun e => promptFor w file budget e.1

lemma passPrompts_succ {p : Progress} (h : p.current.errors ≠ 0) (n : Nat) (s : Session) :
    passPrompts w file budget (n + 1) p s = promptFor w file budget p ::
      passPrompts w file budget n (s.answer (onePass w file budget p))
        (s.after (onePass w file budget p)) := by
  rw [passPrompts, passStarts, if_neg h, List.map_cons, passPrompts]

lemma passPrompts_of_clean {p : Progress} (h : p.current.errors = 0) (n : Nat) (s : Session) :
    passPrompts w file budget n p s = [] := by
  cases n with
  | zero => rfl
  | succ n => rw [passPrompts, passStarts, if_pos h, List.map_nil]

/-- A memory that is shown in full, as far as it is kept of this log. -/
def Shows (log : List String) (q : Prompt) : Prop := q.memory = (Memory.mk (bound log)).promptText?

lemma shows_promptFor {p : Progress} {log : List String} (h : p.memory.entries = bound log) :
    Shows log (promptFor w file budget p) := by
  obtain ⟨current, ⟨entries⟩, records⟩ := p
  exact congrArg (fun es => (Memory.mk es).promptText?) h

/-- **The memory of passes** is that of the log of their notes, in front of each of them and at the
end. -/
theorem memory_passes (n : Nat) {p : Progress} {log : List String} (h : p.memory.entries = bound log)
    (s : Session) :
    let qs := passPrompts w file budget n p s
    ∃ rs, (s.answer (passes w file budget n p)).records = p.records ++ rs ∧ rs.length = qs.length ∧
      (s.answer (passes w file budget n p)).memory.entries = bound (logBehind log (rs.zip qs)) ∧
      ∀ i q, qs[i]? = some q → Shows (logBehind log ((rs.zip qs).take i)) q := by
  induction n generalizing p log s with
  | zero =>
    intro qs
    have hqs : qs = [] := rfl
    rw [passes, answer_pure, hqs]
    exact ⟨[], (List.append_nil _).symm, rfl, h, fun i q hq => absurd hq (by simp)⟩
  | succ n ih =>
    intro qs
    by_cases hclean : p.current.errors = 0
    · have hqs : qs = [] := passPrompts_of_clean w file budget hclean (n + 1) s
      rw [(passes_of_clean w file budget hclean (n + 1) s).1, hqs]
      exact ⟨[], (List.append_nil _).symm, rfl, h, fun i q hq => absurd hq (by simp)⟩
    · obtain ⟨x, hx, hmemory⟩ := memory_onePass w file budget h s
      obtain ⟨rs, hrs, hlength, hend, hshows⟩ := ih hmemory (s.after (onePass w file budget p))
      have hqs : qs = _ := passPrompts_succ w file budget hclean n s
      have hrow (rows : List (PassRecord × Prompt)) :
          logBehind log ((x, promptFor w file budget p) :: rows) =
            logBehind (logBehind log [(x, promptFor w file budget p)]) rows :=
        logBehind_append log [(x, promptFor w file budget p)] rows
      rw [answer_passes_succ w file budget hclean, hqs]
      refine ⟨x :: rs, ?_, congrArg (· + 1) hlength, ?_, fun i q hq => ?_⟩
      · rw [hrs, hx, List.append_assoc, List.singleton_append]
      · rw [hend]
        exact congrArg bound (hrow _).symm
      · cases i with
        | zero =>
          obtain rfl := Option.some.inj hq
          exact shows_promptFor w file budget h
        | succ i =>
          rw [List.zip_cons_cons, List.take_succ_cons, hrow]
          exact hshows i q hq

/-! ### What the model is asked -/

/-- The calls of the model in a session. -/
def asked (s : Session) : List Call := s.calls.filter (·.collaborator == .generator)

def Prompt.call (q : Prompt) : Call := .generate Prompt.instructions q.context

lemma asked_append {s t : Session} {l : List Call} (h : t.calls = s.calls ++ l) :
    asked t = asked s ++ l.filter (·.collaborator == .generator) := by
  rw [asked, h, List.filter_append, asked]

lemma asked_of_callsTo {s t : Session} {l : List Call} (h : t.calls = s.calls ++ l)
    (hl : callsTo .generator l = 0) : asked t = asked s := by
  have hnone : l.filter (·.collaborator == .generator) = [] := by
    rwa [callsTo, List.countP_eq_length_filter, List.length_eq_zero_iff] at hl
  rw [asked_append h, hnone, List.append_nil]

lemma asked_of_aside {γ : Type} {part : Session → γ} {s t : Session}
    (h : Extends Call.Aside part s t) : asked t = asked s := by
  obtain ⟨l, hl, haside⟩ := h.calls
  exact asked_of_callsTo hl (callsTo_of_aside haside).1

lemma calls_propose (p : Progress) (s : Session) :
    (s.after (propose w file budget p)).calls =
      s.calls ++ if w.canPatch then [(promptFor w file budget p).call] else [] := by
  unfold propose Workshop.canPatch
  cases w.generate with
  | none => simp
  | some generate =>
    dsimp only
    rw [after_bind, after_bind]
    split
    · have h := after_readReply ‹_›
      simp [h, Prompt.call]
    · simp [Prompt.call]

lemma asked_onePass (p : Progress) (s : Session) :
    asked (s.after (onePass w file budget p)) =
      asked s ++ if w.canPatch then [(promptFor w file budget p).call] else [] := by
  have hpropose : asked (s.after (propose w file budget p)) =
      asked s ++ if w.canPatch then [(promptFor w file budget p).call] else [] := by
    rw [asked_append (calls_propose w file budget p s)]
    split <;> rfl
  rw [after_onePass, ← hpropose]
  cases tried? w file budget p s with
  | none => rfl
  | some q =>
    have hcheck := makes_checkText w file (cleanedUp q.code) true (s.after (propose w file budget p))
    obtain ⟨l, hl, htools⟩ := hcheck.calls
    rw [← calls_tryPass w file p] at hl
    exact asked_of_callsTo hl (callsTo_of_aside fun c hc => (htools c hc).aside).1

/-- **Each pass asks the model with its prompt**, if there is a model. -/
theorem asked_passes (n : Nat) (p : Progress) (s : Session) :
    asked (s.after (passes w file budget n p)) =
      asked s ++ if w.canPatch then (passPrompts w file budget n p s).map Prompt.call else [] := by
  induction n generalizing p s with
  | zero =>
    rw [passes, after_pure]
    split <;> simp [passPrompts, passStarts]
  | succ n ih =>
    by_cases hclean : p.current.errors = 0
    · rw [(passes_of_clean w file budget hclean (n + 1) s).2, passPrompts_of_clean w file budget hclean]
      simp
    · rw [after_passes_succ w file budget hclean, ih, asked_onePass, passPrompts_succ w file budget hclean,
        List.append_assoc]
      split <;> rfl

end Passes

/-! ### Whole repairs -/

variable {w : Workshop} {r : Request} {given : String} {s : Session}

/-- What a repair has read of the memory that is kept of its file; nothing if that failed. -/
def loadedEntries (w : Workshop) (r : Request) (s : Session) : List String :=
  match keptAt w r with
  | some (fails, key) =>
    if (loadFault? fails key (s.after (resolveSource w r))).isNone then s.store.memory key else []
  | none => []

lemma answer_opening_eq (w : Workshop) (r : Request) (s : Session) :
    (s.after (resolveSource w r)).answer (opening w r) = loadedEntries w r s := by
  have hsource := store_of_beyondTools (makes_resolveSource w r s).same
  unfold loadedEntries
  rw [opening, answer_bind, after_count]
  cases keptAt w r with
  | none => rw [loadMemory, answer_pure]
  | some kept =>
    obtain ⟨fails, key⟩ := kept
    rw [answer_loadMemory]
    exact hsource ▸ rfl

/-- The prompts of a repair's passes. -/
def prompts (w : Workshop) (r : Request) (given : String) (s : Session) : List Prompt :=
  passPrompts w r.filename (passBudget w r) (passBudget w r) (loopStart w r given s)
    (loopStartSession w r given s)

/-- The log of a repair behind its first passes, `n` of them. -/
def logUpTo (w : Workshop) (r : Request) (given : String) (s : Session) (o : Outcome) (n : Nat) :
    List String :=
  logBehind (loadedEntries w r s ++ r.memory) ((o.records.zip (prompts w r given s)).take n)

/-- The memory of a repair is that of its log: what was read, the entries of the request, and the notes
of the passes in their order. -/
structure KeepsLog (w : Workshop) (r : Request) (given : String) (s : Session) (o : Outcome) : Prop where
  /-- Each pass has one prompt, and the model is asked with it. -/
  passes : o.records.length = (prompts w r given s).length
  asked : asked (s.after (repair w r)) =
    asked s ++ if w.canPatch then (prompts w r given s).map Prompt.call else []
  shows : ∀ i q, (prompts w r given s)[i]? = some q → Shows (logUpTo w r given s o i) q
  memory : o.memory = bound (logUpTo w r given s o o.records.length)
  saved : ∀ fails p, w.store = some fails → r.project = some p →
    ¬ Fails fails ⟨p, r.filename⟩ .saveMemory →
    (s.after (repair w r)).store.memory ⟨p, r.filename⟩ = o.memory

/-- The model is asked in the passes only. -/
lemma asked_repair (h : Accepted w r given s) : asked (s.after (repair w r)) =
    asked s ++ if w.canPatch then (prompts w r given s).map Prompt.call else [] := by
  have hstart := asked_of_aside (extends_loopStart w r given s)
  obtain ⟨l, hl, hgenerator, -⟩ := conclude_adds w r given ((firstCheck w r given s).result w r.filename)
    (loopEnd w r given s) (loopEndSession w r given s)
  obtain ⟨l', hl', hstore⟩ := (makes_keep w r (outcomeOf (loopEnd w r given s) (verdict w r given s))
    (verdictSession w r given s)).calls
  have hkeep := asked_of_callsTo hl' (callsTo_of_aside fun c hc => (hstore c hc).aside).1
  have hconclude : asked (verdictSession w r given s) = asked (loopEndSession w r given s) :=
    asked_of_callsTo hl hgenerator
  rw [h.repair.2, hkeep, hconclude, loopEndSession, asked_passes, hstart, prompts]

/-- Unless its writing fails, the memory of the outcome is what is kept. -/
lemma saved_repair (h : Accepted w r given s) {fails : StoreFailures} {p : String}
    (hstore : w.store = some fails) (hproject : r.project = some p)
    (hworks : ¬ Fails fails ⟨p, r.filename⟩ .saveMemory) :
    (s.after (repair w r)).store.memory ⟨p, r.filename⟩ =
      bound (outcomeOf (loopEnd w r given s) (verdict w r given s)).memory := by
  have hkept : keptAt w r = some (fails, ⟨p, r.filename⟩) := by rw [keptAt, hstore, hproject]
  rw [h.repair.2, keep, hkept]
  exact (memory_persist fails ⟨p, r.filename⟩ (verdictSession w r given s) _).resolve_left
    fun hfailed => hworks hfailed.2

end Repair

end Mender
