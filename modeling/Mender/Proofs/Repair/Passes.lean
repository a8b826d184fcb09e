import Mender.Proofs.Repair.Checks

/-!
What a pass of a repair does, and what its passes do together.

Each pass adds one record, asks the model once if there is one, and counts a patch exactly
when its record says that the text has changed. The records run on: each begins with the
number of errors that the one before has ended with.
-/

namespace Mender.Repair

open Session

/-- A check that a repair makes: of which text, whether after a patch, in which session. -/
structure Check where
  text : String
  afterPatch : Bool
  session : Session

def Check.result (w : Workshop) (file : String) (k : Check) : Checked :=
  k.session.answer (checkText w file k.text k.afterPatch)

variable (w : Workshop) (file : String) (budget : Nat)

/-! ### One pass -/

/-- The proposal that a pass tries: the model's, if it differs from the text at hand. -/
def tried? (p : Progress) (s : Session) : Option Reply.Proposal :=
  (s.answer (propose w file budget p)).filter fun q => differs q.code p.current.text

lemma answer_onePass (p : Progress) (s : Session) :
    s.answer (onePass w file budget p) =
      match tried? w file budget p s with
      | some q => (s.after (propose w file budget p)).answer (tryPass w file p q)
      | none => idlePass p := by
  unfold onePass tried?
  rw [answer_bind]
  cases s.answer (propose w file budget p) with
  | none => simp
  | some q => by_cases h : differs q.code p.current.text <;> simp [Option.filter, h]

lemma after_onePass (p : Progress) (s : Session) :
    s.after (onePass w file budget p) =
      match tried? w file budget p s with
      | some q => (s.after (propose w file budget p)).after (tryPass w file p q)
      | none => s.after (propose w file budget p) := by
  unfold onePass tried?
  rw [after_bind]
  cases s.answer (propose w file budget p) with
  | none => simp
  | some q => by_cases h : differs q.code p.current.text <;> simp [Option.filter, h]

/-- The check that a pass makes, if it tries a proposal. -/
def passCheck? (p : Progress) (s : Session) : Option Check :=
  (tried? w file budget p s).map fun q =>
    ⟨cleanedUp q.code, true, s.after (propose w file budget p)⟩

/-- The record of a pass that tries `q`, and whose check ends with `errors` errors. -/
def recordOf (p : Progress) (q : Reply.Proposal) (errors : Nat) : PassRecord :=
  ⟨p.records.length + 1, p.current.errors, errors,
    differs (cleanedUp q.code) p.current.text, q.summary⟩

lemma current_tryPass (p : Progress) (q : Reply.Proposal) (s : Session) :
    (s.answer (tryPass w file p q)).current =
      s.answer (checkText w file (cleanedUp q.code) true) := by
  unfold tryPass
  by_cases h : differs (cleanedUp q.code) p.current.text <;> simp [h]

lemma records_tryPass (p : Progress) (q : Reply.Proposal) (s : Session) :
    (s.answer (tryPass w file p q)).records = p.records ++
      [recordOf p q (s.answer (checkText w file (cleanedUp q.code) true)).errors] := by
  unfold tryPass recordOf
  by_cases h : differs (cleanedUp q.code) p.current.text <;> simp [h]

lemma calls_tryPass (p : Progress) (q : Reply.Proposal) (s : Session) :
    (s.after (tryPass w file p q)).calls =
      (s.after (checkText w file (cleanedUp q.code) true)).calls := by
  unfold tryPass
  by_cases h : differs (cleanedUp q.code) p.current.text <;> simp [h]

lemma patches_tryPass (p : Progress) (q : Reply.Proposal) (s : Session) :
    (s.after (tryPass w file p q)).metrics.patchesApplied = s.metrics.patchesApplied +
      if differs (cleanedUp q.code) p.current.text then 1 else 0 := by
  have hmet := metrics_of_beyondTools (makes_checkText w file (cleanedUp q.code) true s).same
  unfold tryPass
  by_cases h : differs (cleanedUp q.code) p.current.text <;> simp [h, hmet]

/-- The text at hand after a pass is that of its check, if it has made one. -/
lemma current_onePass (p : Progress) (s : Session) :
    (s.answer (onePass w file budget p)).current =
      ((passCheck? w file budget p s).map (·.result w file)).getD p.current := by
  rw [answer_onePass]
  unfold passCheck?
  cases tried? w file budget p s with
  | none => rfl
  | some q => exact current_tryPass w file p q _

/-! ### Asking the model -/

lemma after_readReply (raw : String) (s : Session) :
    (s.after (readReply raw)).calls = s.calls ∧
      (s.after (readReply raw)).metrics.patchesApplied = s.metrics.patchesApplied := by
  unfold readReply
  split
  · simp
  · dsimp only
    split <;> simp

lemma after_propose (p : Progress) (s : Session) :
    ∃ l, (s.after (propose w file budget p)).calls = s.calls ++ l ∧
      callsTo .generator l = (if w.canPatch then 1 else 0) ∧ callsTo .catalog l = 0 ∧
      (s.after (propose w file budget p)).metrics.patchesApplied = s.metrics.patchesApplied := by
  unfold propose Workshop.canPatch
  cases hg : w.generate with
  | none => exact ⟨[], by simp, by simp, rfl, by simp⟩
  | some generate =>
    refine ⟨[.generate Prompt.instructions (promptFor w file budget p).context], ?_⟩
    dsimp only
    rw [after_bind, after_bind]
    split
    · have h := after_readReply ‹_›
      simp [h, Call.collaborator]
    · simp [Call.collaborator]

/-! ### The record of a pass -/

/-- Records that run on from `first` errors to `last`: they are numbered from one on, each
begins with the errors that the one before has ended with, and none begins without errors. -/
structure Ledger (first last : Nat) (rs : List PassRecord) : Prop where
  numbered : rs.map (·.pass) = List.range' 1 rs.length
  chained : rs.map (·.errorsBefore) ++ [last] = first :: rs.map (·.errorsAfter)
  erring : ∀ x ∈ rs, 0 < x.errorsBefore

namespace Ledger

lemma nil (n : Nat) : Ledger n n [] := ⟨rfl, rfl, by simp⟩

lemma snoc {first last : Nat} {rs : List PassRecord} {x : PassRecord} (h : Ledger first last rs)
    (hpass : x.pass = rs.length + 1) (hbefore : x.errorsBefore = last) (hlast : 0 < last) :
    Ledger first x.errorsAfter (rs ++ [x]) where
  numbered := by
    rw [List.map_append, h.numbered, List.length_append]
    simp [List.range'_concat, hpass, Nat.add_comm]
  chained := by
    rw [List.map_append, List.map_append, List.map_singleton, hbefore, h.chained]
    simp
  erring := by
    intro y hy
    rcases List.mem_append.1 hy with hy | hy
    · exact h.erring y hy
    · rw [List.mem_singleton.1 hy, hbefore]
      exact hlast

/-- Without errors at first there are no records. -/
lemma eq_nil {last : Nat} {rs : List PassRecord} (h : Ledger 0 last rs) : rs = [] ∧ last = 0 := by
  cases rs with
  | nil => exact ⟨rfl, by simpa using h.chained⟩
  | cons x rs =>
    have hx := h.erring x List.mem_cons_self
    have hc : x.errorsBefore = 0 := by
      have := h.chained
      rw [List.map_cons, List.cons_append] at this
      exact (List.cons.inj this).1
    omega

end Ledger

/-- What a pass adds to the records and to the session: a record and some calls. -/
structure Added (p : Progress) (s : Session) (x : PassRecord) (l : List Call) (q : Progress)
    (t : Session) : Prop where
  records : q.records = p.records ++ [x]
  pass : x.pass = p.records.length + 1
  before : x.errorsBefore = p.current.errors
  after : x.errorsAfter = q.current.errors
  calls : t.calls = s.calls ++ l
  asked : callsTo .generator l = if w.canPatch then 1 else 0
  lookedUp : callsTo .catalog l = 0
  patches : t.metrics.patchesApplied = s.metrics.patchesApplied + if x.changed then 1 else 0

theorem onePass_adds (p : Progress) (s : Session) :
    ∃ x l, Added w p s x l (s.answer (onePass w file budget p))
      (s.after (onePass w file budget p)) := by
  obtain ⟨l, hl, hgen, hcat, hpat⟩ := after_propose w file budget p s
  rw [answer_onePass, after_onePass]
  cases tried? w file budget p s with
  | none =>
    refine ⟨⟨p.records.length + 1, p.current.errors, p.current.errors, false, none⟩, l, ?_⟩
    dsimp only [idlePass]
    exact ⟨rfl, rfl, rfl, rfl, hl, hgen, hcat, by simpa using hpat⟩
  | some q =>
    dsimp only
    generalize s.after (propose w file budget p) = t at hl hpat
    obtain ⟨⟨l', hl', htools⟩, -⟩ := makes_checkText w file (cleanedUp q.code) true t
    obtain ⟨hgen', hcat'⟩ := callsTo_of_aside fun c hc => (htools c hc).aside
    refine ⟨_, l ++ l', records_tryPass w file p q t, rfl, rfl, ?_, ?_, ?_, ?_, ?_⟩
    · rw [current_tryPass, recordOf]
    · rw [calls_tryPass, hl', hl, List.append_assoc]
    · rw [callsTo_append, hgen, hgen', Nat.add_zero]
    · rw [callsTo_append, hcat, hcat']
    · rw [patches_tryPass, hpat, recordOf]

/-! ### All passes -/

/-- Where each pass begins, when `n` passes may still be made. -/
def passStarts : (n : Nat) → Progress → Session → List (Progress × Session)
  | 0, _, _ => []
  | n + 1, p, s =>
    if p.current.errors = 0 then []
    else (p, s) :: passStarts n (s.answer (onePass w file budget p))
      (s.after (onePass w file budget p))

/-- The checks that passes make, in their order. -/
def passChecks (n : Nat) (p : Progress) (s : Session) : List Check :=
  (passStarts w file budget n p s).filterMap fun e => passCheck? w file budget e.1 e.2

lemma passes_of_clean {p : Progress} (h : p.current.errors = 0) (n : Nat) (s : Session) :
    s.answer (passes w file budget n p) = p ∧ s.after (passes w file budget n p) = s := by
  cases n with
  | zero => simp [passes]
  | succ n => simp [passes, h]

lemma answer_passes_succ {p : Progress} (h : p.current.errors ≠ 0) (n : Nat) (s : Session) :
    s.answer (passes w file budget (n + 1) p) =
      (s.after (onePass w file budget p)).answer
        (passes w file budget n (s.answer (onePass w file budget p))) := by
  rw [passes, if_neg h]
  simp

lemma after_passes_succ {p : Progress} (h : p.current.errors ≠ 0) (n : Nat) (s : Session) :
    s.after (passes w file budget (n + 1) p) =
      (s.after (onePass w file budget p)).after
        (passes w file budget n (s.answer (onePass w file budget p))) := by
  rw [passes, if_neg h]
  simp

/-- After its passes a repair stands at the text of their last check. -/
theorem current_passes (n : Nat) (p : Progress) (s : Session) :
    (s.answer (passes w file budget n p)).current =
      ((passChecks w file budget n p s).getLast?.map (·.result w file)).getD p.current := by
  induction n generalizing p s with
  | zero => simp [passes, passChecks, passStarts]
  | succ n ih =>
    by_cases h : p.current.errors = 0
    · rw [(passes_of_clean w file budget h (n + 1) s).1]
      simp [passChecks, passStarts, h]
    · rw [answer_passes_succ w file budget h, ih, current_onePass]
      unfold passChecks
      rw [passStarts, if_neg h, List.filterMap_cons]
      cases passCheck? w file budget p s with
      | none => rfl
      | some k =>
        rw [Option.map_some, Option.getD_some, List.getLast?_cons]
        cases (List.filterMap _ _).getLast? <;> simp

/-- What passes add, `n` of them at most: records and calls. Fewer passes than `n` are made
only when no errors are left. -/
structure AddedAll (n : Nat) (p : Progress) (s : Session) (rs : List PassRecord) (l : List Call)
    (q : Progress) (t : Session) : Prop where
  records : q.records = p.records ++ rs
  bounded : rs.length ≤ n
  clean : rs.length < n → q.current.errors = 0
  calls : t.calls = s.calls ++ l
  asked : callsTo .generator l = if w.canPatch then rs.length else 0
  lookedUp : callsTo .catalog l = 0
  patches : t.metrics.patchesApplied = s.metrics.patchesApplied + rs.countP (·.changed)

lemma AddedAll.nil {n : Nat} {p : Progress} (h : n = 0 ∨ p.current.errors = 0) (s : Session) :
    AddedAll w n p s [] [] p s where
  records := by simp
  bounded := Nat.zero_le n
  clean := fun hn => h.resolve_left (by simp at hn; omega)
  calls := by simp
  asked := by simp
  lookedUp := rfl
  patches := by simp

lemma Added.cons {n : Nat} {p q r : Progress} {s t u : Session} {x : PassRecord}
    {rs : List PassRecord} {l l' : List Call} (h : Added w p s x l q t)
    (h' : AddedAll w n q t rs l' r u) : AddedAll w (n + 1) p s (x :: rs) (l ++ l') r u where
  records := by rw [h'.records, h.records, List.append_assoc, List.singleton_append]
  bounded := Nat.succ_le_succ h'.bounded
  clean := fun hn => h'.clean (Nat.lt_of_succ_lt_succ hn)
  calls := by rw [h'.calls, h.calls, List.append_assoc]
  asked := by
    rw [callsTo_append, h.asked, h'.asked]
    split
    · rw [List.length_cons, Nat.add_comm]
    · rfl
  lookedUp := by rw [callsTo_append, h.lookedUp, h'.lookedUp]
  patches := by
    rw [h'.patches, h.patches, List.countP_cons]
    omega

theorem passes_add (n : Nat) (p : Progress) (s : Session) :
    ∃ rs l, AddedAll w n p s rs l (s.answer (passes w file budget n p))
      (s.after (passes w file budget n p)) := by
  induction n generalizing p s with
  | zero =>
    unfold passes
    rw [answer_pure, after_pure]
    exact ⟨[], [], .nil w (.inl rfl) s⟩
  | succ n ih =>
    by_cases h : p.current.errors = 0
    · obtain ⟨ha, ht⟩ := passes_of_clean w file budget h (n + 1) s
      rw [ha, ht]
      exact ⟨[], [], .nil w (.inr h) s⟩
    · obtain ⟨x, l, hx⟩ := onePass_adds w file budget p s
      obtain ⟨rs, l', hrs⟩ := ih (s.answer (onePass w file budget p))
        (s.after (onePass w file budget p))
      rw [answer_passes_succ w file budget h, after_passes_succ w file budget h]
      exact ⟨x :: rs, l ++ l', hx.cons w hrs⟩

/-- The ledger is kept by every pass: the invariant of the loop. -/
theorem passes_ledger {first : Nat} (n : Nat) (p : Progress) (s : Session)
    (h : Ledger first p.current.errors p.records) :
    Ledger first (s.answer (passes w file budget n p)).current.errors
      (s.answer (passes w file budget n p)).records := by
  induction n generalizing p s with
  | zero => simpa [passes] using h
  | succ n ih =>
    by_cases hp : p.current.errors = 0
    · rw [(passes_of_clean w file budget hp (n + 1) s).1]
      exact h
    · obtain ⟨x, l, hx⟩ := onePass_adds w file budget p s
      rw [answer_passes_succ w file budget hp]
      refine ih _ _ ?_
      rw [hx.records, ← hx.after]
      exact h.snoc hx.pass hx.before (Nat.pos_of_ne_zero hp)

end Mender.Repair
