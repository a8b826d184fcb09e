import Mathlib.Algebra.Group.Nat.Defs
import Mathlib.Data.List.Basic
import Mender.Proofs.Preview.Breaker

/-!
How often a call tries, and how long it waits in between.

Both are computed in machine words. The number of attempts comes to nothing when the number of retries is
the greatest word, and a wait is what is left of the exact one below `2 ^ 64`. So a configuration gets what
it says exactly if it has fewer retries, and if the longest wait that the breaker lets it come to is a word.
-/

namespace Mender.Preview

open Session Mender.Module

variable {c : Controls} {b : Breaker} {runner : Runner} {g : Graph} {s : Session}

/-! ### Words -/

/-- What is computed of a wait is what is left of the exact one. -/
lemma toNat_delay (c : Controls) (i : Nat) :
    (c.delay (i + 1)).toNat = c.backoff.toNat * 2 ^ i % 2 ^ 64 := by
  rw [Controls.delay, UInt64.toNat_mul, UInt64.toNat_ofNat', Nat.add_sub_cancel, Nat.pow_eq,
    Nat.mul_mod_mod]

lemma attempts_greatest (h : ¬ c.retries.toNat < Word.greatest32) : c.attempts.toNat = 0 := by
  have hlt := UInt32.toNat_lt c.retries
  unfold Word.greatest32 at h
  have hretries : c.retries.toNat = 2 ^ 32 - 1 := by omega
  rw [Controls.attempts, UInt32.toNat_add, hretries]
  rfl

/-! ### How many attempts -/

lemma failing_of_faulty {x : Except Fault Rendered} (h : faulty x = true) : failing x = true := by
  cases x with
  | ok _ => cases h
  | error f => cases f <;> first | rfl | cases h

lemma isOpen_iff : b.isOpen c.threshold = true ↔ c.threshold.toNat ≤ b.failures.toNat := by
  rw [Breaker.isOpen, decide_eq_true_eq, UInt32.le_iff_toNat_le]

/-- A fault counts, and the count of a closed breaker has room for it. -/
lemma failures_record (hclosed : ¬ b.isOpen c.threshold = true) {x : Except Fault Rendered}
    (h : faulty x = true) : (b.record x).failures.toNat = b.failures.toNat + 1 := by
  rw [isOpen_iff] at hclosed
  have hbound := UInt32.toNat_lt c.threshold
  rw [Breaker.record, if_pos (failing_of_faulty h), Breaker.fail, UInt32.toNat_add]
  exact Nat.mod_eq_of_lt (by change b.failures.toNat + 1 < _; omega)

/-- The breaker lets as many attempts through as it lacks failures. -/
lemma length_attemptsFrom_le (c : Controls) (runner : Runner) (g : Graph) (left k : Nat) (b : Breaker) :
    (attemptsFrom c runner g left k b).length ≤
      min left (c.threshold.toNat - b.failures.toNat) := by
  induction left generalizing k b with
  | zero => exact Nat.zero_le _
  | succ left ih =>
    rw [attemptsFrom]
    split
    · exact Nat.zero_le _
    · next hopen =>
      have hclosed := mt isOpen_iff.2 hopen
      dsimp only
      split
      · next hx =>
        have hrest := ih (k + 1) (b.record (cutOff c (runner k g)))
        rw [failures_record hopen hx] at hrest
        rw [List.length_cons]
        omega
      · rw [List.length_singleton]
        omega

lemma one_le_length_attemptsFrom {left : Nat} (hleft : left ≠ 0) (k : Nat)
    (hclosed : ¬ b.isOpen c.threshold = true) :
    1 ≤ (attemptsFrom c runner g left k b).length := by
  obtain ⟨left, rfl⟩ := Nat.exists_eq_succ_of_ne_zero hleft
  rw [Nat.succ_eq_add_one, attemptsFrom, if_neg hclosed]
  exact Nat.succ_le_succ (Nat.zero_le _)

/-! ### What happens in a call -/

/-- The time that a call of the runner takes, cut off at the limit. -/
def took (c : Controls) (t : Timed) : Nat := min t.duration c.timeout.toNat

/-- A stretch of a call, with the time that it takes. -/
inductive Span
  | attempt (time : Nat)
  | wait (time : Nat)
  deriving DecidableEq

/-- The session after a stretch. -/
def Span.next (g : Graph) (s : Session) : Span → Session
  | .attempt time => { s with calls := s.calls ++ [.run g], clock := s.clock + time }
  | .wait time => { s with clock := s.clock + time }

/-- Some attempts one after the other, with a wait behind each of the first `pauses`. -/
def spansOf (tries pauses : Nat) (time wait : Nat → Nat) : List Span :=
  (List.range tries).flatMap fun i =>
    .attempt (time i) :: if i < pauses then [.wait (wait i)] else []

lemma spansOf_succ (tries pauses : Nat) (time wait : Nat → Nat) :
    spansOf (tries + 1) pauses time wait =
      .attempt (time 0) :: ((if 0 < pauses then [.wait (wait 0)] else []) ++
        spansOf tries (pauses - 1) (fun i => time (i + 1)) fun i => wait (i + 1)) := by
  have hlt : ∀ i, i + 1 < pauses ↔ i < pauses - 1 := fun i => by omega
  unfold spansOf
  simp only [List.range_succ_eq_map, List.flatMap_cons, List.flatMap_map, hlt, List.cons_append]

lemma spansOf_congr {tries pauses : Nat} {time wait wait' : Nat → Nat}
    (h : ∀ i < pauses, wait i = wait' i) :
    spansOf tries pauses time wait = spansOf tries pauses time wait' := by
  unfold spansOf
  refine congrArg List.flatten (List.map_congr_left fun i _ => ?_)
  split
  · next hi => rw [h i hi]
  · rfl

/-- The number of waits of a call that may make `left` attempts: there is one behind each fault of the
runner, but none behind the last attempt that may be made. -/
def waitsOf (left : Nat) (l : List Attempt) : Nat :=
  min (left - 1) (l.countP fun a => faulty a.outcome)

/-- Behind a fault there is a wait if another attempt may be made. -/
lemma waitsOf_cons {a : Attempt} (h : faulty a.outcome = true) (left : Nat) (l : List Attempt) :
    (0 < waitsOf (left + 1) (a :: l) ↔ left ≠ 0) ∧
      waitsOf (left + 1) (a :: l) - 1 = waitsOf left l := by
  have hcount : (a :: l).countP (fun a => faulty a.outcome) =
      l.countP (fun a => faulty a.outcome) + 1 := List.countP_cons_of_pos h
  unfold waitsOf
  rw [hcount]
  omega

lemma after_attemptRun (c : Controls) (runner : Runner) (g : Graph) (s : Session) :
    s.after (attemptRun c runner g) =
      Span.next g s (.attempt (took c (runner (s.callsOf .runner + 1) g))) := by
  unfold attemptRun took
  simp only [answer_note, after_bind, after_note, Call.collaborator]
  split
  · next h => simp [Span.next, Nat.min_eq_left h]
  · next h => simp [Span.next, Nat.min_eq_right (Nat.le_of_not_le h)]

lemma after_pause (left n : Nat) (s : Session) :
    s.after (pause c left n) =
      (if left = 0 then [] else [.wait (c.delay n).toNat]).foldl (Span.next g) s := by
  unfold pause
  split
  · rw [after_pure, List.foldl_nil]
  · rw [after_pass, List.foldl_cons, List.foldl_nil, Span.next]

/-- **What the attempts leave behind**: nothing happens but them and the waits. -/
lemma after_attemptFrom (c : Controls) (runner : Runner) (g : Graph) (left n : Nat) (last : String)
    (b : Breaker) (s : Session) :
    s.after (attemptFrom c runner g left n last b) =
      (spansOf (attemptsFrom c runner g left (s.callsOf .runner + 1) b).length
        (waitsOf left (attemptsFrom c runner g left (s.callsOf .runner + 1) b))
        (fun i => took c (runner (s.callsOf .runner + 1 + i) g))
        fun i => (c.delay (n + i)).toNat).foldl (Span.next g) s := by
  induction left generalizing n last b s with
  | zero =>
    rw [attemptFrom, attemptsFrom, after_pure]
    rfl
  | succ left ih =>
    rw [attemptFrom_succ, attemptsFrom]
    by_cases hopen : b.isOpen c.threshold = true
    · rw [if_pos hopen, if_pos hopen, after_pure]
      rfl
    rw [if_neg hopen, if_neg hopen]
    obtain ⟨hanswer, hcalls⟩ := attemptRun_spec c runner g s
    have hafter := after_attemptRun c runner g s
    dsimp only
    generalize cutOff c (runner (s.callsOf .runner + 1) g) = x at hanswer
    by_cases hx : faulty x = true
    · -- the stretches that follow are those of the session after the wait
      generalize hu : (s.after (attemptRun c runner g)).after (pause c left n) = u
      have hcount : u.callsOf .runner = s.callsOf .runner + 1 := by
        rw [callsOf, ← hu, calls_pause, hcalls, List.countP_append]
        rfl
      have hrest := ih (n + 1) (reasonOf x) (b.record x) u
      rw [hcount] at hrest
      rw [after_bind, hanswer, if_pos hx, if_pos hx, after_bind, hu, hrest, List.length_cons,
        spansOf_succ, List.foldl_cons, ← hafter, List.foldl_append]
      obtain ⟨hwaits, hless⟩ := waitsOf_cons (a := ⟨b, x⟩) hx left
        (attemptsFrom c runner g left (s.callsOf .runner + 1 + 1) (b.record x))
      rw [hless, ← hu, after_pause (g := g)]
      simp only [hwaits, Nat.add_zero, ite_not, Nat.add_assoc, Nat.add_comm 1]
    · rw [after_bind, hanswer, if_neg hx, if_neg hx, after_pure, hafter]
      have hnone : waitsOf (left + 1) [⟨b, x⟩] = 0 := by simp [waitsOf, hx]
      rw [hnone, List.length_singleton, spansOf_succ]
      rfl

/-! ### Calls -/

/-- How a call leaves a session behind. -/
def leaves (c : Controls) (runner : Runner) (g : Graph) (b : Breaker) (s : Session) : Session :=
  s.after (execute c runner g b)

/-- How often a call calls the runner. -/
def triesOf (c : Controls) (runner : Runner) (g : Graph) (b : Breaker) (s : Session) : Nat :=
  (leaves c runner g b s).callsOf .runner - s.callsOf .runner

/-- What the runner answers when a call calls it for the `i`-th time, counted from zero. -/
def answerTo (runner : Runner) (g : Graph) (s : Session) (i : Nat) : Timed :=
  runner (s.callsOf .runner + 1 + i) g

/-- After how many attempts a call waits: after those that are faults of the runner, but not after the
last one that the number of retries allows. -/
def pausesOf (c : Controls) (runner : Runner) (g : Graph) (b : Breaker) (s : Session) : Nat :=
  min c.retries.toNat ((List.range (triesOf c runner g b s)).countP fun i =>
    faulty (cutOff c (answerTo runner g s i)))

/-- The stretches of a call that waits so long after its attempts. -/
def courseWith (wait : Nat → Nat) (c : Controls) (runner : Runner) (g : Graph) (b : Breaker)
    (s : Session) : List Span :=
  spansOf (triesOf c runner g b s) (pausesOf c runner g b s)
    (fun i => took c (answerTo runner g s i)) wait

/-- What a configuration promises of a call, in whole numbers. The attempts are counted from zero: the
wait after the first one is the base. -/
structure Promised (c : Controls) (runner : Runner) (g : Graph) (b : Breaker) (s : Session) : Prop where
  tried : ¬ b.isOpen c.threshold = true → 1 ≤ triesOf c runner g b s
  bounded : triesOf c runner g b s ≤ c.retries.toNat + 1
  paced : leaves c runner g b s =
    (courseWith (fun i => c.backoff.toNat * 2 ^ i) c runner g b s).foldl (Span.next g) s
  attempts_le : c.retries.toNat + 1 ≤ Word.greatest32
  power_le : ∀ i < pausesOf c runner g b s, 2 ^ i ≤ Word.greatest64
  wait_le : ∀ i < pausesOf c runner g b s, c.backoff.toNat * 2 ^ i ≤ Word.greatest64

/-- What becomes of a call under any configuration. -/
structure CarriedOut (c : Controls) (runner : Runner) (g : Graph) (b : Breaker) (s : Session) : Prop where
  idle : ¬ c.retries.toNat < Word.greatest32 →
    s.answer (execute c runner g b) = (.error (.execution 0 ""), b) ∧ leaves c runner g b s = s
  tried : c.retries.toNat < Word.greatest32 → ¬ b.isOpen c.threshold = true →
    1 ≤ triesOf c runner g b s
  bounded : triesOf c runner g b s ≤ c.retries.toNat + 1
  paced : leaves c runner g b s =
    (courseWith (fun i => c.backoff.toNat * 2 ^ i % 2 ^ 64) c runner g b s).foldl (Span.next g) s

/-- After how many attempts a call may have to wait. -/
def mostPauses (c : Controls) (b : Breaker) : Nat :=
  min c.retries.toNat (c.threshold.toNat - b.failures.toNat)

/-- The number of attempts and the longest wait are words. -/
structure WithinWords (c : Controls) (b : Breaker) : Prop where
  attempts : c.retries.toNat < Word.greatest32
  pauses : mostPauses c b ≤ 64
  longest : c.backoff.toNat * 2 ^ (mostPauses c b - 1) ≤ Word.greatest64

/-! ### What becomes of a call -/

section Calls

variable (c : Controls) (runner : Runner) (g : Graph) (b : Breaker) (s : Session)

/-- The attempts of a call. -/
def tried : List Attempt := attemptsFrom c runner g c.attempts.toNat (s.callsOf .runner + 1) b

lemma triesOf_eq : triesOf c runner g b s = (tried c runner g b s).length := by
  have hcalls := (performs_attemptFrom c runner g c.attempts.toNat 1 "" b s).calls
  have hruns : ∀ n, (List.replicate n (Call.run g)).countP (fun k => k.collaborator == .runner) = n :=
    fun n => by simp [List.countP_replicate, Call.collaborator]
  unfold triesOf leaves callsOf execute
  rw [hcalls, List.countP_append, hruns, Nat.add_sub_cancel_left]
  rfl

lemma countP_tried : (tried c runner g b s).countP (fun a => faulty a.outcome) =
    (List.range (triesOf c runner g b s)).countP fun i =>
      faulty (cutOff c (answerTo runner g s i)) := by
  have houtcomes := outcomes_attemptsFrom c runner g c.attempts.toNat (s.callsOf .runner + 1) b
  rw [List.range'_eq_map_range, List.map_map] at houtcomes
  calc (tried c runner g b s).countP (fun a => faulty a.outcome)
      = ((tried c runner g b s).map Attempt.outcome).countP faulty := by
        rw [List.countP_map]
        rfl
    _ = ((List.range (tried c runner g b s).length).map fun i =>
          cutOff c (answerTo runner g s i)).countP faulty := congrArg _ houtcomes
    _ = _ := by
        rw [List.countP_map, triesOf_eq]
        rfl

lemma pausesOf_eq : pausesOf c runner g b s = waitsOf c.attempts.toNat (tried c runner g b s) := by
  unfold pausesOf waitsOf
  rw [← countP_tried]
  by_cases h : c.retries.toNat < Word.greatest32
  · rw [attempts_eq h, Nat.add_sub_cancel]
  · have hnone : tried c runner g b s = [] := by
      rw [tried, attempts_greatest h]
      rfl
    rw [hnone, List.countP_nil, Nat.min_zero, Nat.min_zero]

/-- **Under any configuration** a call does this; with the greatest number of retries it does nothing. -/
theorem carriedOut : CarriedOut c runner g b s where
  idle h := by
    unfold leaves execute
    rw [attempts_greatest h, attemptFrom, answer_pure, after_pure, attempts_greatest h]
    exact ⟨rfl, rfl⟩
  tried h hclosed := by
    rw [triesOf_eq, tried, attempts_eq h]
    exact one_le_length_attemptsFrom (Nat.succ_ne_zero _) _ hclosed
  bounded := by
    have hle := length_attemptsFrom_le c runner g c.attempts.toNat
      (s.callsOf .runner + 1) b
    rw [triesOf_eq, tried]
    by_cases h : c.retries.toNat < Word.greatest32
    · rw [attempts_eq h] at hle ⊢
      omega
    · rw [attempts_greatest h] at hle ⊢
      omega
  paced := by
    have hafter := after_attemptFrom c runner g c.attempts.toNat 1 "" b s
    rw [← tried, ← triesOf_eq, ← pausesOf_eq] at hafter
    simp only [Nat.add_comm 1, toNat_delay] at hafter
    exact hafter

/-- No call waits more often than the retries and the breaker let it. -/
lemma pausesOf_le : pausesOf c runner g b s ≤ mostPauses c b := by
  have hle := length_attemptsFrom_le c runner g c.attempts.toNat
    (s.callsOf .runner + 1) b
  have hfaults := List.countP_le_length (p := fun i => faulty (cutOff c (answerTo runner g s i)))
    (l := List.range (triesOf c runner g b s))
  rw [List.length_range, triesOf_eq, tried] at hfaults
  unfold pausesOf mostPauses
  rw [triesOf_eq, tried]
  omega

end Calls

lemma WithinWords.promised (h : WithinWords c b) (runner : Runner) (g : Graph) (s : Session) :
    Promised c runner g b s := by
  have hcarried := carriedOut c runner g b s
  have hbefore : ∀ i < pausesOf c runner g b s, i ≤ mostPauses c b - 1 ∧ i < 64 := fun i hi => by
    have hle := pausesOf_le c runner g b s
    have hmost := h.pauses
    omega
  have hwait : ∀ i < pausesOf c runner g b s, c.backoff.toNat * 2 ^ i ≤ Word.greatest64 :=
    fun i hi => calc
      c.backoff.toNat * 2 ^ i ≤ c.backoff.toNat * 2 ^ (mostPauses c b - 1) :=
        Nat.mul_le_mul_left _ (Nat.pow_le_pow_right (by decide) (hbefore i hi).1)
      _ ≤ Word.greatest64 := h.longest
  refine ⟨hcarried.tried h.attempts, hcarried.bounded, ?_, h.attempts, fun i hi => ?_, hwait⟩
  · rw [hcarried.paced]
    refine congrArg (List.foldl _ s) (spansOf_congr fun i hi => Nat.mod_eq_of_lt ?_)
    exact Nat.lt_succ_of_le (hwait i hi)
  · calc 2 ^ i ≤ 2 ^ 63 := Nat.pow_le_pow_right (by decide) (Nat.le_of_lt_succ (hbefore i hi).2)
      _ ≤ Word.greatest64 := by decide

/-! ### A runner that always fails -/

/-- A graph without modules. -/
def loneGraph : Graph := ⟨"pw:entry", ∅, ∅⟩

/-- The runner fails at once, each time. -/
def stuck : Runner := fun _ _ => { result := .error (.inputOutput "broken pipe") }

lemma faulty_stuck (c : Controls) (n : Nat) (g : Graph) : faulty (cutOff c (stuck n g)) = true := by
  unfold cutOff stuck
  rw [if_pos (Nat.zero_le _)]
  rfl

/-- Then nothing but the retries and the breaker ends a call. -/
lemma length_attemptsFrom_stuck (left k : Nat) (b : Breaker) :
    (attemptsFrom c stuck g left k b).length = min left (c.threshold.toNat - b.failures.toNat) := by
  induction left generalizing k b with
  | zero => exact (Nat.zero_min _).symm
  | succ left ih =>
    rw [attemptsFrom]
    split
    · next hopen =>
      have hle := isOpen_iff.1 hopen
      rw [List.length_nil]
      omega
    · next hopen =>
      have hlt := mt isOpen_iff.2 hopen
      have hx := faulty_stuck c k g
      dsimp only
      rw [if_pos hx, List.length_cons, ih, failures_record hopen hx]
      omega

lemma pausesOf_stuck (h : c.retries.toNat < Word.greatest32) (b : Breaker) (s : Session) :
    pausesOf c stuck g b s = mostPauses c b := by
  have hall : ∀ i ∈ List.range (triesOf c stuck g b s),
      faulty (cutOff c (answerTo stuck g s i)) = true := fun i _ => faulty_stuck c _ g
  unfold pausesOf mostPauses
  rw [List.countP_eq_length.2 hall, List.length_range, triesOf_eq, tried, length_attemptsFrom_stuck,
    attempts_eq h]
  omega

lemma withinWords_of_promised (h : Promised c stuck g b s) : WithinWords c b := by
  have hretries : c.retries.toNat < Word.greatest32 := h.attempts_le
  have hpower := h.power_le
  have hwait := h.wait_le
  rw [pausesOf_stuck hretries] at hpower hwait
  rcases Nat.eq_zero_or_pos (mostPauses c b) with hnone | hpos
  · refine ⟨hretries, by omega, ?_⟩
    rw [hnone, Nat.zero_sub, Nat.pow_zero, Nat.mul_one]
    exact Nat.le_of_lt_succ (UInt64.toNat_lt c.backoff)
  · refine ⟨hretries, ?_, hwait _ (by omega)⟩
    by_contra hmany
    have hbig : (2 : Nat) ^ 64 ≤ 2 ^ (mostPauses c b - 1) :=
      Nat.pow_le_pow_right (by decide) (by omega)
    have hword : (2 : Nat) ^ 64 ≤ Word.greatest64 := Nat.le_trans hbig (hpower _ (by omega))
    exact absurd hword (by decide)

/-! ### The arithmetic of the controls -/

/-- The longest wait is half of what a word can hold. -/
def patient : Controls := { retries := 64, backoff := 1, threshold := 4294967295 }

/-- The wait after the next attempt would be none at all. -/
example : (patient.delay 65).toNat = 0 := by decide

/-- The greatest number of retries. -/
def endless : Controls := { retries := 4294967295 }

/-- A runner that works. -/
def working : Runner := fun _ _ => { result := .ok { html := "<main></main>" } }

end Mender.Preview
