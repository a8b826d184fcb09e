import Mathlib.Data.List.Basic
import Mender.Preview.Sandbox
import Mender.Proofs.Session

/-!
The breaker of a sandbox, over all that the sandbox is asked to render.

Its count is that of the failing attempts since the last one that did not fail. Attempts are made while
the count is below the threshold; once it is not, no call makes another one.
-/

namespace Mender.Preview

open Session Mender.Module

/-! ### How attempts end -/

/-- The answer of a runner, cut off at the limit. -/
def cutOff (c : Controls) (t : Timed) : Except Fault Rendered :=
  if t.duration ≤ c.timeout.toNat then t.result else .error (.timedOut c.timeout.toNat)

/-- The attempt counts as a failure. A module that throws shows that the runner works. -/
def failing : Except Fault Rendered → Bool
  | .ok _ | .error (.evaluation _) => false
  | .error _ => true

/-- A fault of the runner, after which another attempt may help. -/
def faulty : Except Fault Rendered → Bool
  | .ok _ => false
  | .error f => isRunnerFault f

def reasonOf : Except Fault Rendered → String
  | .ok _ => ""
  | .error f => f.message

/-- The failing attempts since the last one that did not fail. -/
def failuresIn (l : List (Except Fault Rendered)) : Nat := (l.reverse.takeWhile failing).length

lemma failuresIn_concat (l : List (Except Fault Rendered)) (x : Except Fault Rendered) :
    failuresIn (l ++ [x]) = if failing x then failuresIn l + 1 else 0 := by
  unfold failuresIn
  rw [List.reverse_concat, List.takeWhile_cons]
  split <;> rfl

/-- The breaker after an attempt that ended so. -/
def Breaker.record (b : Breaker) (x : Except Fault Rendered) : Breaker :=
  if failing x then b.fail else b.succeed

/-! ### The attempts of a call -/

/-- An attempt, with the breaker as it was found. -/
structure Attempt where
  breaker : Breaker
  outcome : Except Fault Rendered

section Attempts

variable (c : Controls) (runner : Runner) (g : Graph)

/-- The attempts that a call makes, `left` of them at most, the first one being the `k`-th call of the
runner. -/
def attemptsFrom : (left k : Nat) → Breaker → List Attempt
  | 0, _, _ => []
  | left + 1, k, b =>
    if b.isOpen c.threshold then []
    else
      let x := cutOff c (runner k g)
      ⟨b, x⟩ :: if faulty x then attemptsFrom left (k + 1) (b.record x) else []

lemma attemptRun_spec (s : Session) :
    s.answer (attemptRun c runner g) = cutOff c (runner (s.callsOf .runner + 1) g) ∧
      (s.after (attemptRun c runner g)).calls = s.calls ++ [.run g] := by
  unfold attemptRun cutOff
  simp only [answer_bind, answer_note, after_bind, after_note, Call.collaborator]
  split
  · simp only [answer_bind, answer_pure, after_bind, after_pass, after_pure, and_self]
  · simp only [answer_bind, answer_pure, after_bind, after_pass, after_pure, and_self]

/-- The wait after an attempt, unless it was the last one. -/
def pause (left n : Nat) : Run Unit :=
  if left = 0 then pure () else Session.pass (c.delay n).toNat

lemma calls_pause (left n : Nat) (s : Session) : (s.after (pause c left n)).calls = s.calls := by
  unfold pause
  split
  · rw [after_pure]
  · rw [after_pass]

lemma attemptFrom_succ (left n : Nat) (last : String) (b : Breaker) :
    attemptFrom c runner g (left + 1) n last b =
      if b.isOpen c.threshold then
        pure (.error (.breakerOpen b.failures.toNat c.threshold.toNat), b)
      else do
        let x ← attemptRun c runner g
        if faulty x then
          pause c left n
          attemptFrom c runner g left (n + 1) (reasonOf x) (b.record x)
        else return (x, b.record x) := by
  have hpause : ∀ m : Run (Except Fault Rendered × Breaker),
      (do unless left = 0 do Session.pass (c.delay n).toNat
          m) = pause c left n >>= fun _ => m := by
    intro m
    unfold pause
    split <;> rfl
  rw [attemptFrom]
  split
  · rfl
  · refine bind_congr fun x => ?_
    cases x with
    | ok m => rfl
    | error f => cases f <;> first | rfl | exact hpause _

/-- How a call ends whose attempts were these, `left` of which it might make: with the first outcome
that is no fault of the runner, or because the breaker has opened, or because all have failed. -/
inductive Concludes (left : Nat) (last : String) (b : Breaker) :
    List Attempt → Except Fault Rendered → Prop
  | settled {faults : List Attempt} {a : Attempt} (hfaults : ∀ f ∈ faults, faulty f.outcome = true)
      (hleft : faults.length < left) (ha : faulty a.outcome = false) :
      Concludes left last b (faults ++ [a]) a.outcome
  | opened {faults : List Attempt} (hfaults : ∀ f ∈ faults, faulty f.outcome = true)
      (hleft : faults.length < left) (hopen : b.isOpen c.threshold = true) :
      Concludes left last b faults (.error (.breakerOpen b.failures.toNat c.threshold.toNat))
  | exhausted {faults : List Attempt} (hfaults : ∀ f ∈ faults, faulty f.outcome = true)
      (hleft : faults.length = left) :
      Concludes left last b faults (.error (.execution c.attempts.toNat
        ((faults.getLast?.map fun f => reasonOf f.outcome).getD last)))

variable {c}

lemma Concludes.length_le {left : Nat} {last : String} {b : Breaker} {l : List Attempt}
    {x : Except Fault Rendered} (h : Concludes c left last b l x) : l.length ≤ left := by
  cases h with
  | settled _ hleft _ => rw [List.length_append]; exact hleft
  | opened _ hleft _ => exact Nat.le_of_lt hleft
  | exhausted _ hleft => exact Nat.le_of_eq hleft

/-- One more fault before the others. -/
lemma Concludes.cons {left : Nat} {last : String} {b : Breaker} {l : List Attempt}
    {x : Except Fault Rendered} {a : Attempt} (h : Concludes c left (reasonOf a.outcome) b l x)
    (ha : faulty a.outcome = true) : Concludes c (left + 1) last b (a :: l) x := by
  have hcons : ∀ {faults : List Attempt}, (∀ f ∈ faults, faulty f.outcome = true) →
      ∀ f ∈ a :: faults, faulty f.outcome = true :=
    fun hfaults => List.forall_mem_cons.2 ⟨ha, hfaults⟩
  cases h with
  | settled hfaults hleft hlast => exact .settled (hcons hfaults) (Nat.succ_lt_succ hleft) hlast
  | opened hfaults hleft hopen => exact .opened (hcons hfaults) (Nat.succ_lt_succ hleft) hopen
  | exhausted hfaults hleft =>
    have hreason : ((l.getLast?.map fun f => reasonOf f.outcome).getD (reasonOf a.outcome)) =
        (((a :: l).getLast?.map fun f => reasonOf f.outcome).getD last) := by
      rw [List.getLast?_cons]
      cases l.getLast? <;> rfl
    rw [hreason]
    exact .exhausted (hcons hfaults) (congrArg Nat.succ hleft)

variable (c)

/-- From the session `s` the computation makes these attempts, and concludes as it follows from them. -/
structure Performs (left : Nat) (last : String) (b : Breaker) (s : Session)
    (m : Run (Except Fault Rendered × Breaker)) (l : List Attempt) : Prop where
  calls : (s.after m).calls = s.calls ++ List.replicate l.length (.run g)
  breaker : (s.answer m).2 = l.foldl (fun b a => b.record a.outcome) b
  concludes : Concludes c left last (s.answer m).2 l (s.answer m).1

variable {c g} in
/-- No attempt is made. -/
lemma Performs.idle {left : Nat} {last : String} {b : Breaker} {s : Session}
    {x : Except Fault Rendered} (h : Concludes c left last b [] x) :
    Performs c g left last b s (pure (x, b)) [] where
  calls := by rw [after_pure]; exact (List.append_nil _).symm
  breaker := by rw [answer_pure]; rfl
  concludes := by rwa [answer_pure]

lemma performs_attemptFrom (left n : Nat) (last : String) (b : Breaker) (s : Session) :
    Performs c g left last b s (attemptFrom c runner g left n last b)
      (attemptsFrom c runner g left (s.callsOf .runner + 1) b) := by
  induction left generalizing n last b s with
  | zero =>
    rw [attemptFrom, attemptsFrom]
    exact .idle (.exhausted (List.forall_mem_nil _) rfl)
  | succ left ih =>
    rw [attemptFrom_succ, attemptsFrom]
    by_cases hopen : b.isOpen c.threshold = true
    · rw [if_pos hopen, if_pos hopen]
      exact .idle (.opened (List.forall_mem_nil _) (Nat.zero_lt_succ left) hopen)
    rw [if_neg hopen, if_neg hopen]
    obtain ⟨hanswer, hcalls⟩ := attemptRun_spec c runner g s
    generalize cutOff c (runner (s.callsOf .runner + 1) g) = x at hanswer
    by_cases hx : faulty x = true
    · -- the attempts that follow are those of the session after the wait
      generalize hu : (s.after (attemptRun c runner g)).after (pause c left n) = u
      have hcalls' : u.calls = s.calls ++ [.run g] := by rw [← hu, calls_pause, hcalls]
      have hcount : u.callsOf .runner = s.callsOf .runner + 1 := by
        rw [callsOf, hcalls', List.countP_append]
        rfl
      have hrest := ih (n + 1) (reasonOf x) (b.record x) u
      rw [hcount] at hrest
      dsimp only
      rw [if_pos hx]
      constructor
      · rw [after_bind, hanswer, if_pos hx, after_bind, hu, hrest.calls, hcalls', List.append_assoc]
        rfl
      · rw [answer_bind, hanswer, if_pos hx, answer_bind, hu, hrest.breaker]
        rfl
      · rw [answer_bind, hanswer, if_pos hx, answer_bind, hu]
        exact hrest.concludes.cons (a := ⟨b, x⟩) hx
    · dsimp only
      rw [if_neg hx]
      constructor
      · rw [after_bind, hanswer, if_neg hx, after_pure, hcalls]
        rfl
      · rw [answer_bind, hanswer, if_neg hx, answer_pure]
        rfl
      · rw [answer_bind, hanswer, if_neg hx, answer_pure]
        have hsettled : Concludes c (left + 1) last (b.record x) ([] ++ [⟨b, x⟩]) x :=
          .settled (List.forall_mem_nil _) (Nat.zero_lt_succ left) (by simpa using hx)
        exact hsettled

/-- The outcomes are what the runner answers, call by call. -/
lemma outcomes_attemptsFrom (left k : Nat) (b : Breaker) :
    (attemptsFrom c runner g left k b).map Attempt.outcome =
      (List.range' k (attemptsFrom c runner g left k b).length).map fun n =>
        cutOff c (runner n g) := by
  induction left generalizing k b with
  | zero => rfl
  | succ left ih =>
    rw [attemptsFrom]
    split
    · rfl
    · dsimp only
      split
      · rw [List.map_cons, ih, List.length_cons, List.range'_succ, List.map_cons]
      · rfl

end Attempts

/-! ### The count -/

/-- How things stand with a sandbox: its breaker, and all attempts so far. -/
structure Course where
  breaker : Breaker := {}
  attempts : List Attempt := []

/-- The count is that of the failing attempts since the last one that did not fail, and it was so each
time an attempt was made. -/
structure Counted (threshold : UInt32) (x : Course) : Prop where
  count : x.breaker.failures.toNat = failuresIn (x.attempts.map Attempt.outcome)
  bounded : x.breaker.failures ≤ threshold
  found : ∀ earlier a, earlier ++ [a] <+: x.attempts →
    a.breaker.failures.toNat = failuresIn (earlier.map Attempt.outcome) ∧
      a.breaker.failures < threshold

section Counted

variable {threshold : UInt32} {b : Breaker} {past : List Attempt}

lemma counted_start : Counted threshold {} where
  count := rfl
  bounded := by
    rw [UInt32.le_iff_toNat_le]
    exact Nat.zero_le _
  found earlier a h := by
    rw [List.prefix_nil] at h
    exact absurd h (List.append_ne_nil_of_right_ne_nil _ (List.cons_ne_nil _ _))

/-- One more attempt, which finds the breaker closed. -/
lemma Counted.record (h : Counted threshold ⟨b, past⟩) (hclosed : ¬ b.isOpen threshold = true)
    (x : Except Fault Rendered) : Counted threshold ⟨b.record x, past ++ [⟨b, x⟩]⟩ := by
  have hlt : b.failures < threshold := by simpa [Breaker.isOpen] using hclosed
  have hcount : b.failures.toNat = failuresIn (past.map Attempt.outcome) := h.count
  have hmore : (b.failures + 1).toNat = b.failures.toNat + 1 := by
    have hbound := UInt32.toNat_lt threshold
    rw [UInt32.lt_iff_toNat_lt] at hlt
    rw [UInt32.toNat_add]
    exact Nat.mod_eq_of_lt (by change b.failures.toNat + 1 < _; omega)
  refine ⟨?_, ?_, fun earlier a hprefix => ?_⟩
  · rw [List.map_append, List.map_singleton, failuresIn_concat, ← hcount]
    unfold Breaker.record
    split
    · exact hmore
    · rfl
  · unfold Breaker.record
    rw [UInt32.le_iff_toNat_le]
    split
    · rw [UInt32.lt_iff_toNat_lt] at hlt
      exact hmore ▸ hlt
    · exact Nat.zero_le _
  · rcases List.prefix_concat_iff.1 hprefix with heq | hearlier
    · obtain ⟨rfl, hlast⟩ := List.append_inj' heq rfl
      obtain rfl := List.singleton_inj.1 hlast
      exact ⟨hcount, hlt⟩
    · exact h.found earlier a hearlier

/-- The attempts of a call are counted. -/
lemma Counted.attemptsFrom {c : Controls} (h : Counted c.threshold ⟨b, past⟩) (runner : Runner)
    (g : Graph) (left k : Nat) :
    Counted c.threshold
      ⟨(Preview.attemptsFrom c runner g left k b).foldl (fun b a => b.record a.outcome) b,
        past ++ Preview.attemptsFrom c runner g left k b⟩ := by
  induction left generalizing k b past with
  | zero =>
    rw [Preview.attemptsFrom, List.append_nil]
    exact h
  | succ left ih =>
    rw [Preview.attemptsFrom]
    by_cases hopen : b.isOpen c.threshold = true
    · rw [if_pos hopen, List.append_nil]
      exact h
    rw [if_neg hopen]
    have hnext := h.record hopen (cutOff c (runner k g))
    dsimp only
    split
    · rw [List.append_cons]
      exact ih hnext (k + 1)
    · exact hnext

end Counted

/-! ### Calls of a sandbox -/

/-- What a sandbox is asked to render. Every call may come in a session of its own. -/
structure Job where
  session : Session
  compile : LocalCompiler
  code : String
  inputs : Inputs := {}

namespace Job

variable (s : Sandbox) (j : Job)

def run (b : Breaker) : Run (Except Fault Rendered × Breaker) :=
  s.render j.compile j.code j.inputs b

/-- The graph to be run, unless the call is refused before. -/
def graph : Except Fault Graph := j.session.answer (s.graphOf j.compile j.code j.inputs)

/-- The session in which the graph is to be run. -/
def ready : Session := j.session.after (s.graphOf j.compile j.code j.inputs)

/-- The call gets as far as the controls, with this graph. -/
structure Reaches (runner : Runner) (g : Graph) : Prop where
  runner : s.runner = some runner
  graph : j.graph s = .ok g

/-- The attempts that the call makes. -/
def attempts (b : Breaker) : List Attempt :=
  match s.runner, j.graph s with
  | some runner, .ok g => attemptsFrom s.controls runner g s.controls.attempts.toNat
      ((j.ready s).callsOf .runner + 1) b
  | _, _ => []

/-- A call that does not get to the controls: the breaker stays as it is, and nothing is run. -/
structure Refused (b : Breaker) : Prop where
  answer : ∃ e, j.session.answer (j.run s b) = (.error e, b)
  after : j.session.after (j.run s b) = j.session ∨ j.session.after (j.run s b) = j.ready s
  attempts : j.attempts s b = []

/-- A call that gets to the controls: it runs the graph once for each attempt, and no more often than
the controls say, and it concludes as it follows from the outcomes. -/
structure Performed (b : Breaker) (runner : Runner) (g : Graph) : Prop where
  calls : (j.session.after (j.run s b)).calls =
    (j.ready s).calls ++ List.replicate (j.attempts s b).length (.run g)
  outcomes : (j.attempts s b).map Attempt.outcome =
    (List.range' ((j.ready s).callsOf .runner + 1) (j.attempts s b).length).map fun n =>
      cutOff s.controls (runner n g)
  bounded : (j.attempts s b).length ≤ s.controls.retries.toNat + 1
  breaker : (j.session.answer (j.run s b)).2 =
    (j.attempts s b).foldl (fun b a => b.record a.outcome) b
  concludes : Concludes s.controls (s.controls.retries.toNat + 1) ""
    (j.session.answer (j.run s b)).2 (j.attempts s b) (j.session.answer (j.run s b)).1

variable {s j} {b : Breaker} {runner : Runner} {g : Graph}

lemma refused (h : ∀ runner g, ¬ j.Reaches s runner g) : j.Refused s b := by
  cases hr : s.runner with
  | none =>
    have hrun : j.run s b = pure (.error (.unavailable "no module runner configured"), b) := by
      rw [Job.run, Sandbox.render, hr]
    refine ⟨⟨_, by rw [hrun, answer_pure]⟩, .inl (by rw [hrun, after_pure]), ?_⟩
    rw [attempts, hr]
  | some runner =>
    cases hg : j.graph s with
    | ok g => exact absurd ⟨hr, hg⟩ (h runner g)
    | error e =>
      have hanswer : j.session.answer (s.graphOf j.compile j.code j.inputs) = .error e := hg
      refine ⟨⟨e, ?_⟩, .inr ?_, ?_⟩
      · rw [Job.run, Sandbox.render, hr, answer_bind, hanswer, answer_pure]
      · rw [Job.run, Sandbox.render, hr, after_bind, hanswer, after_pure, ready]
      · rw [attempts, hr, hg]

lemma Reaches.run (h : j.Reaches s runner g) (b : Breaker) :
    j.session.answer (j.run s b) = (j.ready s).answer (execute s.controls runner g b) ∧
      j.session.after (j.run s b) = (j.ready s).after (execute s.controls runner g b) := by
  have hanswer : j.session.answer (s.graphOf j.compile j.code j.inputs) = .ok g := h.graph
  unfold Job.run Sandbox.render ready
  rw [h.runner, answer_bind, after_bind, hanswer]
  exact ⟨rfl, rfl⟩

lemma Reaches.attempts (h : j.Reaches s runner g) (b : Breaker) :
    j.attempts s b = attemptsFrom s.controls runner g s.controls.attempts.toNat
      ((j.ready s).callsOf .runner + 1) b := by
  rw [Job.attempts, h.runner, h.graph]

end Job

/-- The number of attempts is a word, which the greatest number of retries would pass. -/
lemma attempts_eq {c : Controls} (h : c.retries.toNat < Word.greatest32) :
    c.attempts.toNat = c.retries.toNat + 1 := by
  unfold Word.greatest32 at h
  rw [Controls.attempts, UInt32.toNat_add]
  exact Nat.mod_eq_of_lt (by change c.retries.toNat + 1 < _; omega)

lemma Job.Reaches.performed {s : Sandbox} {j : Job} {runner : Runner} {g : Graph}
    (h : j.Reaches s runner g) (hretries : s.controls.retries.toNat < Word.greatest32) (b : Breaker) :
    j.Performed s b runner g := by
  obtain ⟨hanswer, hafter⟩ := h.run b
  have hperforms := performs_attemptFrom s.controls runner g s.controls.attempts.toNat 1 "" b (j.ready s)
  have hconcludes := hperforms.concludes
  rw [attempts_eq hretries] at hconcludes
  constructor
  · rw [hafter, h.attempts]
    exact hperforms.calls
  · rw [h.attempts]
    exact outcomes_attemptsFrom s.controls runner g _ _ b
  · rw [h.attempts, attempts_eq hretries]
    exact hconcludes.length_le
  · rw [hanswer, h.attempts]
    exact hperforms.breaker
  · rw [hanswer, h.attempts, execute, attempts_eq hretries]
    exact hconcludes

/-! ### Sequences of calls -/

/-- How things stand after one more call. -/
def Course.next (s : Sandbox) (x : Course) (j : Job) : Course where
  breaker := (j.session.answer (j.run s x.breaker)).2
  attempts := x.attempts ++ j.attempts s x.breaker

/-- How things stand with a new sandbox after these calls. -/
def courseOf (s : Sandbox) (js : List Job) : Course := js.foldl (Course.next s) {}

section Course

variable {s : Sandbox} {x : Course}

lemma Job.Refused.next {j : Job} (h : j.Refused s x.breaker) : x.next s j = x := by
  obtain ⟨e, he⟩ := h.answer
  rw [Course.next, he, h.attempts, List.append_nil]

lemma Counted.next (hretries : s.controls.retries.toNat < Word.greatest32)
    (h : Counted s.controls.threshold x) (j : Job) : Counted s.controls.threshold (x.next s j) := by
  by_cases hreaches : ∃ runner g, j.Reaches s runner g
  · obtain ⟨runner, g, hreaches⟩ := hreaches
    rw [Course.next, (hreaches.performed hretries x.breaker).breaker, hreaches.attempts]
    exact h.attemptsFrom runner g _ _
  · have hrefused : j.Refused s x.breaker :=
      Job.refused fun runner g hg => hreaches ⟨runner, g, hg⟩
    rwa [hrefused.next]

/-- The call of an open breaker. -/
structure Job.Stopped (s : Sandbox) (b : Breaker) (j : Job) : Prop where
  answer : j.session.answer (j.run s b) =
    (.error (.breakerOpen b.failures.toNat s.controls.threshold.toNat), b)
  after : j.session.after (j.run s b) = j.ready s
  attempts : j.attempts s b = []

lemma Job.Reaches.stopped {j : Job} {runner : Runner} {g : Graph} {b : Breaker}
    (h : j.Reaches s runner g) (hretries : s.controls.retries.toNat < Word.greatest32)
    (hopen : b.isOpen s.controls.threshold = true) : j.Stopped s b := by
  obtain ⟨hanswer, hafter⟩ := h.run b
  rw [execute, attempts_eq hretries, attemptFrom_succ, if_pos hopen] at hanswer hafter
  rw [answer_pure] at hanswer
  rw [after_pure] at hafter
  refine ⟨hanswer, hafter, ?_⟩
  rw [h.attempts, attempts_eq hretries, attemptsFrom, if_pos hopen]

/-- Nothing changes an open breaker. -/
lemma next_of_open (hretries : s.controls.retries.toNat < Word.greatest32)
    (hopen : x.breaker.isOpen s.controls.threshold = true) (j : Job) : x.next s j = x := by
  by_cases hreaches : ∃ runner g, j.Reaches s runner g
  · obtain ⟨runner, g, hreaches⟩ := hreaches
    have hstopped := hreaches.stopped hretries hopen
    rw [Course.next, hstopped.answer, hstopped.attempts, List.append_nil]
  · have hrefused : j.Refused s x.breaker :=
      Job.refused fun runner g hg => hreaches ⟨runner, g, hg⟩
    exact hrefused.next

/-- **The breaker over whole runs.** After any calls its count is that of the failing attempts since the
last one that did not fail; it is at most the threshold, and attempts are made below that only. A call
that is refused before leaves it as it is, and any other one stops at the first outcome that is no fault
of the runner. Once the breaker is open, no call runs anything. -/
theorem breaker_over_calls (s : Sandbox) (hretries : s.controls.retries.toNat < Word.greatest32)
    (js : List Job) :
    let x := courseOf s js
    Counted s.controls.threshold x ∧
      (∀ j : Job, (∀ runner g, ¬ j.Reaches s runner g) → j.Refused s x.breaker) ∧
      (∀ (j : Job) runner g, j.Reaches s runner g → j.Performed s x.breaker runner g) ∧
      (s.controls.threshold ≤ x.breaker.failures →
        (∀ later, courseOf s (js ++ later) = x) ∧
          ∀ (j : Job) runner g, j.Reaches s runner g → j.Stopped s x.breaker) := by
  have hcounted : ∀ (js : List Job) {x : Course}, Counted s.controls.threshold x →
      Counted s.controls.threshold (js.foldl (Course.next s) x) := by
    intro js
    induction js with
    | nil => exact id
    | cons j js ih => exact fun h => ih (h.next hretries j)
  refine ⟨hcounted js counted_start, fun j => Job.refused,
    fun j runner g h => h.performed hretries _, fun hopen => ⟨fun later => ?_, fun j runner g h => ?_⟩⟩
  · rw [courseOf, List.foldl_append, ← courseOf]
    generalize courseOf s js = x at hopen
    induction later with
    | nil => rfl
    | cons j later ih =>
      rw [List.foldl_cons, next_of_open hretries (decide_eq_true hopen)]
      exact ih
  · exact h.stopped hretries (decide_eq_true hopen)

end Course

/-! ### A sample -/

/-- The runner fails each time, with two attempts for each call. -/
def faultySandbox : Sandbox where
  runner := some fun _ _ => { result := .error (.inputOutput "broken pipe") }
  controls := { retries := 1, threshold := 3 }

def plainJob : Job where
  session := {}
  compile _ _ := return .error (.unavailable "")
  code := "export const a = 1;"

-- the breaker opens between the two attempts of the second call
theorem breaker_over_calls_faulty :
    faultySandbox.controls.retries.toNat < Word.greatest32 ∧
      (courseOf faultySandbox [plainJob, plainJob]).breaker = ⟨3⟩ ∧
      (courseOf faultySandbox [plainJob, plainJob]).attempts.length = 3 ∧
      ∀ later, courseOf faultySandbox ([plainJob, plainJob] ++ later) =
        courseOf faultySandbox [plainJob, plainJob] := by
  have hretries : faultySandbox.controls.retries.toNat < Word.greatest32 := by decide
  have hbreaker : (courseOf faultySandbox [plainJob, plainJob]).breaker = ⟨3⟩ := by decide +kernel
  have hattempts : (courseOf faultySandbox [plainJob, plainJob]).attempts.length = 3 := by
    decide +kernel
  obtain ⟨-, -, -, hopen⟩ := breaker_over_calls faultySandbox hretries [plainJob, plainJob]
  refine ⟨hretries, hbreaker, hattempts, (hopen ?_).1⟩
  rw [hbreaker]
  decide

end Mender.Preview
