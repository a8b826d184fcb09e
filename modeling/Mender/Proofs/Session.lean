import Mathlib.Tactic.Common
import Mathlib.Tactic.Lemma
import Mender.Session

/-!
What a computation answers in a session, and what it does to the session.

Many computations only make calls of certain collaborators, and leave the counters and the
store alone; this passes from the parts of a computation to the whole.
-/

namespace Mender.Session

variable {α β γ δ : Type}

def answer (s : Session) (m : Run α) : α := (m s).1

/-- The session that a computation leaves behind. -/
def after (s : Session) (m : Run α) : Session := (m s).2

section Laws

variable (s : Session)

@[simp] lemma answer_pure (a : α) : s.answer (pure a) = a := (rfl)
@[simp] lemma after_pure (a : α) : s.after (pure a) = s := (rfl)
@[simp] lemma answer_bind (m : Run α) (f : α → Run β) :
    s.answer (m >>= f) = (s.after m).answer (f (s.answer m)) := (rfl)
@[simp] lemma after_bind (m : Run α) (f : α → Run β) :
    s.after (m >>= f) = (s.after m).after (f (s.answer m)) := (rfl)
@[simp] lemma answer_map (f : α → β) (m : Run α) : s.answer (f <$> m) = f (s.answer m) := (rfl)
@[simp] lemma after_map (f : α → β) (m : Run α) : s.after (f <$> m) = s.after m := (rfl)
@[simp] lemma answer_get : s.answer get = s := (rfl)
@[simp] lemma after_get : s.after get = s := (rfl)
@[simp] lemma after_modify (f : Session → Session) : s.after (modify f) = f s := (rfl)
@[simp] lemma answer_note (c : Call) : s.answer (note c) = s.callsOf c.collaborator + 1 := by
  have h : s.answer (note c) = Session.callsOf c.collaborator { s with calls := s.calls ++ [c] } :=
    rfl
  rw [h]
  simp [callsOf]
@[simp] lemma after_note (c : Call) : s.after (note c) = { s with calls := s.calls ++ [c] } := (rfl)
@[simp] lemma after_count (f : Metrics → Metrics) :
    s.after (count f) = { s with metrics := f s.metrics } := (rfl)
@[simp] lemma after_pass (n : Nat) : s.after (pass n) = { s with clock := s.clock + n } := (rfl)

/-- Two computations are one if they do the same in every session. -/
lemma run_ext {m m' : Run α}
    (h : ∀ s : Session, s.answer m = s.answer m' ∧ s.after m = s.after m') : m = m' := by
  funext s
  exact Prod.ext (h s).1 (h s).2

end Laws

/-! ### Calls -/

/-- How many of some calls go to a collaborator. -/
def callsTo (k : Collaborator) (l : List Call) : Nat := l.countP fun c => c.collaborator == k

@[simp] lemma callsTo_nil (k : Collaborator) : callsTo k [] = 0 := rfl

@[simp] lemma callsTo_cons (k : Collaborator) (c : Call) (l : List Call) :
    callsTo k (c :: l) = callsTo k l + if c.collaborator = k then 1 else 0 := by
  simp [callsTo, List.countP_cons]

@[simp] lemma callsTo_append (k : Collaborator) (l l' : List Call) :
    callsTo k (l ++ l') = callsTo k l + callsTo k l' := List.countP_append

lemma callsTo_eq_zero {k : Collaborator} {l : List Call} (h : ∀ c ∈ l, c.collaborator ≠ k) :
    callsTo k l = 0 := by
  simpa [callsTo, List.countP_eq_zero] using h

/-- The second session has the calls of the first and further ones, which satisfy `p`, and
agrees with it on `part`. -/
structure Extends (p : Call → Prop) (part : Session → γ) (s t : Session) : Prop where
  calls : ∃ l, t.calls = s.calls ++ l ∧ ∀ c ∈ l, p c
  same : part t = part s

lemma Extends.trans {p : Call → Prop} {part : Session → γ} {s t u : Session}
    (h : Extends p part s t) (h' : Extends p part t u) : Extends p part s u := by
  obtain ⟨l, hl, hp⟩ := h.calls
  obtain ⟨l', hl', hp'⟩ := h'.calls
  refine ⟨⟨l ++ l', ?_, ?_⟩, h'.same.trans h.same⟩
  · rw [hl', hl, List.append_assoc]
  · intro c hc
    rcases List.mem_append.1 hc with hc | hc
    · exact hp c hc
    · exact hp' c hc

/-- A computation whose calls satisfy `p`, and that leaves `part` of the session as it is. -/
def Makes (p : Call → Prop) (part : Session → γ) (m : Run α) : Prop :=
  ∀ s : Session, Extends p part s (s.after m)

namespace Makes

variable {p : Call → Prop} {part : Session → γ} {m : Run α} {f : α → Run β}

lemma pure (a : α) : Makes p part (pure a) := fun _ => ⟨⟨[], by simp, by simp⟩, rfl⟩

lemma get : Makes p part get := fun _ => ⟨⟨[], by simp, by simp⟩, rfl⟩

lemma bind (hm : Makes p part m) (hf : ∀ a, Makes p part (f a)) : Makes p part (m >>= f) :=
  fun s => (hm s).trans (hf (s.answer m) (s.after m))

lemma mono {q : Call → Prop} {rest : Session → δ} (hm : Makes p part m) (h : ∀ c, p c → q c)
    (hr : ∀ s t, part t = part s → rest t = rest s) : Makes q rest m := by
  intro s
  obtain ⟨l, hl, hp⟩ := (hm s).calls
  exact ⟨⟨l, hl, fun c hc => h c (hp c hc)⟩, hr _ _ (hm s).same⟩

lemma note {c : Call} (h : p c)
    (hp : ∀ s : Session, part { s with calls := s.calls ++ [c] } = part s) :
    Makes p part (Session.note c) :=
  fun s => ⟨⟨[c], by simp, by simpa using h⟩, hp s⟩

/-- A change that concerns neither the calls nor `part`. -/
lemma modify {g : Session → Session} (hc : ∀ s, (g s).calls = s.calls)
    (hp : ∀ s, part (g s) = part s) : Makes p part (modify g) :=
  fun s => ⟨⟨[], by simp [hc], by simp⟩, hp s⟩

end Makes

-- a computation is taken apart by the laws above, never by running it
attribute [irreducible] answer after

end Mender.Session
