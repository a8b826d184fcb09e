import Mathlib.Logic.Function.Basic
import Mender.Proofs.Coupled

/-!
Two computations that take turns.

A computation is cut into turns, and between two of these the other one may have some of its own. If
each goes by one part of the session only, and leaves the part that the other goes by alone, then it does
not matter who is when at turn: both come to the same as when they are alone.
-/

namespace Mender

open Session Tool

/-- What is left of a computation, one turn after the other. -/
inductive Turns (α : Type) : Type 1
  | done (answer : α)
  | turn {β : Type} (m : Run β) (next : β → Turns α)

namespace Turns

variable {α : Type}

/-- The turns without a break. -/
def whole : Turns α → Run α
  | done a => pure a
  | turn m next => m >>= fun b => (next b).whole

/-- What is left after a turn, with the session then. -/
def advance (s : Session) : Turns α → Turns α × Session
  | done a => (done a, s)
  | turn m next => (next (s.answer m), s.after m)

/-- What is left after `n` turns. -/
def advances : Nat → Turns α → Session → Turns α × Session
  | 0, p, s => (p, s)
  | n + 1, p, s => advances n (p.advance s).1 (p.advance s).2

/-- Something holds of all turns, whatever is answered in those before. -/
def Each (P : ∀ {β : Type}, Run β → Prop) : Turns α → Prop
  | done _ => True
  | turn m next => P m ∧ ∀ b, (next b).Each P

def EndsWithin : Nat → Turns α → Prop
  | _, done _ => True
  | 0, turn _ _ => False
  | n + 1, turn _ next => ∀ b, EndsWithin n (next b)

lemma EndsWithin.mono {n m : Nat} {p : Turns α} (h : p.EndsWithin n) (hn : n ≤ m) : p.EndsWithin m := by
  induction n generalizing p m with
  | zero =>
    cases p with
    | done => cases m <;> trivial
    | turn => exact h.elim
  | succ n ih =>
    cases p with
    | done => cases m <;> trivial
    | turn f next =>
      obtain ⟨k, rfl⟩ := Nat.exists_eq_add_of_le' hn
      exact fun b => ih (h b) (Nat.le_add_left n k)

lemma advances_done (n : Nat) (a : α) (s : Session) : advances n (done a) s = (done a, s) := by
  induction n with
  | zero => rfl
  | succ n ih => rw [advances, advance, ih]

lemma advances_of_ends {n : Nat} {p : Turns α} (h : p.EndsWithin n) (s : Session) :
    advances n p s = (done (s.answer p.whole), s.after p.whole) := by
  induction n generalizing p s with
  | zero =>
    cases p with
    | done a => rw [advances_done, whole, answer_pure, after_pure]
    | turn => exact h.elim
  | succ n ih =>
    cases p with
    | done a => rw [advances_done, whole, answer_pure, after_pure]
    | turn m next => rw [advances, advance, ih (h _), whole, answer_bind, after_bind]

end Turns

/-! ### What a computation goes by -/

section Minds

variable {α β γ δ : Type} {own : Session → γ} {rest : Session → δ}

/-- The answer, and what becomes of `own`, depend on `own` alone; and `rest` stays as it is. -/
def Minds (own : Session → γ) (rest : Session → δ) (m : Run α) : Prop :=
  ∀ s t, own s = own t →
    s.answer m = t.answer m ∧ own (s.after m) = own (t.after m) ∧ rest (s.after m) = rest s

/-- The first session is as the second one in `own`, and has `c` for its `rest`. -/
def AlikeIn (own : Session → γ) (rest : Session → δ) (c : δ) (s t : Session) : Prop :=
  own s = own t ∧ rest s = c

lemma minds_of_steady {m : Run α} (h : ∀ c, Steady (AlikeIn own rest c) m) : Minds own rest m :=
  fun s t hst => h (rest s) s t ⟨hst, rfl⟩

namespace Turns

lemma Each.minds_whole {p : Turns α} (h : p.Each (Minds own rest)) : Minds own rest p.whole := by
  induction p with
  | done a =>
    intro s t hst
    rw [whole, answer_pure, answer_pure, after_pure, after_pure]
    exact ⟨rfl, hst, rfl⟩
  | turn m next ih =>
    intro s t hst
    obtain ⟨hanswer, hown, hrest⟩ := h.1 s t hst
    obtain ⟨hanswer', hown', hrest'⟩ := ih _ (h.2 _) (s.after m) (t.after m) hown
    rw [whole, answer_bind, answer_bind, after_bind, after_bind, ← hanswer]
    exact ⟨hanswer', hown', hrest'.trans hrest⟩

lemma Each.advance {P : ∀ {β : Type}, Run β → Prop} {p : Turns α} (h : p.Each P) (s : Session) :
    (p.advance s).1.Each P := by
  cases p with
  | done => exact h
  | turn m next => exact h.2 _

lemma own_advance {p : Turns α} (h : p.Each (Minds own rest)) {s t : Session} (hst : own s = own t) :
    (p.advance s).1 = (p.advance t).1 ∧ own (p.advance s).2 = own (p.advance t).2 := by
  cases p with
  | done => exact ⟨rfl, hst⟩
  | turn m next =>
    obtain ⟨hanswer, hown, -⟩ := h.1 s t hst
    exact ⟨congrArg next hanswer, hown⟩

lemma rest_advance {p : Turns α} (h : p.Each (Minds own rest)) (s : Session) :
    rest (p.advance s).2 = rest s := by
  cases p with
  | done => rfl
  | turn m next => exact (h.1 s s rfl).2.2

/-- The turns go by `own` alone, however many there are. -/
lemma own_advances {n : Nat} {p : Turns α} (h : p.Each (Minds own rest)) {s t : Session}
    (hst : own s = own t) :
    (advances n p s).1 = (advances n p t).1 ∧ own (advances n p s).2 = own (advances n p t).2 := by
  induction n generalizing p s t with
  | zero => exact ⟨rfl, hst⟩
  | succ n ih =>
    obtain ⟨hleft, hown⟩ := own_advance h hst
    rw [advances, advances, ← hleft]
    exact ih (h.advance s) hown

end Turns

end Minds

/-! ### Two computations -/

/-- Two computations work in one session, except that they may use different toolchains. -/
structure World where
  session : Session
  toolchains : Bool → Toolchain

section Pair

variable (uses : Bool → Bool)

namespace World

/-- The session for one of the two, whose toolchain is the one that it uses. -/
def sessionOf (x : World) (i : Bool) : Session :=
  { x.session with toolchain := x.toolchains (uses i) }

/-- One of the two has left this session. -/
def leave (x : World) (i : Bool) (s : Session) : World where
  session := s
  toolchains := Function.update x.toolchains (uses i) s.toolchain

@[simp] lemma sessionOf_leave (x : World) (i : Bool) (s : Session) :
    (x.leave uses i s).sessionOf uses i = s := by
  unfold sessionOf leave
  dsimp only
  rw [Function.update_self]

/-- One of the two works alone. -/
def perform {α : Type} (x : World) (i : Bool) (m : Run α) : World :=
  x.leave uses i ((x.sessionOf uses i).after m)

end World

/-- Two computations with what is left of them. -/
structure Pair (α : Type) where
  world : World
  turns : Bool → Turns α

namespace Pair

variable {α : Type}

/-- One of the two is at turn. -/
def take (c : Pair α) (i : Bool) : Pair α where
  world := c.world.leave uses i ((c.turns i).advance (c.world.sessionOf uses i)).2
  turns := Function.update c.turns i ((c.turns i).advance (c.world.sessionOf uses i)).1

/-- The two take turns in this order. -/
def run (c : Pair α) (order : List Bool) : Pair α := order.foldl (take uses) c

end Pair

/-- What the one goes by is not affected while the other leaves its `rest` as it is. -/
def Apart {γ : Type} {δ : Bool → Type} (own : Bool → Session → γ) (rest : ∀ i, Session → δ i) :
    Prop :=
  ∀ (x : World) (i : Bool) (s : Session), rest i s = rest i (x.sessionOf uses i) →
    own (!i) ((x.leave uses i s).sessionOf uses (!i)) = own (!i) (x.sessionOf uses (!i))

variable {α γ ε : Type} {δ : Bool → Type} {own : Bool → Session → γ} {rest : ∀ i, Session → δ i}
  (hapart : Apart uses own rest) {c : Pair α}

namespace Pair

lemma each_take (hminds : ∀ i, (c.turns i).Each (Minds (own i) (rest i))) (j i : Bool) :
    ((c.take uses j).turns i).Each (Minds (own i) (rest i)) := by
  unfold take
  dsimp only
  by_cases hi : i = j
  · subst hi
    rw [Function.update_self]
    exact (hminds i).advance _
  · rw [Function.update_of_ne hi]
    exact hminds i

/-- What neither of the two changes stays as it is. -/
lemma run_common {common : Session → ε}
    (hcommon : ∀ (x : World) (i : Bool) (s : Session), rest i s = rest i (x.sessionOf uses i) →
      common s = common x.session)
    (hminds : ∀ i, (c.turns i).Each (Minds (own i) (rest i))) (order : List Bool) :
    common (c.run uses order).world.session = common c.world.session := by
  induction order generalizing c with
  | nil => rfl
  | cons j order ih =>
    have hrest := Turns.rest_advance (hminds j) (c.world.sessionOf uses j)
    exact (ih (each_take uses hminds j)).trans (hcommon c.world j _ hrest)

include hapart

lemma run_alone (hminds : ∀ i, (c.turns i).Each (Minds (own i) (rest i))) (order : List Bool)
    (i : Bool) :
    ((c.run uses order).turns i =
        (Turns.advances (order.count i) (c.turns i) (c.world.sessionOf uses i)).1) ∧
      own i ((c.run uses order).world.sessionOf uses i) =
        own i (Turns.advances (order.count i) (c.turns i) (c.world.sessionOf uses i)).2 := by
  induction order generalizing c with
  | nil => exact ⟨rfl, rfl⟩
  | cons j order ih =>
    obtain ⟨hturns, hown⟩ := ih (each_take uses hminds j)
    rw [show c.run uses (j :: order) = (c.take uses j).run uses order from rfl, hturns, hown]
    by_cases hj : j = i
    · subst hj
      rw [List.count_cons_self, Turns.advances, take]
      dsimp only
      rw [Function.update_self, World.sessionOf_leave]
      exact ⟨rfl, rfl⟩
    · obtain rfl : i = !j := by cases i <;> cases j <;> simp_all
      rw [List.count_cons_of_ne hj, take]
      dsimp only
      rw [Function.update_of_ne (by cases j <;> decide)]
      exact Turns.own_advances (hminds _)
        (hapart c.world j _ (Turns.rest_advance (hminds j) _))

/-- **Two computations that leave each other alone** may take turns in any order: each ends as it would
alone, and does to what it goes by what it would do alone. -/
theorem run_of_ends (hminds : ∀ i, (c.turns i).Each (Minds (own i) (rest i))) {order : List Bool}
    {i : Bool} (hends : (c.turns i).EndsWithin (order.count i)) :
    (c.run uses order).turns i = .done ((c.world.sessionOf uses i).answer (c.turns i).whole) ∧
      own i ((c.run uses order).world.sessionOf uses i) =
        own i ((c.world.sessionOf uses i).after (c.turns i).whole) := by
  obtain ⟨hturns, hown⟩ := run_alone uses hapart hminds order i
  rw [Turns.advances_of_ends hends] at hturns hown
  exact ⟨hturns, hown⟩

end Pair

end Pair

end Mender
