import Mathlib.Data.List.Infix
import Mathlib.Tactic.Common
import Mathlib.Tactic.Lemma
import Mender.Script.Parse

/-!
What readers do, step by step.

A reader is judged by what holds whenever it succeeds. Each way to build a reader has a law, and
what a cursor has behind it is known without one, since no reader goes back.
-/

namespace Mender.Script

open Mender.Text

variable {α β : Type}

namespace Reader

/-- Whatever the reader answers from this cursor satisfies `Q`. -/
def Post (p : Reader α) (c : Cursor) (Q : α → Cursor → Prop) : Prop :=
  ∀ a d, p.read c = .ok (a, d) → Q a d

variable {c : Cursor} {p : Reader α} {Q Q' : α → Cursor → Prop}

lemma Post.mono (h : p.Post c Q) (hQ : ∀ a d, c.Leads d → Q a d → Q' a d) : p.Post c Q' :=
  fun a d hr => hQ a d (p.forward hr) (h a d hr)

/-- What holds however far the reader goes. -/
lemma Post.of_leads (h : ∀ a d, c.Leads d → Q a d) : p.Post c Q :=
  fun a d hr => h a d (p.forward hr)

lemma post_pure {a : α} (h : Q a c) : (pure a : Reader α).Post c Q := by
  intro b d hr
  cases hr
  exact h

lemma post_bind {f : α → Reader β} {R : β → Cursor → Prop}
    (h : p.Post c fun a d => (f a).Post d R) : (p >>= f).Post c R := by
  intro b e hr
  cases hp : p.read c with
  | error n =>
    have : (p >>= f).read c = .error n := by
      show (andThen p f).read c = _
      simp only [andThen, hp]
    rw [this] at hr
    cases hr
  | ok r =>
    obtain ⟨a, d⟩ := r
    have : (p >>= f).read c = (f a).read d := by
      show (andThen p f).read c = _
      simp only [andThen, hp]
    rw [this] at hr
    exact h a d hp b e hr

/-- A reader whose answer does not matter to what follows. -/
lemma post_then {f : α → Reader β} {R : β → Cursor → Prop}
    (h : ∀ a d, c.Leads d → (f a).Post d R) : (p >>= f).Post c R :=
  post_bind (Post.of_leads h)

lemma post_fail {left : Nat} : (fail left : Reader α).Post c Q := by
  intro a d hr
  cases hr

lemma post_cursor {Q : Cursor → Cursor → Prop} (h : Q c c) : cursor.Post c Q := by
  intro a d hr
  cases hr
  exact h

lemma post_ahead {Q : List Char × Bool → Cursor → Prop} (h : Q (skipGap .blank false c.rest) c) :
    ahead.Post c Q := by
  intro a d hr
  cases hr
  exact h

lemma post_next {Q : List Char → Cursor → Prop} (h : Q (skipGap .blank false c.rest).1 c) :
    next.Post c Q := by
  intro a d hr
  cases hr
  exact h

lemma post_take {start rest : List Char} {Q : Unit → Cursor → Prop} (h : Q () (c.take start rest)) :
    (take start rest).Post c Q := by
  intro a d hr
  cases hr
  exact h

lemma post_failLast : (failLast : Reader α).Post c Q :=
  post_bind (post_cursor post_fail)

lemma post_failNext : (failNext : Reader α).Post c Q :=
  post_bind (post_next post_fail)

lemma post_partSince {start : List Char} {Q : Part → Cursor → Prop}
    (h : ∀ text, Q ⟨⟨start.length, c.rest.length⟩, text⟩ c) : (partSince start).Post c Q :=
  post_bind (post_cursor (post_pure (h _)))

lemma post_inBracket {n : Nat} (h : p.Post c Q) : (inBracket n p).Post c Q := by
  intro a d hr
  cases hp : p.read c with
  | error e =>
    simp only [inBracket, hp] at hr
    split at hr <;> cases hr
  | ok r =>
    simp only [inBracket, hp] at hr
    cases hr
    exact h a d hp

/-- What is read inside a bracket. -/
lemma post_bracketed {opening : String} (h : ∀ d, c.Leads d → p.Post d Q) :
    (bracketed opening p).Post c Q :=
  post_bind (post_cursor (post_then fun _ d hd => post_inBracket (h d hd)))

end Reader

/-! ### Blanks and lexemes -/

/-- Where the passing over stands behind a character of a comment. -/
def Gap.next (c : Char) : Gap → Gap
  | .blank => .blank
  | .opening => if c = '/' then .line else .block
  | .line => if c = '\n' then .blank else .line
  | .star => if c = '/' then .blank else if c = '*' then .star else .block
  | .block => if c = '*' then .star else .block

/-- Where the passing over stands behind a character, in front of the one that is given; nowhere if it
ends in front of the character. -/
def Gap.past? (g : Gap) (c : Char) (following : Option Char) : Option Gap :=
  if g = .blank then
    if isGap c then some .blank
    else if c = '/' ∧ (following = some '/' ∨ following = some '*') then some .opening
    else none
  else some (g.next c)

lemma Gap.past?_of_ne {g : Gap} (h : g ≠ .blank) (c : Char) (following : Option Char) :
    g.past? c following = some (g.next c) :=
  if_neg h

lemma Gap.past?_eq_none {g : Gap} {c : Char} {following : Option Char}
    (h : g.past? c following = none) : g = .blank := by
  by_contra hg
  rw [Gap.past?_of_ne hg] at h
  cases h

/-- **One step of passing over.** It goes on behind the next character, and never forgets a line end, or it
ends in front of the character. -/
lemma skipGap_cons (g : Gap) (e : Bool) (c : Char) (t : List Char) :
    ∃ e', (e = true → e' = true) ∧ skipGap g e (c :: t) =
      (g.past? c t.head?).elim (c :: t, e) fun g' => skipGap g' e' t := by
  have hlater (h : e = true) : (e || c == '\n') = true := by rw [h, Bool.true_or]
  cases g with
  | opening => exact ⟨e, id, rfl⟩
  | block => exact ⟨_, hlater, rfl⟩
  | line =>
    rw [skipGap, Gap.past?_of_ne (by decide), Gap.next]
    by_cases hc : c = '\n'
    · exact ⟨true, fun _ => rfl, by rw [if_pos hc, if_pos hc]; rfl⟩
    · exact ⟨e, id, by rw [if_neg hc, if_neg hc]; rfl⟩
  | star =>
    rw [skipGap, Gap.past?_of_ne (by decide), Gap.next]
    by_cases hc : c = '/'
    · exact ⟨e, id, by rw [if_pos hc, if_pos hc]; rfl⟩
    · exact ⟨_, hlater, by rw [if_neg hc, if_neg hc]; rfl⟩
  | blank =>
    rw [skipGap, Gap.past?, if_pos rfl]
    by_cases hgap : isGap c = true
    · exact ⟨_, hlater, by rw [if_pos hgap, if_pos hgap]; rfl⟩
    · refine ⟨e, id, ?_⟩
      rw [if_neg hgap, if_neg hgap]
      split <;> rfl

/-- What is left behind blanks is an end of the text. -/
lemma skipGap_suffix (g : Gap) (e : Bool) (t : List Char) : (skipGap g e t).1 <:+ t := by
  induction t generalizing g e with
  | nil => cases g <;> exact List.suffix_refl _
  | cons c t ih =>
    obtain ⟨e', -, hstep⟩ := skipGap_cons g e c t
    rw [hstep]
    cases g.past? c t.head? with
    | none => exact List.suffix_refl _
    | some g' => exact (ih g' e').trans (List.suffix_cons _ _)

/-- What is left does not depend on the line ends so far. -/
lemma skipGap_fst (g : Gap) (e e' : Bool) (t : List Char) : (skipGap g e t).1 = (skipGap g e' t).1 := by
  induction t generalizing g e e' with
  | nil => cases g <;> rfl
  | cons c t ih =>
    obtain ⟨_, -, hstep⟩ := skipGap_cons g e c t
    obtain ⟨_, -, hstep'⟩ := skipGap_cons g e' c t
    rw [hstep, hstep']
    cases g.past? c t.head? with
    | none => rfl
    | some g' => exact ih g' _ _

lemma lastOf_of_suffix {s t : List Char} (h : s <:+ t) : Cursor.lastOf t s = s := by
  obtain ⟨a, rfl⟩ := h
  have : (a ++ s).length - s.length = a.length := by simp
  rw [Cursor.lastOf, this, List.drop_left]

/-- Behind a lexeme that is there. -/
lemma rest_take {c : Cursor} {start rest : List Char} (hs : start <:+ c.rest) (hr : rest <:+ start) :
    (c.take start rest).rest = rest := by
  show Cursor.lastOf (Cursor.lastOf c.rest start) rest = rest
  rw [lastOf_of_suffix hs, lastOf_of_suffix hr]

/-- The next lexeme on. -/
def Cursor.next (c : Cursor) : List Char := (skipGap .blank false c.rest).1

lemma Cursor.next_suffix (c : Cursor) : c.next <:+ c.rest := skipGap_suffix _ _ _

end Mender.Script
