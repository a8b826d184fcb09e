import Mender.Proofs.Component.Amended

/-!
Texts put into a text, and the ends of its tags.

The two quotes of an attribute leave the search for the end of a tag where it was. So a tag that is
closed stays closed and ends where it did, whatever attributes are put into it.
-/

namespace Mender.Component

open Mender.Text Mender.Markup

/-! ### The ends of tags -/

/-- What is open is a quote. -/
def Quoted (q : Option Char) : Prop := ∀ c, q = some c → isQuote c = true

lemma quoted_none : Quoted none := fun _ h => nomatch h

lemma quoted_some {c : Char} (h : isQuote c = true) : Quoted (some c) :=
  fun _ hc => Option.some.inj hc ▸ h

/-- A character closes the tag or changes what is open, and only a quote opens one. -/
lemma splitTag_step {q : Option Char} (hq : Quoted q) (d : Nat) (c : Char) :
    (∀ r, splitTag q d (c :: r) = some ([c], r)) ∨
      ∃ q' d', Quoted q' ∧ ∀ r, splitTag q d (c :: r) = (splitTag q' d' r).map (splitTag.put c) := by
  cases q with
  | some q =>
    refine .inr ⟨_, _, ?_, fun r => rfl⟩
    split
    · exact quoted_none
    · exact hq
  | none =>
    simp only [splitTag]
    split
    · next hc => exact .inr ⟨_, _, quoted_some hc, fun r => rfl⟩
    · split
      · exact .inr ⟨_, _, quoted_none, fun r => rfl⟩
      · split
        · exact .inr ⟨_, _, quoted_none, fun r => rfl⟩
        · split
          · exact .inl fun r => rfl
          · exact .inr ⟨_, _, quoted_none, fun r => rfl⟩

/-- What a search finds when another text was read first. -/
def putAll (u : List Char) (p : List Char × List Char) : List Char × List Char := (u ++ p.1, p.2)

lemma splitTag_inert {q : Option Char} (hq : Quoted q) (d : Nat) {u : List Char}
    (hu : ∀ c ∈ u, isInert c = true) (r : List Char) :
    splitTag q d (u ++ r) = (splitTag q d r).map (putAll u) := by
  induction u with
  | nil => exact Option.map_id'.symm
  | cons c u ih =>
    obtain ⟨hc, hu⟩ := List.forall_mem_cons.1 hu
    have hone : splitTag q d (c :: (u ++ r)) = (splitTag q d (u ++ r)).map (splitTag.put c) := by
      simp only [isInert, Bool.not_eq_true', Bool.or_eq_false_iff, beq_eq_false_iff_ne] at hc
      obtain ⟨⟨⟨⟨hquote, hopen⟩, hclose⟩, -⟩, hgt⟩ := hc
      cases q with
      | none => simp [splitTag, hquote, hopen, hclose, hgt]
      | some q =>
        have hne : c ≠ q := by
          rintro rfl
          rw [hq c rfl] at hquote
          cases hquote
        rw [splitTag, if_neg hne]
    rw [List.cons_append, hone, ih hu, Option.map_map]
    rfl

/-- **An attribute** says nothing to the search for the end of a tag, whatever is open. -/
theorem splitTag_extra {q : Option Char} (hq : Quoted q) (d : Nat) {e : List Char} (he : IsExtra e)
    (r : List Char) : splitTag q d (e ++ r) = (splitTag q d r).map (putAll e) := by
  obtain ⟨h⟩ := he
  rename_i name value
  have hname : ∀ c ∈ ' ' :: name, isInert c = true :=
    List.forall_mem_cons.2 ⟨by decide, fun c hc => h c (List.mem_append_left _ hc)⟩
  have hvalue : ∀ c ∈ value, isInert c = true := fun c hc => h c (List.mem_append_right _ hc)
  -- the first quote opens one or closes the one that is open, and the second takes this back
  have hquotes : splitTag q d ('"' :: (value ++ '"' :: r)) =
      (splitTag q d r).map (putAll ('"' :: (value ++ ['"']))) := by
    have hback : ∀ q', Quoted q' →
        splitTag q d ('"' :: (value ++ '"' :: r)) =
          (splitTag q' d (value ++ '"' :: r)).map (splitTag.put '"') →
        splitTag q' d ('"' :: r) = (splitTag q d r).map (splitTag.put '"') →
        splitTag q d ('"' :: (value ++ '"' :: r)) =
          (splitTag q d r).map (putAll ('"' :: (value ++ ['"']))) := by
      intro q' hq' hfirst hsecond
      rw [hfirst, splitTag_inert hq' d hvalue, hsecond, Option.map_map, Option.map_map]
      refine congrArg (Option.map · _) (funext fun p => ?_)
      simp [putAll, splitTag.put]
    have hdouble : Quoted (some '"') := quoted_some (by decide)
    cases q with
    | none => exact hback (some '"') hdouble rfl rfl
    | some q =>
      by_cases hc : '"' = q
      · subst hc
        exact hback none quoted_none rfl rfl
      · exact hback (some q) hq (by rw [splitTag, if_neg hc]) (by rw [splitTag, if_neg hc])
  have hshape : ' ' :: (name ++ '"' :: (value ++ ['"'])) ++ r =
      ' ' :: name ++ '"' :: (value ++ '"' :: r) := by simp
  rw [hshape, splitTag_inert hq d hname, hquotes, Option.map_map]
  refine congrArg (Option.map · _) (funext fun p => ?_)
  simp [putAll]

lemma splitTag_cons_none {x y : List Char}
    (h : ∀ q d, Quoted q → splitTag q d x = none → splitTag q d y = none) {q : Option Char}
    (hq : Quoted q) {d : Nat} {c : Char} (ht : splitTag q d (c :: x) = none) :
    splitTag q d (c :: y) = none := by
  rcases splitTag_step hq d c with hc | ⟨q', d', hq', hc⟩
  · rw [hc] at ht
    cases ht
  · rw [hc, Option.map_eq_none_iff] at ht ⊢
    exact h q' d' hq' ht

lemma splitTag_cons_self {x y : List Char} (hnil : x = [] → y = [])
    (h : ∀ q d, Quoted q → splitTag q d x = some (x, []) → splitTag q d y = some (y, []))
    {q : Option Char} (hq : Quoted q) {d : Nat} {c : Char}
    (ht : splitTag q d (c :: x) = some (c :: x, [])) :
    splitTag q d (c :: y) = some (c :: y, []) := by
  rcases splitTag_step hq d c with hc | ⟨q', d', hq', hc⟩
  · rw [hc] at ht ⊢
    obtain rfl : x = [] := congrArg Prod.snd (Option.some.inj ht)
    rw [hnil rfl]
  · rw [hc] at ht ⊢
    obtain ⟨⟨t, r⟩, hp, he⟩ := Option.map_eq_some_iff.1 ht
    obtain ⟨htext, rfl⟩ := Prod.mk.inj he
    obtain rfl : t = x := (List.cons.inj htext).2
    rw [h q' d' hq' hp]
    rfl

/-- An attribute has no `<`. -/
lemma IsExtra.notMem {e : List Char} (he : IsExtra e) : '<' ∉ e := by
  obtain ⟨h⟩ := he
  rename_i name value
  have hlt : isInert '<' = false := by decide
  intro hmem
  have hin : '<' ∈ name ++ value := by simpa using hmem
  rw [h _ hin] at hlt
  cases hlt

/-- A suffix that starts with a sign the first part lacks is one of the second. -/
lemma suffix_of_notMem {c : Char} {e t z : List Char} (hc : c ∉ e) (h : c :: z <:+ e ++ t) :
    c :: z <:+ t := by
  induction e with
  | nil => exact h
  | cons d e ih =>
    obtain ⟨hd, he⟩ := not_or.1 (mt List.mem_cons.2 hc)
    rcases List.suffix_cons_iff.1 h with heq | h
    · exact absurd (List.cons.inj heq).1 hd
    · exact ih he h

/-! ### Texts put into a text -/

/-- The second text is the first one with texts put in, each in front of a place of its own. -/
inductive Interspersed (P At : List Char → Prop) : (x y : List Char) → Prop
  | nil : Interspersed P At [] []
  | keep {x y : List Char} (c : Char) (h : Interspersed P At x y) :
    Interspersed P At (c :: x) (c :: y)
  | put {x y e : List Char} {c : Char} (he : P e) (hc : At (c :: x)) (h : Interspersed P At x y) :
    Interspersed P At (c :: x) (e ++ c :: y)

namespace Interspersed

variable {P At : List Char → Prop} {x y z m : List Char}

lemma refl (x : List Char) : Interspersed P At x x := by
  induction x with
  | nil => exact .nil
  | cons c x ih => exact .keep c ih

lemma keeps (x : List Char) (h : Interspersed P At y z) : Interspersed P At (x ++ y) (x ++ z) := by
  induction x with
  | nil => exact h
  | cons c x ih => exact .keep c ih

lemma eq_nil (h : Interspersed P At [] y) : y = [] := by
  cases h
  rfl

/-- A cut of the text is one of the other. -/
lemma split (hAt : ∀ c x y, At (c :: (x ++ y)) → At (c :: x)) (h : Interspersed P At (x ++ y) z) :
    ∃ z₁ z₂, z = z₁ ++ z₂ ∧ Interspersed P At x z₁ ∧ Interspersed P At y z₂ := by
  induction x generalizing z with
  | nil => exact ⟨[], z, rfl, .nil, h⟩
  | cons c x ih =>
    cases h with
    | keep _ h =>
      obtain ⟨z₁, z₂, rfl, h₁, h₂⟩ := ih h
      exact ⟨c :: z₁, z₂, rfl, .keep c h₁, h₂⟩
    | put he hc h =>
      obtain ⟨z₁, z₂, rfl, h₁, h₂⟩ := ih h
      exact ⟨_ ++ c :: z₁, z₂, by simp, .put he (hAt c x y hc) h₁, h₂⟩

/-- In front of what is no such place nothing is put in. -/
lemma of_notAt {c : Char} (hc : ¬ At (c :: x)) (h : Interspersed P At (c :: x) z) :
    ∃ y, z = c :: y ∧ Interspersed P At x y := by
  cases h with
  | keep _ h => exact ⟨_, rfl, h⟩
  | put _ hat => exact absurd hat hc

/-- What stands in the text stands in the other one, if nothing can be put into it. -/
lemma append (h : Interspersed P At (m ++ x) z) (hm : ∀ u v, m = u ++ v → v ≠ [] → ¬ At (v ++ x)) :
    ∃ y, z = m ++ y ∧ Interspersed P At x y := by
  induction m generalizing z with
  | nil => exact ⟨z, rfl, h⟩
  | cons c m ih =>
    obtain ⟨w, rfl, hw⟩ := h.of_notAt (hm [] _ rfl (List.cons_ne_nil _ _))
    obtain ⟨y, rfl, hy⟩ := ih hw fun u v hv => hm (c :: u) v (congrArg (c :: ·) hv)
    exact ⟨y, rfl, hy⟩

lemma splitTag_none (hP : ∀ e, P e → IsExtra e) (h : Interspersed P At x y) {q : Option Char}
    (hq : Quoted q) {d : Nat} (ht : splitTag q d x = none) : splitTag q d y = none := by
  induction h generalizing q d with
  | nil => exact ht
  | keep c h ih => exact splitTag_cons_none (fun q d hq => ih hq) hq ht
  | put he hc h ih =>
    rw [splitTag_extra hq d (hP _ he), Option.map_eq_none_iff]
    exact splitTag_cons_none (fun q d hq => ih hq) hq ht

/-- **A tag** with attributes put in is a tag. -/
theorem splitTag_self (hP : ∀ e, P e → IsExtra e) (h : Interspersed P At x y) {q : Option Char}
    (hq : Quoted q) {d : Nat} (ht : splitTag q d x = some (x, [])) : splitTag q d y = some (y, []) := by
  induction h generalizing q d with
  | nil => exact ht
  | keep c h ih =>
    exact splitTag_cons_self (fun hx => (hx ▸ h).eq_nil) (fun q d hq => ih hq) hq ht
  | put he hc h ih =>
    rw [splitTag_extra hq d (hP _ he),
      splitTag_cons_self (fun hx => (hx ▸ h).eq_nil) (fun q d hq => ih hq) hq ht]
    rfl

end Interspersed

end Mender.Component
