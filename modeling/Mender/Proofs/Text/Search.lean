import Mathlib.Data.List.DropRight
import Mathlib.Data.List.Infix
import Mathlib.Data.List.TakeDrop
import Mathlib.Tactic.Common
import Mathlib.Tactic.Lemma
import Mender.Text.Search

/-!
What a search finds.

A text contains another one when that is a stretch of it, and a cut is made at the first such
stretch. A needle without some character is not found across that character.
-/

namespace Mender.Text

variable {needle : List Char}

lemma startsWith_iff {t : List Char} : startsWith needle t = true ↔ needle <+: t := by
  rw [startsWith, Option.isSome_iff_exists]
  exact exists_congr fun r => after?_eq_some_iff.trans eq_comm

lemma after?_eq_none_iff {t : List Char} : after? needle t = none ↔ ¬ needle <+: t := by
  rw [← startsWith_iff, startsWith, Option.isSome_iff_ne_none, not_not]

lemma cut?_eq_none_iff {t : List Char} : cut? needle t = none ↔ ¬ needle <:+: t := by
  induction t with
  | nil => cases needle <;> simp [cut?]
  | cons c t ih =>
    rw [List.infix_cons_iff, not_or, cut?]
    split
    · next h => simp [← after?_eq_none_iff, h]
    · next h => simp [← after?_eq_none_iff, h, ih]

lemma contains_iff {t : List Char} : contains needle t = true ↔ needle <:+: t := by
  rw [contains, Option.isSome_iff_ne_none, ne_eq, cut?_eq_none_iff, not_not]

/-- The first occurrence is where the text is cut. -/
lemma cut?_of_first {a : List Char} (hne : needle ≠ [])
    (h : ¬ needle <:+: a ++ needle.dropLast) (b : List Char) :
    cut? needle (a ++ needle ++ b) = some (a, b) := by
  induction a with
  | nil =>
    obtain ⟨n, ns, rfl⟩ := List.exists_cons_of_ne_nil hne
    have : after? (n :: ns) (n :: (ns ++ b)) = some b := after?_eq_some_iff.2 rfl
    simp only [List.nil_append, List.cons_append, cut?, this]
  | cons c a ih =>
    rw [List.cons_append, List.infix_cons_iff, not_or] at h
    have hhead : after? needle (c :: (a ++ needle ++ b)) = none := by
      rw [after?_eq_none_iff]
      intro hp
      refine h.1 (List.prefix_of_prefix_length_le hp ⟨needle.getLast hne :: b, ?_⟩ (by simp; omega))
      rw [List.cons_append, List.append_assoc, List.append_cons, List.dropLast_append_getLast,
        List.append_assoc]
    simp only [List.cons_append, cut?, hhead, ih h.2, Option.map_some]

lemma not_infix_dropLast (hne : needle ≠ []) : ¬ needle <:+: needle.dropLast := by
  intro h
  have := h.length_le
  have := List.length_pos_iff.2 hne
  rw [List.length_dropLast] at *
  omega

lemma cut?_first {t a b : List Char} (hne : needle ≠ []) (h : cut? needle t = some (a, b)) :
    ¬ needle <:+: a ++ needle.dropLast := by
  induction t generalizing a with
  | nil => simp [cut?, hne] at h
  | cons c t ih =>
    have ht := cut?_eq_some h
    rw [cut?] at h
    split at h
    · cases h
      exact not_infix_dropLast hne
    · next hhead =>
      obtain ⟨p, hp, he⟩ := Option.map_eq_some_iff.1 h
      cases he
      rw [List.cons_append, List.infix_cons_iff, not_or]
      refine ⟨fun hi => after?_eq_none_iff.1 hhead (hi.trans ?_), ih hp⟩
      have hdrop : needle.dropLast <+: needle ++ p.2 :=
        (List.dropLast_prefix needle).trans (List.prefix_append _ _)
      rw [ht, List.cons_append, List.cons_append, List.append_assoc]
      exact List.cons_prefix_cons.2 ⟨rfl, (List.prefix_append_right_inj p.1).2 hdrop⟩

/-- **A cut** is made at the first occurrence, and only there. -/
theorem cut?_eq_some_iff {t a b : List Char} (hne : needle ≠ []) :
    cut? needle t = some (a, b) ↔
      t = a ++ needle ++ b ∧ ¬ needle <:+: a ++ needle.dropLast :=
  ⟨fun h => ⟨cut?_eq_some h, cut?_first hne h⟩, fun h => h.1 ▸ cut?_of_first hne h.2 b⟩

/-- A needle is not found across a character that it does not have. -/
lemma prefix_of_prefix_append_cons {x : Char} (hx : x ∉ needle) {a b : List Char}
    (h : needle <+: a ++ x :: b) : needle <+: a := by
  have ha : a ++ [x] <+: a ++ x :: b := ⟨b, by simp⟩
  rcases List.prefix_or_prefix_of_prefix h ha with h | h
  · rcases List.prefix_concat_iff.1 h with rfl | h
    · exact absurd (by simp) hx
    · exact h
  · exact absurd (h.subset (by simp)) hx

lemma infix_append_cons_iff {x : Char} (hx : x ∉ needle) {a b : List Char} :
    needle <:+: a ++ x :: b ↔ needle <:+: a ∨ needle <:+: b := by
  constructor
  · intro h
    induction a with
    | nil =>
      rcases List.infix_cons_iff.1 h with h | h
      · exact .inl (prefix_of_prefix_append_cons (a := []) hx h).isInfix
      · exact .inr h
    | cons c a ih =>
      rcases List.infix_cons_iff.1 h with h | h
      · exact .inl (prefix_of_prefix_append_cons (a := c :: a) hx h).isInfix
      · exact (ih h).imp_left fun h => h.trans (List.suffix_cons c a).isInfix
  · rintro (h | h)
    · exact h.trans (List.infix_append' [] a (x :: b))
    · exact h.trans (List.IsSuffix.isInfix ⟨a ++ [x], by simp⟩)

/-- The cut behind a character that the needle does not have. -/
lemma cut?_behind {x : Char} (hx : x ∉ needle) (hne : needle ≠ []) {a : List Char}
    (h : ¬ needle <:+: a) (b : List Char) :
    cut? needle (a ++ x :: (needle ++ b)) = some (a ++ [x], b) := by
  have hfirst : ¬ needle <:+: a ++ [x] ++ needle.dropLast := by
    rw [List.append_assoc, List.singleton_append, infix_append_cons_iff hx, not_or]
    exact ⟨h, not_infix_dropLast hne⟩
  simpa using cut?_of_first hne hfirst b

lemma infix_intercalate_iff {x : Char} (hx : x ∉ needle) (hne : needle ≠ [])
    (ts : List (List Char)) : needle <:+: [x].intercalate ts ↔ ∃ t ∈ ts, needle <:+: t := by
  induction ts with
  | nil => simp [hne]
  | cons a ts ih =>
    cases ts with
    | nil => simp
    | cons b ts =>
      rw [List.intercalate_cons_cons, List.append_assoc, List.singleton_append,
        infix_append_cons_iff hx, ih]
      simp

/-! ### Texts that a needle is not found across -/

/-- The needle does not end as it begins. -/
def Borderless (needle : List Char) : Prop := ∀ s ∈ needle.tail.tails, s <+: needle → s = []

instance : DecidablePred Borderless := fun needle =>
  inferInstanceAs (Decidable (∀ s ∈ needle.tail.tails, s <+: needle → s = []))

lemma not_infix_append_dropLast (hb : Borderless needle) (hne : needle ≠ []) {a : List Char}
    (ha : ¬ needle <:+: a) : ¬ needle <:+: a ++ needle.dropLast := by
  rw [List.infix_append_iff]
  rintro (h | h | ⟨p, s, h, hp, hs⟩)
  · exact ha h
  · exact not_infix_dropLast hne h
  · cases p with
    | nil => exact not_infix_dropLast hne ((h ▸ hs : needle <+: needle.dropLast).isInfix)
    | cons c p =>
      have htail : s ∈ needle.tail.tails := (List.mem_tails _ _).2 ⟨p, by rw [h]; rfl⟩
      have hs := hb s htail (hs.trans (List.dropLast_prefix needle))
      rw [hs, List.append_nil] at h
      exact ha (h ▸ hp.isInfix)

/-- Neither text stands in the other, and the needle neither begins as the mark ends nor ends as
it begins. -/
def Apart (needle mark : List Char) : Prop :=
  ¬ needle <:+: mark ∧ ¬ mark <:+: needle ∧ (∀ p ∈ needle.inits, p <:+ mark → p = []) ∧
    ∀ s ∈ needle.tails, s <+: mark → s = []

instance (needle mark : List Char) : Decidable (Apart needle mark) := by
  unfold Apart
  infer_instance

lemma Apart.prefix_left {mark s b : List Char} (h : Apart needle mark) (hs : s <:+ needle)
    (hm : s <+: mark ++ b) : s = [] := by
  rcases List.prefix_or_prefix_of_prefix hm (List.prefix_append mark b) with hp | hp
  · exact h.2.2.2 s ((List.mem_tails _ _).2 hs) hp
  · exact absurd (hp.isInfix.trans hs.isInfix) h.2.1

/-- A needle is not found across a mark that it is apart from. -/
lemma infix_around_mark {mark : List Char} (h : Apart needle mark) {a b : List Char}
    (hi : needle <:+: a ++ (mark ++ b)) : needle <:+: a ∨ needle <:+: b := by
  rcases List.infix_append_iff.1 hi with hi | hi | ⟨p, s, hneedle, hp, hs⟩
  · exact .inl hi
  · rcases List.infix_append_iff.1 hi with hi | hi | ⟨p, s, hneedle, hp, hs⟩
    · exact absurd hi h.1
    · exact .inr hi
    · have hnil := h.2.2.1 p ((List.mem_inits _ _).2 ⟨s, hneedle.symm⟩) hp
      rw [hnil, List.nil_append] at hneedle
      exact .inr (hneedle ▸ hs.isInfix)
  · have hnil := h.prefix_left ⟨p, hneedle.symm⟩ hs
    rw [hnil, List.append_nil] at hneedle
    exact .inl (hneedle ▸ hp.isInfix)

/-! ### The last sign of a kind -/

section Last

variable {p : Char → Bool} {a b t : List Char} {d : Char}

lemma cutLast?_append (hd : p d = true) (hb : ∀ c ∈ b, p c = false) :
    cutLast? p (a ++ d :: b) = some (a, b) := by
  have hnot : ∀ c ∈ b.reverse, (!p c) = true := fun c hc => by rw [hb c (List.mem_reverse.1 hc)]; rfl
  unfold cutLast?
  rw [List.span_eq_takeWhile_dropWhile, List.reverse_append, List.reverse_cons, List.append_assoc,
    List.singleton_append, List.takeWhile_append_of_pos hnot, List.takeWhile_cons_of_neg (by simp [hd]),
    List.dropWhile_append_of_pos hnot, List.dropWhile_cons_of_neg (by simp [hd])]
  simp

lemma cutLast?_eq_none (h : ∀ c ∈ t, p c = false) : cutLast? p t = none := by
  have hnot : ∀ c ∈ t.reverse, (!p c) = true := fun c hc => by rw [h c (List.mem_reverse.1 hc)]; rfl
  unfold cutLast?
  rw [List.span_eq_takeWhile_dropWhile, List.dropWhile_eq_nil_iff.2 hnot]

lemma exists_of_cutLast? (h : cutLast? p t = some (a, b)) : ∃ d, p d = true ∧ t = a ++ d :: b := by
  unfold cutLast? at h
  rw [List.span_eq_takeWhile_dropWhile] at h
  have hall := List.takeWhile_append_dropWhile (p := fun c => !p c) (l := t.reverse)
  have hhead := List.head?_dropWhile_not (fun c => !p c) t.reverse
  revert h hall hhead
  generalize t.reverse.dropWhile (fun c => !p c) = r
  generalize t.reverse.takeWhile (fun c => !p c) = w
  intro h hall hhead
  cases r with
  | nil => cases h
  | cons d r =>
    obtain ⟨rfl, rfl⟩ := Prod.mk.inj (Option.some.inj h)
    refine ⟨d, by simpa using hhead, ?_⟩
    rw [← List.reverse_reverse t, ← hall]
    simp

end Last

end Mender.Text
