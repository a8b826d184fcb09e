import Mathlib.Tactic.Common
import Mathlib.Tactic.Lemma
import Mender.Text.Width

/-!
Cuts at places between two texts.
-/

namespace Mender.Text

/-- Without the first character, a place behind a text is one behind the rest of it. -/
lemma exists_width_cons_add (c : Char) (s : List Char) (n : Nat) :
    ∃ k, width (c :: s) + n = k + 1 ∧ k + 1 - c.utf8Size = width s + n := by
  have hpos := c.utf8Size_pos
  refine ⟨width (c :: s) + n - 1, ?_, ?_⟩ <;> rw [width_cons] <;> omega

lemma dropWidth_width_add (s t : List Char) (n : Nat) :
    dropWidth (width s + n) (s ++ t) = dropWidth n t := by
  induction s with
  | nil => simp
  | cons c s ih =>
    obtain ⟨k, hk, hrest⟩ := exists_width_cons_add c s n
    rw [hk, List.cons_append, dropWidth, hrest, ih]

lemma takeWidth_width_add (s t : List Char) (n : Nat) :
    takeWidth (width s + n) (s ++ t) = s ++ takeWidth n t := by
  induction s with
  | nil => simp
  | cons c s ih =>
    obtain ⟨k, hk, hrest⟩ := exists_width_cons_add c s n
    rw [hk, List.cons_append, takeWidth, hrest, ih, List.cons_append]

@[simp] lemma dropWidth_zero (t : List Char) : dropWidth 0 t = t := by
  cases t <;> rfl

@[simp] lemma takeWidth_zero (t : List Char) : takeWidth 0 t = [] := by
  cases t <;> rfl

lemma dropWidth_width (s t : List Char) : dropWidth (width s) (s ++ t) = t :=
  dropWidth_width_append s t

lemma takeWidth_width (s t : List Char) : takeWidth (width s) (s ++ t) = s := by
  have h := takeWidth_width_add s t 0
  rwa [Nat.add_zero, takeWidth_zero, List.append_nil] at h

/-- The part between two texts. -/
lemma slice_between (a m b : List Char) :
    slice (width a) (width a + width m) (a ++ (m ++ b)) = m := by
  rw [slice, dropWidth_width, Nat.add_sub_cancel_left, takeWidth_width]

@[simp] lemma slice_self (n : Nat) (t : List Char) : slice n n t = [] := by
  rw [slice, Nat.sub_self, takeWidth_zero]

/-- A part that goes on behind a text begins with it. -/
lemma slice_start (a m b : List Char) {last : Nat} (h : width a + width m ≤ last) :
    slice (width a) last (a ++ (m ++ b)) =
      m ++ slice (width a + width m) last (a ++ (m ++ b)) := by
  obtain ⟨n, rfl⟩ := Nat.exists_eq_add_of_le h
  rw [slice, slice, dropWidth_width, dropWidth_width_add, dropWidth_width,
    show width a + width m + n - width a = width m + n by omega, Nat.add_sub_cancel_left,
    takeWidth_width_add]

lemma width_reverse (t : List Char) : width t.reverse = width t := by
  induction t with
  | nil => rfl
  | cons c t ih =>
    rw [List.reverse_cons, width_append, ih, width_cons, width_cons, width_nil]
    omega

/-- What is copied from one place of a text up to another is the same inside of a longer text. -/
lemma exists_slice {t u v x w : List Char} (hu : t = u ++ v) (hx : t = x ++ w) :
    ∃ k, k <:+ x ∧ ∀ a b, slice (width a + width u) (width a + width x) (a ++ (t ++ b)) = k := by
  rcases List.append_eq_append_iff.1 (hu.symm.trans hx) with ⟨k, rfl, rfl⟩ | ⟨k, rfl, rfl⟩
  · refine ⟨k, List.suffix_append _ _, fun a b => ?_⟩
    have hslice := slice_between (a ++ u) k (w ++ b)
    simpa [hu, Nat.add_assoc] using hslice
  · refine ⟨[], List.nil_suffix, fun a b => ?_⟩
    rw [slice, Nat.sub_eq_zero_of_le (by simp), takeWidth_zero]

lemma width_eq_zero {t : List Char} (h : width t = 0) : t = [] := by
  cases t with
  | nil => rfl
  | cons c t =>
    have := c.utf8Size_pos
    rw [width_cons] at h
    omega

/-- Of two beginnings of a text the narrower one begins the other. -/
lemma exists_append_of_width_le {a b a' b' : List Char} (h : a ++ b = a' ++ b')
    (hw : width a ≤ width a') : ∃ k, a' = a ++ k ∧ b = k ++ b' := by
  rcases List.append_eq_append_iff.1 h with ⟨k, ha, hb⟩ | ⟨k, ha, hb⟩
  · exact ⟨k, ha, hb⟩
  · obtain rfl : k = [] := by
      rw [ha, width_append] at hw
      exact width_eq_zero (by omega)
    exact ⟨[], by simpa using ha.symm, hb.symm⟩

/-! ### Parts of whole characters -/

/-- The place stands between two characters of the text, or at one of its ends. -/
def IsPlace (t : List Char) (n : Nat) : Prop := ∃ a b, t = a ++ b ∧ width a = n

lemma takeWidth_append_dropWidth (n : Nat) (t : List Char) : takeWidth n t ++ dropWidth n t = t := by
  induction t generalizing n with
  | nil => cases n <;> rfl
  | cons c t ih =>
    cases n with
    | zero => rfl
    | succ n => rw [takeWidth, dropWidth, List.cons_append, ih]

lemma isPlace_iff {t : List Char} {n : Nat} : IsPlace t n ↔ width (takeWidth n t) = n := by
  constructor
  · rintro ⟨a, b, rfl, rfl⟩
    rw [takeWidth_width]
  · intro h
    exact ⟨takeWidth n t, dropWidth n t, (takeWidth_append_dropWidth n t).symm, h⟩

instance (t : List Char) (n : Nat) : Decidable (IsPlace t n) := decidable_of_iff _ isPlace_iff.symm

/-- The part of a text between two places, if both stand between characters and in this order. -/
def slice? (first last : Nat) (t : List Char) : Option (List Char) :=
  if first ≤ last ∧ IsPlace t first ∧ IsPlace t last then some (slice first last t) else none

lemma slice?_between {a m b t : List Char} (h : a ++ (m ++ b) = t) :
    slice? (width a) (width (a ++ m)) t = some m := by
  have hfirst : IsPlace t (width a) := ⟨a, m ++ b, h.symm, rfl⟩
  have hlast : IsPlace t (width (a ++ m)) := ⟨a ++ m, b, by rw [← h, List.append_assoc], rfl⟩
  have hle : width a ≤ width (a ++ m) := by simp
  rw [slice?, if_pos ⟨hle, hfirst, hlast⟩, width_append, ← h, slice_between]

lemma slice_of_slice? {first last : Nat} {t m : List Char} (h : slice? first last t = some m) :
    slice first last t = m := by
  unfold slice? at h
  split at h
  · exact Option.some.inj h
  · cases h

/-- The part up to the end of a text. -/
lemma slice?_rest {a b t : List Char} (h : a ++ b = t) : slice? (width a) (width t) t = some b := by
  have hpart := slice?_between (a := a) (m := b) (b := []) (by rw [List.append_nil, h])
  rwa [h] at hpart

end Mender.Text
