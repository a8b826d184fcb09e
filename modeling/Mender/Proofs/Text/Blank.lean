import Mathlib.Data.List.DropRight
import Mathlib.Tactic.Common
import Mathlib.Tactic.Lemma
import Mender.Text.Blank

/-!
Trimmed texts, and texts with collapsed blanks.

A text that neither begins nor ends blank is its own trimmed text, and only a blank text is
trimmed to nothing.

Behind a sign that is not blank the text goes on with one space for each run of blanks, and with none at
the end. So a text that has no longer runs in it stays as it is, whatever comes behind it.
-/

namespace Mender.Text

variable {p : Char → Bool}

lemma dropTail_append_of_ne_nil {b : List Char} (h : dropTail p b ≠ []) (a : List Char) :
    dropTail p (a ++ b) = a ++ dropTail p b := by
  induction a with
  | nil => rfl
  | cons c a ih =>
    rw [List.cons_append, dropTail, ih]
    split
    · next hnil => exact absurd (List.append_eq_nil_iff.1 hnil).2 h
    · next hcons => rw [← hcons, List.cons_append]

lemma dropTail_concat {c : Char} (h : p c = false) (t : List Char) :
    dropTail p (t ++ [c]) = t ++ [c] := by
  have : dropTail p [c] = [c] := by simp [dropTail, h]
  rw [dropTail_append_of_ne_nil (by simp [this]), this]

lemma dropTail_cons {c : Char} (h : p c = false) (t : List Char) :
    dropTail p (c :: t) = c :: dropTail p t := by
  rw [dropTail]
  split
  · next hnil => rw [hnil, if_neg (by simp [h])]
  · next hcons => rw [hcons]

lemma dropTail_eq_rdropWhile (t : List Char) : dropTail p t = t.rdropWhile p := by
  induction t using List.reverseRecOn with
  | nil => rfl
  | append_singleton t c ih =>
    by_cases h : p c = true
    · rw [dropTail_append_blank p t h, List.rdropWhile_concat_pos p t c h, ih]
    · rw [dropTail_concat (by simpa using h), List.rdropWhile_concat_neg p t c h]

lemma dropTail_eq_nil_iff {t : List Char} : dropTail p t = [] ↔ ∀ c ∈ t, p c = true := by
  rw [dropTail_eq_rdropWhile, List.rdropWhile_eq_nil_iff]

lemma dropTail_append_of_all {b : List Char} (h : ∀ c ∈ b, p c = true) (a : List Char) :
    dropTail p (a ++ b) = dropTail p a := by
  induction b using List.reverseRecOn with
  | nil => simp
  | append_singleton b c ih =>
    rw [← List.append_assoc, dropTail_append_blank p _ (h c (by simp)),
      ih fun d hd => h d (by simp [hd])]

lemma dropTail_eq_self {t : List Char} (h : ∀ c ∈ t, p c = false) : dropTail p t = t := by
  cases t using List.reverseRecOn with
  | nil => rfl
  | append_singleton t c => exact dropTail_concat (h c (by simp)) t

/-- What is left ends in a character that stays. -/
lemma exists_dropTail_eq {t : List Char} (h : ∃ c ∈ t, p c = false) :
    ∃ a c, dropTail p t = a ++ [c] ∧ p c = false ∧ c ∈ t := by
  have hne : t.rdropWhile p ≠ [] := by
    rw [ne_eq, List.rdropWhile_eq_nil_iff]
    intro hall
    obtain ⟨c, hc, hp⟩ := h
    simp [hall c hc] at hp
  refine ⟨_, _, (dropTail_eq_rdropWhile t).trans (List.dropLast_append_getLast hne).symm, ?_, ?_⟩
  · simpa using List.rdropWhile_last_not p t hne
  · exact (List.rdropWhile_prefix p t).subset (List.getLast_mem hne)

lemma dropTail_isPrefix (t : List Char) : dropTail p t <+: t := by
  rw [dropTail_eq_rdropWhile]
  exact List.rdropWhile_prefix _ _

lemma trim_isInfix (t : List Char) : trim t <:+: t :=
  (dropTail_isPrefix _).isInfix.trans (List.dropWhile_suffix _).isInfix

lemma trim_eq_nil_iff {t : List Char} : trim t = [] ↔ ∀ c ∈ t, isBlank c = true := by
  rw [trim, trimEnd, dropTail_eq_nil_iff, trimStart]
  refine ⟨fun h => ?_, fun h c hc => h c (List.dropWhile_sublist _ |>.subset hc)⟩
  cases hd : t.dropWhile isBlank with
  | nil => exact List.dropWhile_eq_nil_iff.1 hd
  | cons c r =>
    have := List.head?_dropWhile_not isBlank t
    rw [hd] at this h
    simp [h c List.mem_cons_self] at this

lemma trim_cons_concat {c d : Char} (hc : isBlank c = false) (hd : isBlank d = false)
    (t : List Char) : trim (c :: (t ++ [d])) = c :: (t ++ [d]) := by
  rw [trim, trimStart, List.dropWhile_cons_of_neg (by simp [hc]), ← List.cons_append, trimEnd,
    dropTail_concat hd]

lemma getLast?_trim {t : List Char} {c : Char} (h : t.getLast? = some c)
    (hc : isBlank c = false) : (trim t).getLast? = some c := by
  obtain ⟨a, rfl⟩ := List.getLast?_eq_some_iff.1 h
  have hstart : ∃ b, trimStart (a ++ [c]) = b ++ [c] := by
    rw [trimStart, List.dropWhile_append]
    split
    · exact ⟨[], by simp [hc]⟩
    · exact ⟨_, rfl⟩
  obtain ⟨b, hb⟩ := hstart
  rw [trim, hb, trimEnd, dropTail_concat hc, List.getLast?_concat]

lemma getLast?_of_trimmed {t : List Char} (h : trim t = t) : ∀ c ∈ t.getLast?, isBlank c = false := by
  intro c hc
  have hne : (trimStart t).rdropWhile isBlank ≠ [] := by
    rintro hnil
    rw [← h, trim, trimEnd, dropTail_eq_rdropWhile, hnil] at hc
    cases hc
  have hlast := List.rdropWhile_last_not isBlank (trimStart t) hne
  rw [← h, trim, trimEnd, dropTail_eq_rdropWhile, List.getLast?_eq_some_getLast hne,
    Option.mem_some_iff] at hc
  rw [hc] at hlast
  exact Bool.eq_false_iff.2 hlast

lemma trimStart_of_trimmed {t : List Char} (h : trim t = t) : trimStart t = t := by
  have hend : (trim t).length ≤ (trimStart t).length := (dropTail_isPrefix _).length_le
  rw [h] at hend
  exact (List.dropWhile_suffix isBlank).eq_of_length_le hend

/-- Blanks around a text that neither begins nor ends with one are what is trimmed of it. -/
lemma trim_around {before t after : List Char} (hbefore : ∀ c ∈ before, isBlank c = true)
    (hafter : ∀ c ∈ after, isBlank c = true) (hfirst : ∀ c ∈ t.head?, isBlank c = false)
    (hlast : ∀ c ∈ t.getLast?, isBlank c = false) (hne : t ≠ []) :
    trim (before ++ (t ++ after)) = t := by
  obtain ⟨c, r, rfl⟩ := List.exists_cons_of_ne_nil hne
  have hstart : trimStart (before ++ (c :: r ++ after)) = c :: r ++ after := by
    rw [trimStart, List.dropWhile_append_of_pos hbefore, List.cons_append,
      List.dropWhile_cons_of_neg (by simp [hfirst c rfl])]
  obtain ⟨u, hu⟩ := List.getLast?_eq_some_iff.1 (List.getLast?_eq_some_getLast hne)
  have hend := hlast _ (List.getLast?_eq_some_getLast hne)
  rw [trim, hstart, trimEnd, dropTail_append_of_all hafter, hu, dropTail_concat hend]

/-! ### Collapsed blanks -/

variable {c : Char} {r t u : List Char}

/-- One space in front of a text that neither is empty nor has a space already. -/
def withSpace : List Char → List Char
  | [] => []
  | c :: r => if c = ' ' then c :: r else ' ' :: c :: r

/-- The text behind a sign that is not blank, once its blanks are collapsed. -/
def spaced : List Char → List Char
  | [] => []
  | c :: r => if isBlank c then withSpace (spaced r) else c :: spaced r

lemma spaced_of_blank (h : isBlank c = true) (r : List Char) :
    spaced (c :: r) = withSpace (spaced r) := by
  rw [spaced, if_pos h]

lemma spaced_cons (h : isBlank c = false) (r : List Char) : spaced (c :: r) = c :: spaced r := by
  rw [spaced, if_neg (Bool.eq_false_iff.1 h)]

lemma withSpace_withSpace (t : List Char) : withSpace (withSpace t) = withSpace t := by
  cases t with
  | nil => rfl
  | cons c r =>
    by_cases hc : c = ' '
    · simp [withSpace, hc]
    · simp [withSpace, hc]

lemma withSpace_cons (h : isBlank c = false) (r : List Char) : withSpace (c :: r) = ' ' :: c :: r := by
  rw [withSpace, if_neg]
  rintro rfl
  cases h

/-! ### Words -/

lemma words_of_blank (h : isBlank c = true) (r : List Char) : words (c :: r) = words r := by
  simp [words, splitWhen, h]

lemma collapse_of_blank (h : isBlank c = true) (r : List Char) : collapse (c :: r) = collapse r := by
  rw [collapse, collapse, words_of_blank h]

/-- What comes behind the first of some words. -/
def behindWord : List (List Char) → List Char
  | [] => []
  | w :: ws => ' ' :: [' '].intercalate (w :: ws)

lemma intercalate_cons (w : List Char) (ws : List (List Char)) :
    [' '].intercalate (w :: ws) = w ++ behindWord ws := by
  cases ws with
  | nil => simp [behindWord]
  | cons v ws => simp [behindWord, List.intercalate]

/-- A text goes on with a word, or with none at first. -/
lemma words_cons (h : isBlank c = false) (r : List Char) :
    ∃ w ws, words (c :: r) = (c :: w) :: ws ∧
      ((w = [] ∧ words r = ws ∧ ∀ d s, r = d :: s → isBlank d = true) ∨
        (words r = w :: ws ∧ ∃ d s, r = d :: s ∧ isBlank d = false)) := by
  cases r with
  | nil => exact ⟨[], [], by simp [words, splitWhen, h], .inl ⟨rfl, rfl, by simp⟩⟩
  | cons d r =>
    cases hd : isBlank d with
    | true =>
      refine ⟨[], words r, by simp [words, splitWhen, h, hd], .inl ⟨rfl, words_of_blank hd r, ?_⟩⟩
      simpa using hd
    | false =>
      obtain ⟨w, ws, hsplit⟩ := List.exists_cons_of_ne_nil (splitWhen_ne_nil isBlank r)
      refine ⟨d :: w, ws.filter fun w => !w.isEmpty, by simp [words, splitWhen, h, hd, hsplit],
        .inr ⟨by simp [words, splitWhen, hd, hsplit], d, r, rfl, hd⟩⟩

lemma withSpace_collapse (r : List Char) : withSpace (collapse r) = behindWord (words r) := by
  induction r with
  | nil => rfl
  | cons c r ih =>
    cases hc : isBlank c with
    | true => rw [collapse_of_blank hc, words_of_blank hc, ih]
    | false =>
      obtain ⟨w, ws, hwords, -⟩ := words_cons hc r
      rw [collapse, hwords, behindWord, intercalate_cons, List.cons_append, withSpace_cons hc]

/-- What is collapsed behind a sign is the text by itself, but for the space in front. -/
lemma spaced_eq (r : List Char) : spaced r = withSpace (collapse r) ∧ (∀ d s, r = d :: s → isBlank d = true) ∨
    spaced r = collapse r ∧ ∃ d s, r = d :: s ∧ isBlank d = false := by
  induction r with
  | nil => exact .inl ⟨rfl, by simp⟩
  | cons c r ih =>
    cases hc : isBlank c with
    | true =>
      refine .inl ⟨?_, by simpa using hc⟩
      rw [spaced_of_blank hc, collapse_of_blank hc]
      rcases ih with ⟨ih, -⟩ | ⟨ih, -⟩
      · rw [ih, withSpace_withSpace]
      · rw [ih]
    | false =>
      refine .inr ⟨?_, c, r, rfl, hc⟩
      obtain ⟨w, ws, hwords, hmore⟩ := words_cons hc r
      rw [spaced_cons hc, collapse, hwords, intercalate_cons, List.cons_append]
      rcases ih with ⟨ih, hblank⟩ | ⟨ih, d, s, rfl, hd⟩ <;>
        rcases hmore with ⟨rfl, hws, hblank'⟩ | ⟨hws, d', s', hr, hd'⟩
      · rw [ih, withSpace_collapse, hws, List.nil_append]
      · rw [hblank d' s' hr] at hd'
        cases hd'
      · rw [hblank' d s rfl] at hd
        cases hd
      · rw [ih, collapse, hws, intercalate_cons]

lemma collapse_cons (h : isBlank c = false) (r : List Char) : collapse (c :: r) = c :: spaced r := by
  rcases spaced_eq (c :: r) with ⟨-, hblank⟩ | ⟨heq, -⟩
  · rw [hblank c r rfl] at h
    cases h
  · rw [← heq, spaced_cons h]

/-! ### Texts that stay -/

lemma length_withSpace_le (t : List Char) : (withSpace t).length ≤ t.length + 1 := by
  cases t with
  | nil => exact Nat.zero_le _
  | cons c r =>
    rw [withSpace]
    split
    · exact Nat.le_succ _
    · exact Nat.le_refl _

lemma length_spaced_le (t : List Char) : (spaced t).length ≤ t.length := by
  induction t with
  | nil => exact Nat.le_refl _
  | cons c r ih =>
    rw [spaced]
    split
    · exact Nat.le_trans (length_withSpace_le _) (Nat.succ_le_succ ih)
    · exact Nat.succ_le_succ ih

/-- A text without longer runs of blanks, and with none at its end, stays in front of another one. -/
lemma spaced_append (h : spaced u = u) (r : List Char) (hlast : ∀ d ∈ u.getLast?, isBlank d = false) :
    spaced (u ++ r) = u ++ spaced r := by
  induction u with
  | nil => rfl
  | cons c u ih =>
    have hbehind (hne : u ≠ []) : ∀ d ∈ u.getLast?, isBlank d = false := by
      obtain ⟨d, s, rfl⟩ := List.exists_cons_of_ne_nil hne
      rwa [List.getLast?_cons_cons] at hlast
    cases hc : isBlank c with
    | false =>
      rw [spaced_cons hc] at h
      rw [List.cons_append, spaced_cons hc]
      by_cases hne : u = []
      · rw [hne]
        rfl
      · rw [ih (List.cons.inj h).2 (hbehind hne), List.cons_append]
    | true =>
      have hne : u ≠ [] := by
        rintro rfl
        rw [hlast c rfl] at hc
        cases hc
      have hle := length_spaced_le u
      rw [spaced_of_blank hc] at h
      rw [List.cons_append, spaced_of_blank hc]
      cases hu : spaced u with
      | nil =>
        rw [hu] at h
        cases h
      | cons d s =>
        rw [hu, withSpace] at h
        split at h
        · rw [hu, h, List.length_cons] at hle
          exact absurd hle (Nat.not_succ_le_self _)
        · next hd =>
          obtain ⟨rfl, rfl⟩ := List.cons.inj h
          rw [ih hu (hbehind hne), List.cons_append, withSpace, if_neg hd]
          rfl

end Mender.Text
