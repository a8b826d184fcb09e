import Mathlib.Data.List.Infix
import Mathlib.Tactic.Common
import Mathlib.Tactic.Lemma
import Mender.Module.Specifier

/-!
Paths and their segments.

Putting the segments of a path together gives the path back. Resolving a path keeps only
segments that are names; those before the first empty or dot segment stay in front unless a
later `..` takes them off.
-/

namespace Mender.Module

open Mender.Text

lemma segments_eq_splitOn (t : List Char) : segments t = t.splitOn '/' := by
  unfold segments
  induction t with
  | nil => rfl
  | cons c t ih =>
    rw [List.splitOn_cons_eq_if_modifyHead, splitWhen, ← ih]
    split
    · rfl
    · cases h : splitWhen (fun c => c == '/') t with
      | nil => exact absurd h (splitWhen_ne_nil _ t)
      | cons w ws => rfl

lemma intercalate_segments (t : List Char) : ['/'].intercalate (segments t) = t := by
  rw [segments_eq_splitOn, List.intercalate_splitOn]

lemma segments_append_slash (a b : List Char) :
    segments (a ++ '/' :: b) = segments a ++ segments b := by
  simp only [segments_eq_splitOn, List.splitOn_append_cons_self]

lemma slash_notMem_of_mem_segments {w t : List Char} (h : w ∈ segments t) : '/' ∉ w := by
  unfold segments at h
  induction t generalizing w with
  | nil =>
    rw [splitWhen, List.mem_singleton] at h
    simp [h]
  | cons c t ih =>
    rw [splitWhen] at h
    split at h
    · rcases List.mem_cons.1 h with rfl | h
      · exact List.not_mem_nil
      · exact ih h
    · next hc =>
      obtain ⟨v, vs, hv⟩ := List.exists_cons_of_ne_nil (splitWhen_ne_nil (fun c => c == '/') t)
      rw [hv] at h ih
      rcases List.mem_cons.1 h with rfl | h
      · rw [List.mem_cons, not_or]
        exact ⟨fun he => hc (beq_iff_eq.2 he.symm), ih List.mem_cons_self⟩
      · exact ih (List.mem_cons_of_mem _ h)

lemma segments_intercalate {ss : List (List Char)} (hne : ss ≠ []) (h : ∀ s ∈ ss, '/' ∉ s) :
    segments (['/'].intercalate ss) = ss := by
  rw [segments_eq_splitOn, List.splitOn_intercalate '/' h hne]

/-! ### Resolving -/

/-- A segment that is neither empty nor made of one or two dots. -/
def isName (s : List Char) : Bool := !(s.isEmpty || s == ['.'] || s == ['.', '.'])

lemma isName_iff {s : List Char} : isName s = true ↔ s ≠ [] ∧ s ≠ ['.'] ∧ s ≠ ['.', '.'] := by
  simp [isName, and_assoc]

/-- The segments of a path with its empty and dot segments resolved. -/
def resolved (path : List Char) : List (List Char) :=
  ((segments path).foldl pushSegment []).reverse

/-- The names that a path starts with. -/
def leadingNames (path : List Char) : List (List Char) := (segments path).takeWhile isName

lemma collapse_eq (path : List Char) : collapse path = ['/'].intercalate (resolved path) := rfl

lemma pushSegment_of_isName {s : List Char} (h : isName s = true) (path : List (List Char)) :
    pushSegment path s = s :: path := by
  obtain ⟨hempty, hdot, hdots⟩ := isName_iff.1 h
  rw [pushSegment, if_neg (not_or.2 ⟨hempty, hdot⟩), if_neg hdots]

lemma mem_pushSegment {path : List (List Char)} {s x : List Char} (h : x ∈ pushSegment path s) :
    x ∈ path ∨ x = s ∧ isName s = true := by
  unfold pushSegment at h
  split at h
  · exact .inl h
  · next hn =>
    split at h
    · exact .inl (List.mem_of_mem_drop h)
    · next hdots =>
      obtain ⟨hempty, hdot⟩ := not_or.1 hn
      exact (List.mem_cons.1 h).symm.imp_right fun hx => ⟨hx, isName_iff.2 ⟨hempty, hdot, hdots⟩⟩

lemma mem_foldl_pushSegment {path ss : List (List Char)} {x : List Char}
    (h : x ∈ ss.foldl pushSegment path) : x ∈ path ∨ x ∈ ss ∧ isName x = true := by
  induction ss generalizing path with
  | nil => exact .inl h
  | cons s ss ih =>
    rcases ih h with h | ⟨hx, hn⟩
    · rcases mem_pushSegment h with h | ⟨rfl, hn⟩
      · exact .inl h
      · exact .inr ⟨List.mem_cons_self, hn⟩
    · exact .inr ⟨List.mem_cons_of_mem _ hx, hn⟩

lemma mem_resolved {path x : List Char} (h : x ∈ resolved path) :
    x ∈ segments path ∧ isName x = true := by
  rcases mem_foldl_pushSegment (List.mem_reverse.1 h) with h | h
  · cases h
  · exact h

/-- The segments of a resolved path; a path with nothing left has one empty segment. -/
lemma segments_collapse (path : List Char) :
    segments (collapse path) = if resolved path = [] then [[]] else resolved path := by
  rw [collapse_eq]
  split
  · next h => simp [h, segments, splitWhen]
  · next h =>
    exact segments_intercalate h fun s hs => slash_notMem_of_mem_segments (mem_resolved hs).1

/-- Some names are in front of a resolved path just when its text says so. -/
lemma prefix_segments_collapse_iff {names : List (List Char)} {path : List Char}
    (h : ∀ s ∈ names, isName s = true) :
    names <+: segments (collapse path) ↔ names <+: resolved path := by
  rw [segments_collapse]
  split
  · next hr =>
    rw [hr]
    cases names with
    | nil => simp
    | cons s names =>
      refine iff_of_false ?_ (by simp)
      intro hp
      rcases List.prefix_cons_iff.1 hp with hp | ⟨_, he, _⟩
      · cases hp
      · exact (isName_iff.1 (h s List.mem_cons_self)).1 (List.cons.inj he).1
  · rfl

/-- Without a `..` every name stays, in the order of the path. -/
lemma foldl_pushSegment_of_no_climb {ss : List (List Char)} (h : ['.', '.'] ∉ ss)
    (path : List (List Char)) :
    ss.foldl pushSegment path = (ss.filter isName).reverse ++ path := by
  induction ss generalizing path with
  | nil => rfl
  | cons s ss ih =>
    obtain ⟨hs, hss⟩ := not_or.1 (mt List.mem_cons.2 h)
    rw [List.foldl_cons, ih hss]
    by_cases hn : isName s = true
    · rw [pushSegment_of_isName hn, List.filter_cons_of_pos hn]
      simp
    · have : pushSegment path s = path := by
        have : s = [] ∨ s = ['.'] := by
          by_contra hno
          obtain ⟨hempty, hdot⟩ := not_or.1 hno
          exact hn (isName_iff.2 ⟨hempty, hdot, Ne.symm hs⟩)
        rw [pushSegment, if_pos this]
      rw [this, List.filter_cons_of_neg hn]

lemma leadingNames_prefix_of_no_climb {path : List Char} (h : ['.', '.'] ∉ segments path) :
    leadingNames path <+: resolved path := by
  rw [resolved, foldl_pushSegment_of_no_climb h, leadingNames, List.append_nil,
    List.reverse_reverse]
  generalize segments path = ss
  have hnames : (ss.takeWhile isName).filter isName = ss.takeWhile isName :=
    List.filter_eq_self.2 (List.all_eq_true.1 List.all_takeWhile)
  calc ss.takeWhile isName
      = (ss.takeWhile isName).filter isName := hnames.symm
    _ <+: (ss.takeWhile isName).filter isName ++ (ss.dropWhile isName).filter isName :=
        List.prefix_append _ _
    _ = ss.filter isName := by rw [← List.filter_append, List.takeWhile_append_dropWhile]

end Mender.Module
