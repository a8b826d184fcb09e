import Mathlib.Data.Finset.Lattice.Lemmas
import Mathlib.Data.Finset.SDiff
import Mathlib.Data.List.FinRange
import Mathlib.Tactic.Lemma
import Mender.Diagnostic

/-!
Merging lists of diagnostics.

A list is kept as it is when another is merged into it, and of each key that it does not hold the first
diagnostic of the other is added. These are found by a scan that remembers the keys it has seen. It starts
with those of the first list, so that where one merge ends the next goes on.
-/

namespace Mender

namespace Diagnostic

/-- What makes diagnostics the same: origin, message and line. -/
abbrev Key := Origin × String × Option Nat

variable {ds : List Diagnostic} {d : Diagnostic} {seen : Finset Key} {k : Key}

/-! ### Keys -/

/-- The keys of the diagnostics of a list. -/
def keysOf (ds : List Diagnostic) : Finset Key := (ds.map key).toFinset

lemma mem_keysOf : k ∈ keysOf ds ↔ ∃ d ∈ ds, d.key = k := by
  simp [keysOf]

@[simp] lemma keysOf_nil : keysOf [] = ∅ := rfl

@[simp] lemma keysOf_cons (d : Diagnostic) (ds : List Diagnostic) :
    keysOf (d :: ds) = insert d.key (keysOf ds) := by
  simp [keysOf]

@[simp] lemma keysOf_append (l m : List Diagnostic) : keysOf (l ++ m) = keysOf l ∪ keysOf m := by
  simp [keysOf]

lemma mem_keysOf_iff_find? : k ∈ keysOf ds ↔ (ds.find? fun d => d.key = k).isSome = true := by
  simp [mem_keysOf]

/-! ### The scan -/

/-- The diagnostics whose key has not been seen, of each such key the first. -/
def unseen (seen : Finset Key) : List Diagnostic → List Diagnostic
  | [] => []
  | d :: ds => (if d.key ∈ seen then [] else [d]) ++ unseen (insert d.key seen) ds

lemma unseen_append (seen : Finset Key) (l m : List Diagnostic) :
    unseen seen (l ++ m) = unseen seen l ++ unseen (seen ∪ keysOf l) m := by
  induction l generalizing seen with
  | nil => rw [keysOf_nil, Finset.union_empty, List.nil_append, unseen, List.nil_append]
  | cons d l ih =>
    rw [List.cons_append, unseen, unseen, keysOf_cons, ih, List.append_assoc, Finset.insert_union,
      Finset.union_insert]

section

variable (seen : Finset Key) (ds : List Diagnostic) (k : Key)

/-- A key that has been seen is passed over, and of another the first diagnostic is taken. -/
lemma find?_unseen : (unseen seen ds).find? (fun d => d.key = k) =
    if k ∈ seen then none else ds.find? fun d => d.key = k := by
  induction ds generalizing seen with
  | nil => simp [unseen]
  | cons d ds ih =>
    rw [unseen, List.find?_append, ih]
    by_cases hk : d.key = k
    · subst hk
      by_cases h : d.key ∈ seen <;> simp [h]
    · by_cases h : d.key ∈ seen <;> simp [h, hk, Ne.symm hk]

/-- No key is taken twice. -/
lemma countP_unseen : (unseen seen ds).countP (fun d => d.key = k) =
    if k ∈ keysOf ds \ seen then 1 else 0 := by
  induction ds generalizing seen with
  | nil => simp [unseen]
  | cons d ds ih =>
    rw [unseen, List.countP_append, ih]
    by_cases hk : d.key = k
    · subst hk
      by_cases h : d.key ∈ seen <;> simp [h]
    · by_cases h : d.key ∈ seen <;> simp [h, hk, Ne.symm hk]

lemma keysOf_unseen : keysOf (unseen seen ds) = keysOf ds \ seen := by
  ext k
  rw [Finset.mem_sdiff, mem_keysOf_iff_find?, mem_keysOf_iff_find?, find?_unseen]
  by_cases h : k ∈ seen <;> simp [h]

end

/-- Nothing is taken where all keys have been seen. -/
lemma unseen_of_subset (h : keysOf ds ⊆ seen) : unseen seen ds = [] := by
  induction ds with
  | nil => rfl
  | cons d ds ih =>
    obtain ⟨hd, hds⟩ := Finset.insert_subset_iff.1 (keysOf_cons d ds ▸ h)
    rw [unseen, if_pos hd, Finset.insert_eq_of_mem hd, ih hds, List.nil_append]

/-- A diagnostic that is taken stands behind none with its key. -/
lemma exists_of_mem_unseen (h : d ∈ unseen seen ds) :
    ∃ before after, ds = before ++ d :: after ∧ d.key ∉ seen ∪ keysOf before := by
  induction ds generalizing seen with
  | nil => exact absurd h List.not_mem_nil
  | cons x ds ih =>
    rcases List.mem_append.1 h with h | h
    · obtain ⟨hx, rfl⟩ : x.key ∉ seen ∧ d = x := by simpa using h
      exact ⟨[], ds, rfl, by simpa using hx⟩
    · obtain ⟨before, after, rfl, hd⟩ := ih h
      refine ⟨x :: before, after, rfl, ?_⟩
      rwa [keysOf_cons, Finset.union_insert, ← Finset.insert_union]

/-! ### Places -/

/-- A key that has not been seen stands at this place of the list, and at none before it. -/
def IsFirst (seen : Finset Key) (ds : List Diagnostic) (i : Fin ds.length) : Prop :=
  ds[i].key ∉ seen ∧ ∀ j < i, ds[j].key ≠ ds[i].key

instance : DecidablePred (IsFirst seen ds) := fun i =>
  inferInstanceAs (Decidable (ds[i].key ∉ seen ∧ ∀ j < i, ds[j].key ≠ ds[i].key))

/-- The places at which a new key stands first, from the first to the last. -/
def firstPlaces (seen : Finset Key) (ds : List Diagnostic) : List (Fin ds.length) :=
  (List.finRange ds.length).filter fun i => IsFirst seen ds i

lemma isFirst_zero : IsFirst seen (d :: ds) (0 : Fin (ds.length + 1)) ↔ d.key ∉ seen :=
  ⟨fun h => h.1, fun h => ⟨h, fun j hj => absurd hj (Fin.not_lt_zero j)⟩⟩

/-- What stands in front of a place has been seen there. -/
lemma isFirst_succ (i : Fin ds.length) :
    IsFirst seen (d :: ds) i.succ ↔ IsFirst (insert d.key seen) ds i := by
  constructor
  · rintro ⟨hi, hbefore⟩
    refine ⟨fun hmem => ?_, fun j hj => hbefore j.succ (Fin.succ_lt_succ_iff.2 hj)⟩
    rcases Finset.mem_insert.1 hmem with heq | hmem
    · exact hbefore (0 : Fin (ds.length + 1)) (Fin.succ_pos i) heq.symm
    · exact hi hmem
  · rintro ⟨hi, hbefore⟩
    obtain ⟨hd, hi⟩ := not_or.1 (mt Finset.mem_insert.2 hi)
    refine ⟨hi, Fin.cases (fun _ => Ne.symm hd) fun j hj => ?_⟩
    exact hbefore j (Fin.succ_lt_succ_iff.1 hj)

lemma firstPlaces_cons (seen : Finset Key) (d : Diagnostic) (ds : List Diagnostic) :
    firstPlaces seen (d :: ds) = (if d.key ∈ seen then [] else [(0 : Fin (ds.length + 1))]) ++
      (firstPlaces (insert d.key seen) ds).map Fin.succ := by
  have hplaces : List.finRange (d :: ds).length = 0 :: (List.finRange ds.length).map Fin.succ :=
    List.finRange_succ
  have hrest : (fun i => decide (IsFirst seen (d :: ds) i)) ∘ Fin.succ =
      fun i => decide (IsFirst (insert d.key seen) ds i) :=
    funext fun i => decide_eq_decide.2 (isFirst_succ i)
  unfold firstPlaces
  rw [hplaces, List.filter_cons, List.filter_map, hrest]
  by_cases h : d.key ∈ seen
  · rw [if_pos h, if_neg fun hfirst => isFirst_zero.1 (of_decide_eq_true hfirst) h, List.nil_append]
  · rw [if_neg h, if_pos (decide_eq_true (isFirst_zero.2 h)), List.singleton_append]

/-- What the scan takes stands at these places. -/
lemma map_firstPlaces (seen : Finset Key) (ds : List Diagnostic) :
    (firstPlaces seen ds).map ds.get = unseen seen ds := by
  induction ds generalizing seen with
  | nil => rfl
  | cons d ds ih =>
    rw [firstPlaces_cons, List.map_append, List.map_map, unseen, ← ih]
    split <;> rfl

lemma map_firstPlaces_sublist (seen : Finset Key) (ds : List Diagnostic) :
    ((firstPlaces seen ds).map ds.get).Sublist ds := by
  have hsub : (firstPlaces seen ds).Sublist (List.finRange ds.length) := List.filter_sublist
  simpa only [List.map_get_finRange] using hsub.map ds.get

end Diagnostic

/-! ### Merging -/

section

open Diagnostic

variable {into extra before after : List Diagnostic} {d : Diagnostic}

/-- The keys that have been seen are those of the list that has been merged so far. -/
lemma mergeDiagnostics_eq (into extra : List Diagnostic) :
    mergeDiagnostics into extra = into ++ unseen (keysOf into) extra := by
  induction extra generalizing into with
  | nil => exact (List.append_nil into).symm
  | cons d extra ih =>
    have hseen : (into.any fun e => e.key == d.key) = true ↔ d.key ∈ keysOf into := by
      simp [mem_keysOf]
    rw [mergeDiagnostics, unseen, ih, ih]
    by_cases h : d.key ∈ keysOf into
    · rw [if_pos (hseen.2 h), if_pos h, Finset.insert_eq_of_mem h, List.nil_append]
    · have hkeys : keysOf (into ++ [d]) = insert d.key (keysOf into) := by
        rw [keysOf_append, keysOf_cons, keysOf_nil, Finset.union_insert, Finset.union_empty]
      rw [if_neg (mt hseen.1 h), if_neg h, hkeys, List.append_assoc]

lemma keysOf_mergeDiagnostics (into extra : List Diagnostic) :
    keysOf (mergeDiagnostics into extra) = keysOf into ∪ keysOf extra := by
  rw [mergeDiagnostics_eq, keysOf_append, keysOf_unseen, Finset.union_sdiff_self_eq_union]

lemma mergeDiagnostics_append (into l m : List Diagnostic) :
    mergeDiagnostics into (l ++ m) = mergeDiagnostics (mergeDiagnostics into l) m := by
  calc mergeDiagnostics into (l ++ m)
      = (into ++ unseen (keysOf into) l) ++ unseen (keysOf into ∪ keysOf l) m := by
        rw [mergeDiagnostics_eq, unseen_append, List.append_assoc]
    _ = mergeDiagnostics into l ++ unseen (keysOf (mergeDiagnostics into l)) m := by
        rw [keysOf_mergeDiagnostics, ← mergeDiagnostics_eq]
    _ = mergeDiagnostics (mergeDiagnostics into l) m := (mergeDiagnostics_eq _ m).symm

lemma mergeDiagnostics_of_subset (h : keysOf extra ⊆ keysOf into) :
    mergeDiagnostics into extra = into := by
  rw [mergeDiagnostics_eq, unseen_of_subset h, List.append_nil]

lemma mem_mergeDiagnostics_of_mem (h : d ∈ into) : d ∈ mergeDiagnostics into extra := by
  rw [mergeDiagnostics_eq]
  exact List.mem_append_left _ h

/-- What is merged was there before, or is the first of the new ones with its key. -/
lemma first_of_mem_mergeDiagnostics (h : d ∈ mergeDiagnostics into extra) :
    d ∈ into ∨ ∃ before after, extra = before ++ d :: after ∧
      ∀ e ∈ into ++ before, e.key ≠ d.key := by
  rw [mergeDiagnostics_eq] at h
  refine (List.mem_append.1 h).imp_right fun hnew => ?_
  obtain ⟨before, after, hextra, hd⟩ := exists_of_mem_unseen hnew
  rw [← keysOf_append] at hd
  exact ⟨before, after, hextra, fun e he hkey => hd (mem_keysOf.2 ⟨e, he, hkey⟩)⟩

lemma mem_of_mem_mergeDiagnostics (h : d ∈ mergeDiagnostics into extra) : d ∈ into ++ extra := by
  rcases first_of_mem_mergeDiagnostics h with h | ⟨before, after, rfl, -⟩
  · exact List.mem_append_left _ h
  · simp

/-- A finding that is not kept comes after one with its key that is. -/
theorem merged_or_behind (into : List Diagnostic) (h : extra = before ++ d :: after) :
    d ∈ mergeDiagnostics into extra ∨
      ∃ e ∈ into ++ before, e ∈ mergeDiagnostics into extra ∧ e.key = d.key := by
  rw [h, mergeDiagnostics_append, mergeDiagnostics]
  split
  case isTrue hd =>
    obtain ⟨e, he, hkey⟩ : ∃ e ∈ mergeDiagnostics into before, e.key = d.key := by simpa using hd
    exact .inr ⟨e, mem_of_mem_mergeDiagnostics he, mem_mergeDiagnostics_of_mem he, hkey⟩
  case isFalse =>
    exact .inl (mem_mergeDiagnostics_of_mem (List.mem_append_right _ List.mem_cons_self))

/-- **A merge keeps the first list as it is,** with the keys it repeats, and adds to it what stands in the
second at the places where a new key comes first. So what is added stands in the order of the second list;
each of its keys that the first has not comes once, with its first diagnostic, and no other comes. Merging
the second list again changes nothing, and merging a third then is merging the two behind one another. -/
theorem merged_firsts (a b c : List Diagnostic) :
    let new := (firstPlaces (keysOf a) b).map b.get
    mergeDiagnostics a b = a ++ new ∧ new.Sublist b ∧
      keysOf (mergeDiagnostics a b) = keysOf a ∪ keysOf b ∧
      (∀ k, new.countP (fun d => d.key = k) = if k ∈ keysOf b \ keysOf a then 1 else 0) ∧
      (∀ k, new.find? (fun d => d.key = k) =
        if k ∈ keysOf a then none else b.find? fun d => d.key = k) ∧
      mergeDiagnostics (mergeDiagnostics a b) b = mergeDiagnostics a b ∧
      mergeDiagnostics (mergeDiagnostics a b) c = mergeDiagnostics a (b ++ c) := by
  intro new
  have hnew : new = unseen (keysOf a) b := map_firstPlaces (keysOf a) b
  have hheld : keysOf b ⊆ keysOf (mergeDiagnostics a b) := by
    rw [keysOf_mergeDiagnostics]
    exact Finset.subset_union_right
  refine ⟨?_, map_firstPlaces_sublist _ b, keysOf_mergeDiagnostics a b, fun k => ?_, fun k => ?_,
    mergeDiagnostics_of_subset hheld, (mergeDiagnostics_append a b c).symm⟩
  · rw [hnew, mergeDiagnostics_eq]
  · rw [hnew, countP_unseen]
  · rw [hnew, find?_unseen]

/-- The first list repeats a key, and the second has it too. Of the key that is new the milder diagnostic
comes first. -/
example :
    let unused (s : Severity) (line : Nat) : Diagnostic :=
      ⟨s, .typecheck, "unused", some line, none, none, none⟩
    mergeDiagnostics [unused .error 1, unused .warning 1]
        [unused .warning 2, unused .error 1, unused .error 2] =
      [unused .error 1, unused .warning 1, unused .warning 2] := by
  decide

end

end Mender
