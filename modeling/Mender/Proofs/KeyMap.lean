import Mathlib.Data.List.Induction
import Mathlib.Data.List.Nodup
import Mathlib.Tactic.Common
import Mathlib.Tactic.Lemma
import Mender.KeyMap

/-!
Looking up keys in maps.
-/

namespace Mender

variable {α : Type}

lemma lookup_cons_if (k : String) (e : String × α) (r : List (String × α)) :
    (e :: r).lookup k = if k = e.1 then some e.2 else r.lookup k := by
  rw [List.lookup_cons]
  by_cases h : k = e.1
  · rw [if_pos h, beq_iff_eq.2 h]
  · rw [if_neg h, beq_eq_false_iff_ne.2 h]

/-- A key in front of all the others is none of them. -/
lemma ne_of_lt_keys {k : String} {r : List (String × α)} (h : ∀ d ∈ r, k < d.1) {d : String × α}
    (hd : d ∈ r) : k ≠ d.1 :=
  fun he => String.lt_irrefl _ (he ▸ h d hd)

lemma lookup_eq_none_of_lt {k : String} {r : List (String × α)} (h : ∀ d ∈ r, k < d.1) :
    r.lookup k = none :=
  List.lookup_eq_none_iff.2 fun _ hd => bne_iff_ne.2 (ne_of_lt_keys h hd)

lemma lookup_insertEntry (k : String) (v : α) (k' : String) (r : List (String × α)) :
    (insertEntry k v r).lookup k' = if k' = k then some v else r.lookup k' := by
  induction r with
  | nil => rw [insertEntry, lookup_cons_if]
  | cons e r ih =>
    rw [insertEntry]
    split
    · rw [lookup_cons_if]
    · split
      · next hk =>
        rw [lookup_cons_if, lookup_cons_if, hk]
        split <;> rfl
      · next hk =>
        rw [lookup_cons_if, ih, lookup_cons_if]
        by_cases h : k' = e.1
        · have hne : k' ≠ k := fun h' => hk (h'.symm.trans h)
          rw [if_pos h, if_neg hne, if_pos h]
        · rw [if_neg h, if_neg h]

lemma mem_insertEntry_self (k : String) (v : α) (r : List (String × α)) :
    (k, v) ∈ insertEntry k v r := by
  fun_induction insertEntry k v r with
  | case1 | case2 | case3 => simp
  | case4 e r _ _ ih => exact List.mem_cons_of_mem e ih

lemma mem_insertEntry_of_ne {k : String} {v : α} {e : String × α} {r : List (String × α)}
    (h : e ∈ r) (hk : e.1 ≠ k) : e ∈ insertEntry k v r := by
  fun_induction insertEntry k v r with
  | case1 => cases h
  | case2 => exact List.mem_cons_of_mem _ h
  | case3 d r _ heq =>
    refine List.mem_cons_of_mem _ ((List.mem_cons.1 h).resolve_left ?_)
    rintro rfl
    exact hk heq.symm
  | case4 d r _ _ ih =>
    rcases List.mem_cons.1 h with rfl | h
    · exact List.mem_cons_self
    · exact List.mem_cons_of_mem d (ih h)

/-- Entries with different keys all stay. -/
lemma mem_foldl_insertEntry {es r : List (String × α)} (hes : (es.map (·.1)).Nodup)
    {e : String × α} (h : e ∈ es ∨ e ∈ r ∧ e.1 ∉ es.map (·.1)) :
    e ∈ es.foldl (fun r d => insertEntry d.1 d.2 r) r := by
  induction es generalizing r with
  | nil => exact (h.resolve_left (List.not_mem_nil)).1
  | cons d es ih =>
    obtain ⟨hd, hes⟩ := List.nodup_cons.1 hes
    refine ih hes ?_
    rcases h with h | ⟨h, hkey⟩
    · rcases List.mem_cons.1 h with rfl | h
      · exact .inr ⟨mem_insertEntry_self _ _ _, hd⟩
      · exact .inl h
    · obtain ⟨hne, hkey⟩ := not_or.1 (mt List.mem_cons.2 hkey)
      exact .inr ⟨mem_insertEntry_of_ne h hne, hkey⟩

namespace KeyMap

lemma get?_insert (m : KeyMap α) (k : String) (v : α) (k' : String) :
    (m.insert k v).get? k' = if k' = k then some v else m.get? k' :=
  lookup_insertEntry k v k' m.entries

@[simp] lemma get?_insert_self (m : KeyMap α) (k : String) (v : α) :
    (m.insert k v).get? k = some v := by
  rw [get?_insert, if_pos rfl]

lemma get?_insert_of_ne (m : KeyMap α) {k k' : String} (v : α) (h : k' ≠ k) :
    (m.insert k v).get? k' = m.get? k' := by
  rw [get?_insert, if_neg h]

@[simp] lemma get?_empty (k : String) : (∅ : KeyMap α).get? k = none := rfl

lemma contains_iff {m : KeyMap α} {k : String} : m.contains k = true ↔ ∃ v, m.get? k = some v := by
  rw [contains, Option.isSome_iff_exists]

lemma contains_insert {m : KeyMap α} {k : String} {v : α} {k' : String} :
    (m.insert k v).contains k' = true ↔ k' = k ∨ m.contains k' = true := by
  rw [contains, get?_insert]
  by_cases h : k' = k
  · simp [h]
  · simp [h, contains]

lemma mem_keys_iff {m : KeyMap α} {k : String} : k ∈ m.keys ↔ m.contains k = true := by
  suffices h : ∀ r : List (String × α), k ∈ r.map (·.1) ↔ (r.lookup k).isSome = true by
    exact h m.entries
  intro r
  induction r with
  | nil => simp
  | cons e r ih =>
    rw [List.map_cons, List.mem_cons, lookup_cons_if, ih]
    by_cases h : k = e.1 <;> simp [h]

/-- A key's value stays only if it satisfies `p`; keys are distinct, so nothing else can show. -/
lemma get?_filter (m : KeyMap α) (p : α → Bool) (k : String) :
    (m.filter p).get? k = (m.get? k).filter p := by
  suffices h : ∀ r : List (String × α), KeysIncrease r →
      (r.filter fun e => p e.2).lookup k = (r.lookup k).filter p by
    exact h m.entries m.increase
  intro r hr
  induction r with
  | nil => rfl
  | cons e r ih =>
    obtain ⟨he, hr⟩ := List.pairwise_cons.1 hr
    rw [List.filter_cons, lookup_cons_if]
    by_cases hk : k = e.1
    · rw [if_pos hk]
      by_cases hp : p e.2 = true
      · rw [if_pos hp, lookup_cons_if, if_pos hk, Option.filter_some, if_pos hp]
      · have hnone : (r.filter fun e => p e.2).lookup k = none :=
          lookup_eq_none_of_lt fun d hd => hk ▸ he d (List.mem_filter.1 hd).1
        rw [if_neg hp, hnone, Option.filter_some, if_neg hp]
    · rw [if_neg hk, ← ih hr]
      split
      · rw [lookup_cons_if, if_neg hk]
      · rfl

lemma ofList_concat (l : List (String × α)) (e : String × α) :
    ofList (l ++ [e]) = (ofList l).insert e.1 e.2 := by
  rw [ofList, List.foldl_append]
  rfl

/-- The last of the entries with a key is the one that counts. -/
lemma get?_ofList (l : List (String × α)) (k : String) :
    (ofList l).get? k = ((l.filter fun e => e.1 == k).getLast?).map (·.2) := by
  induction l using List.reverseRecOn with
  | nil => rfl
  | append_singleton l e ih =>
    rw [ofList_concat, get?_insert, List.filter_append, ih]
    by_cases hk : e.1 = k
    · simp [hk]
    · simp [hk, Ne.symm hk]

lemma contains_ofList {l : List (String × α)} {k : String} :
    (ofList l).contains k = true ↔ k ∈ l.map (·.1) := by
  rw [contains, get?_ofList, Option.isSome_map, List.getLast?_isSome, ne_eq,
    List.filter_eq_nil_iff, List.mem_map]
  simp

lemma size_insert (m : KeyMap α) (k : String) (v : α) :
    (m.insert k v).size = m.size + if m.contains k then 0 else 1 := by
  suffices h : ∀ r : List (String × α), KeysIncrease r →
      (insertEntry k v r).length = r.length + if (r.lookup k).isSome then 0 else 1 by
    exact h m.entries m.increase
  intro r hr
  induction r with
  | nil => rfl
  | cons e r ih =>
    obtain ⟨he, hr⟩ := List.pairwise_cons.1 hr
    rw [insertEntry, lookup_cons_if]
    split
    · next hk =>
      -- every key behind is greater still
      have hnone : r.lookup k = none :=
        lookup_eq_none_of_lt fun d hd => String.lt_trans hk (he d hd)
      have hne : k ≠ e.1 := fun h => String.lt_irrefl _ (h ▸ hk)
      rw [if_neg hne, hnone]
      rfl
    · split
      · rfl
      · rw [List.length_cons, List.length_cons, ih hr]
        omega

/-- Of entries with different keys each one stays. -/
lemma get?_ofList_eq_some_iff {l : List (String × α)} (hl : (l.map (·.1)).Nodup) {k : String} {v : α} :
    (ofList l).get? k = some v ↔ (k, v) ∈ l := by
  rw [get?_ofList, Option.map_eq_some_iff]
  constructor
  · rintro ⟨e, he, rfl⟩
    obtain ⟨hmem, hk⟩ := List.mem_filter.1 (List.mem_of_getLast? he)
    rwa [← beq_iff_eq.1 hk]
  · intro hmem
    have hself : (k, v) ∈ l.filter fun e => e.1 == k := List.mem_filter.2 ⟨hmem, beq_self_eq_true k⟩
    obtain ⟨e, he⟩ := Option.isSome_iff_exists.1
      (List.getLast?_isSome.2 (List.ne_nil_of_mem hself))
    obtain ⟨he', hk⟩ := List.mem_filter.1 (List.mem_of_getLast? he)
    have hsame : e = (k, v) := List.inj_on_of_nodup_map hl he' hmem (beq_iff_eq.1 hk)
    exact ⟨e, he, congrArg Prod.snd hsame⟩

lemma size_ofList {l : List (String × α)} (hl : (l.map (·.1)).Nodup) :
    (ofList l).size = l.length := by
  induction l using List.reverseRecOn with
  | nil => rfl
  | append_singleton l e ih =>
    rw [List.map_append, List.nodup_append] at hl
    obtain ⟨hl, -, happart⟩ := hl
    have hnew : ¬ (ofList l).contains e.1 = true := fun h =>
      happart e.1 (contains_ofList.1 h) e.1 (by simp) rfl
    rw [ofList_concat, size_insert, if_neg hnew, ih hl, List.length_append, List.length_singleton]

/-- A map from some keys to what `f` gives for them. -/
lemma get?_ofList_map (f : String → α) (l : List String) (k : String) :
    (ofList (l.map fun i => (i, f i))).get? k = if k ∈ l then some (f k) else none := by
  suffices h : ∀ m : KeyMap α,
      ((l.map fun i => (i, f i)).foldl (fun m e => m.insert e.1 e.2) m).get? k =
        if k ∈ l then some (f k) else m.get? k by
    exact h ∅
  induction l with
  | nil => simp
  | cons i l ih =>
    intro m
    rw [List.map_cons, List.foldl_cons, ih, get?_insert]
    by_cases hl : k ∈ l
    · simp [hl]
    · by_cases hi : k = i <;> simp [hl, hi]

end KeyMap

end Mender
