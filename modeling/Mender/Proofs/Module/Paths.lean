import Mender.Component.Stubs
import Mender.Proofs.KeyMap
import Mender.Proofs.Module.Policy

/-!
The keys that paths stand for.

A path of a dependency has a key, and so has a specifier that names the dependency. A resolved path has
names for its segments, or is empty, and these are exactly the paths that resolving leaves as they are. A
path that is written without a mark in front is not resolved at all, so it has the key that its
specifiers have exactly if there is nothing to resolve in it.
-/

namespace Mender.Module

open Mender.Text

/-! ### Resolved paths -/

/-- Nothing is to be resolved in the path: it is empty, or all its segments are names. -/
def IsResolved (t : List Char) : Prop := t = [] ∨ ∀ s ∈ segments t, isName s = true

instance (t : List Char) : Decidable (IsResolved t) :=
  inferInstanceAs (Decidable (t = [] ∨ ∀ s ∈ segments t, isName s = true))

lemma resolved_of_names {t : List Char} (h : ∀ s ∈ segments t, isName s = true) :
    resolved t = segments t := by
  have hclimb : ['.', '.'] ∉ segments t := fun hmem => absurd (h _ hmem) (by decide)
  rw [resolved, foldl_pushSegment_of_no_climb hclimb, List.append_nil, List.reverse_reverse,
    List.filter_eq_self.2 h]

lemma isResolved_collapse (t : List Char) : IsResolved (collapse t) := by
  by_cases hr : resolved t = []
  · left
    rw [collapse_eq, hr]
    rfl
  · right
    rw [segments_collapse, if_neg hr]
    exact fun s hs => (mem_resolved hs).2

/-- **Resolving leaves a path as it is** exactly if there is nothing to resolve. -/
theorem collapse_eq_self_iff {t : List Char} : collapse t = t ↔ IsResolved t := by
  constructor
  · intro h
    rw [← h]
    exact isResolved_collapse t
  · rintro (rfl | h)
    · rfl
    · rw [collapse_eq, resolved_of_names h, intercalate_segments]

/-- The text before the first slash is a segment. -/
lemma mem_segments_of_slash {a : List Char} (ha : '/' ∉ a) (b : List Char) :
    a ∈ segments (a ++ '/' :: b) := by
  have hself : segments a = [a] := by
    have := segments_intercalate (List.cons_ne_nil a []) fun s hs => List.mem_singleton.1 hs ▸ ha
    simpa using this
  rw [segments_append_slash, hself]
  exact List.mem_append_left _ (List.mem_singleton_self a)

/-- A resolved path has no mark in front. -/
lemma IsResolved.unmarked {t : List Char} (h : IsResolved t) {a : List Char} (ha : '/' ∉ a)
    (hn : isName a = false) (b : List Char) : t ≠ a ++ '/' :: b := by
  rintro rfl
  rcases h with h | h
  · simp at h
  · rw [h a (mem_segments_of_slash ha b)] at hn
    cases hn

/-- An ending goes to the last segment. -/
lemma segments_append {e : List Char} (he : '/' ∉ e) (t : List Char) :
    ∃ init last, segments t = init ++ [last] ∧ segments (t ++ e) = init ++ [last ++ e] := by
  induction t with
  | nil =>
    refine ⟨[], [], rfl, ?_⟩
    have := segments_intercalate (List.cons_ne_nil e []) fun s hs => List.mem_singleton.1 hs ▸ he
    simpa using this
  | cons c t ih =>
    obtain ⟨init, last, ht, hte⟩ := ih
    simp only [segments] at ht hte ⊢
    rw [List.cons_append, splitWhen, splitWhen, ht, hte]
    by_cases hc : c = '/'
    · subst hc
      exact ⟨[] :: init, last, rfl, rfl⟩
    · have hc' : ¬ ((c == '/') = true) := by simpa using hc
      rw [if_neg hc', if_neg hc']
      cases init with
      | nil => exact ⟨[], c :: last, rfl, rfl⟩
      | cons w init => exact ⟨(c :: w) :: init, last, rfl, rfl⟩

lemma isName_of_length {s : List Char} (h : 3 ≤ s.length) : isName s = true := by
  rw [isName_iff]
  refine ⟨?_, ?_, ?_⟩ <;> rintro rfl <;> simp at h

/-- A resolved path with an ending of a file is resolved. -/
lemma IsResolved.append {t e : List Char} (h : IsResolved t) (he : '/' ∉ e) (hlong : 3 ≤ e.length) :
    IsResolved (t ++ e) := by
  obtain ⟨init, last, ht, hte⟩ := segments_append he t
  have hlast : isName (last ++ e) = true :=
    isName_of_length (by rw [List.length_append]; omega)
  right
  intro s hs
  rw [hte] at hs
  rcases List.mem_append.1 hs with hs | hs
  · rcases h with rfl | h
    · -- the empty path has one segment
      have hone : [] ++ [[]] = init ++ [last] := ht
      obtain ⟨rfl, -⟩ := List.append_inj' hone rfl
      cases hs
    · exact h s (ht ▸ List.mem_append_left _ hs)
  · rwa [List.mem_singleton.1 hs]

lemma isResolved_of_mem_candidates {t : List Char} (h : IsResolved t) {k : String}
    (hk : k ∈ candidates (String.ofList t)) : IsResolved k.toList := by
  simp only [candidates, List.mem_cons, List.not_mem_nil, or_false] at hk
  rcases hk with rfl | rfl | rfl | rfl
  · rwa [String.toList_ofList]
  all_goals
    rw [String.toList_append, String.toList_ofList]
    exact h.append (by decide) (by decide)

/-! ### Keys -/

lemma isRelative_iff {t : List Char} :
    isRelative t = true ↔ (∃ r, t = ['.'] ++ '/' :: r) ∨ ∃ r, t = ['.', '.'] ++ '/' :: r := by
  simp only [isRelative, startsWith, Bool.or_eq_true, Option.isSome_iff_exists, after?_eq_some_iff]
  rfl

/-- A specifier without a mark in front is its own key. -/
lemma normalize_of_not_local {s : String} (h : isLocal s = false) (dir : String) :
    normalize dir s = s := by
  simp only [isLocal, Bool.or_eq_false_iff] at h
  obtain ⟨⟨hrelative, habsolute⟩, hlibrary⟩ := h
  rw [normalize, hlibrary, if_neg Bool.false_ne_true]
  split
  · next hs =>
    rw [hs] at habsolute
    cases habsolute
  · rw [hrelative, if_neg Bool.false_ne_true]

/-- The key of a local specifier is resolved. -/
lemma exists_normalize_eq {s : String} (h : isLocal s = true) (dir : String) :
    ∃ t, normalize dir s = String.ofList (collapse t) := by
  rw [normalize]
  split
  · exact ⟨_, rfl⟩
  · next hlibrary =>
    split
    · exact ⟨_, rfl⟩
    · next hslash =>
      have hrelative : isRelative s.toList = true := by
        simp only [isLocal, Bool.or_eq_true, beq_iff_eq] at h
        refine (h.resolve_right hlibrary).resolve_right fun hhead => ?_
        obtain ⟨r, hr⟩ := List.head?_eq_some_iff.1 hhead
        exact hslash r hr
      rw [if_pos hrelative]
      split
      · exact ⟨_, rfl⟩
      · exact ⟨_, rfl⟩

/-- **A key stays as it is** when it is taken for a path again. -/
theorem normalize_ofList_of_isResolved {t : List Char} (h : IsResolved t) (dir : String) :
    normalize dir (String.ofList t) = String.ofList t := by
  rw [normalize, String.toList_ofList]
  split
  · rw [collapse_eq_self_iff.2 h]
  · split
    · exact absurd rfl (h.unmarked List.not_mem_nil rfl _)
    · have hrelative : ¬ isRelative t = true := by
        rw [isRelative_iff]
        rintro (⟨r, hr⟩ | ⟨r, hr⟩)
        · exact h.unmarked (by decide) rfl r hr
        · exact h.unmarked (by decide) rfl r hr
      rw [if_neg hrelative]

theorem normalize_normalize (dir dir' s : String) :
    normalize dir' (normalize dir s) = normalize dir s := by
  cases h : isLocal s with
  | false => rw [normalize_of_not_local h, normalize_of_not_local h]
  | true =>
    obtain ⟨t, ht⟩ := exists_normalize_eq h dir
    rw [ht, normalize_ofList_of_isResolved (isResolved_collapse t)]

lemma normalize_relative (p : String) :
    normalize "" ("./" ++ p) = String.ofList (collapse p.toList) := by
  have htext : ("./" ++ p).toList = '.' :: '/' :: p.toList := by rw [String.toList_append]; rfl
  have hcollapse : collapse ('.' :: '/' :: p.toList) = collapse p.toList := by
    rw [collapse_eq, collapse_eq, resolved, show '.' :: '/' :: p.toList = ['.'] ++ '/' :: p.toList from rfl,
      segments_append_slash]
    rfl
  rw [normalize, htext, ← hcollapse]
  rfl

lemma normalize_absolute (p : String) :
    normalize "" ("/" ++ p) = String.ofList (collapse p.toList) := by
  have htext : ("/" ++ p).toList = '/' :: p.toList := by rw [String.toList_append]; rfl
  rw [normalize, htext]
  rfl

/-! ### Being provided -/

lemma isProvided_iff {keys : List String} {s : String} :
    Component.isProvided keys s = true ↔ ∃ k ∈ candidates (normalize "" s), k ∈ keys := by
  simp [Component.isProvided]

/-- The key is the first thing that a specifier may be meant for. -/
lemma self_mem_candidates (k : String) : k ∈ candidates k := List.mem_cons_self

/-- **Which dependencies can be imported by their own paths.** A path without a mark in front has one key
when it is imported as relative and as absolute; it is the key of the dependency exactly if there is
nothing to resolve in the path, and otherwise some dependencies, the path among them, do not provide it.
Keys stay as they are when they are taken for paths again. -/
theorem provided_by_own_path_iff {p : String} (hp : isLocal p = false) :
    normalize "" ("./" ++ p) = normalize "" ("/" ++ p) ∧
      (normalize "" p = normalize "" ("./" ++ p) ↔ IsResolved p.toList) ∧
      ((∀ dependencies : KeyMap String, p ∈ dependencies.keys →
          Component.isProvided (Component.keysOf dependencies) ("./" ++ p) = true ∧
            Component.isProvided (Component.keysOf dependencies) ("/" ++ p) = true) ↔
        IsResolved p.toList) ∧
      ∀ dir dir' s, normalize dir' (normalize dir s) = normalize dir s := by
  have hsame : normalize "" ("./" ++ p) = normalize "" ("/" ++ p) :=
    (normalize_relative p).trans (normalize_absolute p).symm
  have hkey : normalize "" p = normalize "" ("./" ++ p) ↔ IsResolved p.toList := by
    rw [normalize_of_not_local hp, normalize_relative, ← collapse_eq_self_iff, ← String.toList_inj,
      String.toList_ofList, eq_comm]
  refine ⟨hsame, hkey, ⟨fun h => ?_, fun h dependencies hmem => ?_⟩, normalize_normalize⟩
  · -- the only dependency is the path itself
    have hself : p ∈ (KeyMap.ofList [(p, "")]).keys :=
      KeyMap.mem_keys_iff.2 (KeyMap.contains_ofList.2 (List.mem_singleton_self p))
    obtain ⟨k, hk, hmem⟩ := isProvided_iff.1 (h (.ofList [(p, "")]) hself).1
    have hkp : k = p := by
      obtain ⟨p', hp', rfl⟩ := List.mem_map.1 hmem
      rw [KeyMap.mem_keys_iff, KeyMap.contains_ofList, List.map_singleton, List.mem_singleton] at hp'
      rw [hp', normalize_of_not_local hp]
    rw [normalize_relative] at hk
    exact hkp ▸ isResolved_of_mem_candidates (isResolved_collapse _) hk
  · have hin : normalize "" p ∈ Component.keysOf dependencies := List.mem_map_of_mem hmem
    have hprovided : Component.isProvided (Component.keysOf dependencies) ("./" ++ p) = true :=
      isProvided_iff.2 ⟨normalize "" p, hkey.2 h ▸ self_mem_candidates _, hin⟩
    refine ⟨hprovided, ?_⟩
    rwa [isProvided_iff, ← hsame, ← isProvided_iff]

-- a path with a dot in a name and one with a library root further in
theorem provided_by_own_path_inner :
    isLocal "ui/$lib/Card.svelte" = false ∧ IsResolved "ui/$lib/Card.svelte".toList ∧
      normalize "" "ui/$lib/Card.svelte" = normalize "" ("/" ++ "ui/$lib/Card.svelte") := by
  have hlocal : isLocal "ui/$lib/Card.svelte" = false := by decide
  have hresolved : IsResolved "ui/$lib/Card.svelte".toList := by decide
  obtain ⟨hsame, hkey, -⟩ := provided_by_own_path_iff hlocal
  exact ⟨hlocal, hresolved, (hkey.2 hresolved).trans hsame⟩

/-- A dependency is not found by its own path if there is something to resolve in it. -/
theorem own_path_not_provided :
    ¬ ∀ (dependencies : KeyMap String) (p : String), p ∈ dependencies.keys → isLocal p = false →
      normalize "" p = normalize "" ("./" ++ p) ∧
        Component.isProvided (Component.keysOf dependencies) ("./" ++ p) = true := by
  intro h
  have := h (.ofList [("lib/../m.js", "")]) "lib/../m.js" (by decide) (by decide)
  exact absurd this.1 (by decide)

end Mender.Module
