import Mender.Proofs.KeyMap
import Mender.Proofs.Text.Search
import Mender.Repair.Catalog

/-!
The components of a directory, and the paths that lead to them.

A component is stored under the name of its file up to the last point, and looked up by the name up to the
first one. So a path leads to the file that has nothing but the first part of the name in front of its
ending, and a file with further points in its name is passed over.
-/

namespace Mender.Repair

open Text

/-! ### Names -/

/-- A name up to its first point. -/
def firstPart (name : String) : String := String.ofList (name.toList.takeWhile (· != '.'))

/-- A name in front of the ending of components. -/
def IsComponentFile (file : String) : Prop := ∃ name, name ≠ "" ∧ file = name ++ ".svelte"

lemma lowerCase_append (s t : String) : lowerCase (s ++ t) = lowerCase s ++ lowerCase t := by
  unfold lowerCase
  rw [String.toList_append, List.map_append, String.ofList_append]

lemma lowerCase_ending_inj {s t : String} :
    lowerCase (s ++ ".svelte") = lowerCase (t ++ ".svelte") ↔ lowerCase s = lowerCase t := by
  rw [lowerCase_append, lowerCase_append, String.append_left_inj]

namespace Catalog

lemma componentName?_eq_some_iff {file name : String} :
    componentName? file = some name ↔ name ≠ "" ∧ file = name ++ ".svelte" := by
  unfold componentName?
  constructor
  · intro h
    split at h
    · next c stem ending hcut =>
      split at h
      · next hending =>
        obtain ⟨d, hd, ht⟩ := exists_of_cutLast? hcut
        obtain rfl : d = '.' := beq_iff_eq.1 hd
        obtain rfl := Option.some.inj h
        refine ⟨fun hnil => ?_, String.toList_injective ?_⟩
        · simpa using congrArg String.toList hnil
        · rw [ht, hending, String.toList_append, String.toList_ofList]
          simp
      · cases h
    · cases h
  · rintro ⟨hne, rfl⟩
    obtain ⟨c, stem, hname⟩ := List.exists_cons_of_ne_nil (mt String.toList_eq_nil_iff.1 hne)
    have hcut : cutLast? (· == '.') (name ++ ".svelte").toList = some (c :: stem, "svelte".toList) := by
      rw [String.toList_append, hname]
      have hpoints : ∀ c ∈ "svelte".toList, (c == '.') = false := by simp
      exact cutLast?_append (a := c :: stem) (d := '.') rfl hpoints
    rw [hcut]
    dsimp only
    rw [if_pos rfl, ← hname, String.ofList_toList]

lemma isComponentFile_iff {file : String} :
    (componentName? file).isSome = true ↔ IsComponentFile file := by
  rw [Option.isSome_iff_exists]
  exact exists_congr fun _ => componentName?_eq_some_iff

instance : DecidablePred IsComponentFile := fun _ => decidable_of_iff _ isComponentFile_iff

/-! ### Directories -/

/-- The files of a directory. No two names of components differ in case only. -/
structure IsDirectory (files : List (String × String)) : Prop where
  plain : ∀ f ∈ files, '/' ∉ f.1.toList
  distinct : ((files.filter fun f => IsComponentFile f.1).map fun f => lowerCase f.1).Nodup

/-- The path ends in the name of the file. -/
def LeadsTo (path file : String) : Prop := path = file ∨ ∃ directory, path = directory ++ "/" ++ file

/-- What is stored for the files of a directory, with the names to look it up by. -/
def stored (files : List (String × String)) : List (String × KnownComponent) :=
  files.filterMap fun f => (componentName? f.1).map fun name => (lowerCase name, ⟨name, f.2⟩)

lemma components_ofFiles (files : List (String × String)) :
    (ofFiles files).components = .ofList (stored files) := by
  have hfold : ∀ (l : List (String × String)) (c : Catalog),
      (l.foldl (fun c e => c.insert e.1 e.2) c).components =
        (l.map fun e => (lowerCase e.1, (⟨e.1, e.2⟩ : KnownComponent))).foldl
          (fun m e => m.insert e.1 e.2) c.components := by
    intro l
    induction l with
    | nil => exact fun _ => rfl
    | cons e l ih => exact fun c => ih _
  unfold ofFiles ofList KeyMap.ofList stored
  rw [hfold, List.map_filterMap]
  refine congrArg (fun l => List.foldl _ _ l) (congrArg (fun f => files.filterMap f) (funext fun f => ?_))
  rw [Option.map_map]
  rfl

lemma mem_stored_iff {files : List (String × String)} {key : String} {k : KnownComponent} :
    (key, k) ∈ stored files ↔
      key = lowerCase k.name ∧ k.name ≠ "" ∧ (k.name ++ ".svelte", k.source) ∈ files := by
  unfold stored
  rw [List.mem_filterMap]
  constructor
  · rintro ⟨f, hf, hk⟩
    obtain ⟨name, hname, heq⟩ := Option.map_eq_some_iff.1 hk
    obtain ⟨rfl, rfl⟩ := Prod.mk.inj heq
    obtain ⟨hne, hfile⟩ := componentName?_eq_some_iff.1 hname
    exact ⟨rfl, hne, hfile ▸ hf⟩
  · rintro ⟨rfl, hne, hf⟩
    refine ⟨_, hf, ?_⟩
    rw [componentName?_eq_some_iff.2 ⟨hne, rfl⟩]
    rfl

/-- With the ending the keys are the names of the files. -/
lemma keys_stored (files : List (String × String)) :
    (stored files).map (fun e => e.1 ++ ".svelte") =
      (files.filter fun f => IsComponentFile f.1).map fun f => lowerCase f.1 := by
  induction files with
  | nil => rfl
  | cons f files ih =>
    unfold stored at ih ⊢
    cases hname : componentName? f.1 with
    | none =>
      have hnot : ¬ IsComponentFile f.1 := fun h => by
        have := isComponentFile_iff.2 h
        rw [hname] at this
        cases this
      rw [List.filterMap_cons_none (by rw [hname]; rfl), ih,
        List.filter_cons_of_neg (by simpa using hnot)]
    | some name =>
      have hfile : IsComponentFile f.1 := isComponentFile_iff.1 (by rw [hname]; rfl)
      have hending : lowerCase ".svelte" = ".svelte" := by decide
      rw [List.filterMap_cons_some (by rw [hname]; rfl), List.map_cons, ih,
        List.filter_cons_of_pos (by simpa using hfile), List.map_cons,
        (componentName?_eq_some_iff.1 hname).2, lowerCase_append, hending]

variable {files : List (String × String)}

lemma IsDirectory.nodup_keys (h : IsDirectory files) : ((stored files).map (·.1)).Nodup := by
  refine List.Nodup.of_map (· ++ ".svelte") ?_
  rw [List.map_map]
  exact (keys_stored files).symm ▸ h.distinct

/-- Where a path leads, the name is looked up by its first part. -/
lemma stemOf_of_leadsTo {path file : String} (hfile : '/' ∉ file.toList) (h : LeadsTo path file) :
    stemOf path = firstPart file := by
  have hnot : ∀ c ∈ file.toList, (c == '/') = false := fun c hc =>
    beq_eq_false_iff_ne.2 fun heq => hfile (heq ▸ hc)
  have hname : fileName path.toList = file.toList := by
    unfold fileName
    rcases h with rfl | ⟨directory, rfl⟩
    · rw [cutLast?_eq_none hnot]
      rfl
    · have hslash : (directory ++ "/" ++ file).toList = directory.toList ++ '/' :: file.toList := by
        rw [String.toList_append, String.toList_append, List.append_assoc]
        rfl
      rw [hslash, cutLast?_append (d := '/') rfl hnot]
      rfl
  unfold stemOf fileStem firstPart
  rw [hname]

/-- What is found by a name. -/
lemma lookUp_eq_some_iff (h : IsDirectory files) {name text : String} :
    (ofFiles files).lookUp name = some text ↔
      ∃ f ∈ files, IsComponentFile f.1 ∧ lowerCase f.1 = lowerCase (name ++ ".svelte") ∧ f.2 = text := by
  unfold lookUp
  rw [Option.map_eq_some_iff, components_ofFiles]
  simp only [KeyMap.get?_ofList_eq_some_iff h.nodup_keys, mem_stored_iff]
  constructor
  · rintro ⟨k, ⟨hkey, hne, hmem⟩, rfl⟩
    exact ⟨_, hmem, ⟨k.name, hne, rfl⟩, lowerCase_ending_inj.2 hkey.symm, rfl⟩
  · rintro ⟨⟨file, source⟩, hmem, ⟨stem, hne, rfl⟩, hkey, rfl⟩
    exact ⟨⟨stem, source⟩, ⟨(lowerCase_ending_inj.1 hkey).symm, hne, hmem⟩, rfl⟩

/-- A name with one point has nothing but its first part in front of the ending. -/
lemma firstPart_of_count {file : String} (h : IsComponentFile file) (hone : file.toList.count '.' = 1) :
    firstPart file ++ ".svelte" = file := by
  obtain ⟨name, -, rfl⟩ := h
  have hending : ".svelte".toList = '.' :: "svelte".toList := by decide
  have hcount : "svelte".toList.count '.' = 0 := by decide
  rw [String.toList_append, List.count_append, hending, List.count_cons_self, hcount] at hone
  have hpoint : '.' ∉ name.toList := List.count_eq_zero.1 (by omega)
  have hstem : ∀ c ∈ name.toList, (c != '.') = true := fun c hc => bne_iff_ne.2 fun heq => hpoint (heq ▸ hc)
  unfold firstPart
  rw [String.toList_append, hending, List.takeWhile_append_of_pos hstem,
    List.takeWhile_cons_of_neg (by decide), List.append_nil, String.ofList_toList]

/-- **What a path leads to.** The catalog of a directory holds each of its components, and a path to one of
them leads to the component whose name is the first part of that name: to the file itself if its name has no
further point, and otherwise to another file or to none. -/
theorem found_by_path_iff (h : IsDirectory files) :
    (ofFiles files).size = files.countP (fun f => IsComponentFile f.1) ∧
      ∀ f ∈ files, IsComponentFile f.1 → ∀ path, LeadsTo path f.1 →
        (f.1.toList.count '.' = 1 → (ofFiles files).lookUpPath path = some f.2) ∧
          ∀ text, (ofFiles files).lookUpPath path = some text ↔
            ∃ g ∈ files, IsComponentFile g.1 ∧
              lowerCase g.1 = lowerCase (firstPart f.1 ++ ".svelte") ∧ g.2 = text := by
  constructor
  · have hlength := congrArg List.length (keys_stored files)
    rw [List.length_map, List.length_map] at hlength
    rw [size, components_ofFiles, KeyMap.size_ofList h.nodup_keys, hlength, List.countP_eq_length_filter]
  · intro f hf hfile path hpath
    have hfound : ∀ text, (ofFiles files).lookUpPath path = some text ↔
        ∃ g ∈ files, IsComponentFile g.1 ∧
          lowerCase g.1 = lowerCase (firstPart f.1 ++ ".svelte") ∧ g.2 = text := fun text => by
      rw [lookUpPath, stemOf_of_leadsTo (h.plain f hf) hpath]
      exact lookUp_eq_some_iff h
    refine ⟨fun hone => (hfound f.2).2 ⟨f, hf, hfile, ?_, rfl⟩, hfound⟩
    rw [firstPart_of_count hfile hone]

/-- A component, another one with a further point in its name, and a file that is none. -/
def shelf : List (String × String) :=
  [("Card.svelte", "<div/>"), ("Card.test.svelte", "<p/>"), ("README.md", "# cards")]

/-- The second component is stored, and its path leads to the first. -/
theorem found_by_path_shelf :
    IsDirectory shelf ∧ (ofFiles shelf).size = 2 ∧
      (ofFiles shelf).lookUpPath "lib/Card.svelte" = some "<div/>" ∧
      (ofFiles shelf).lookUpPath "lib/Card.test.svelte" = some "<div/>" := by
  have hshelf : IsDirectory shelf := ⟨by decide +kernel, by decide +kernel⟩
  obtain ⟨hsize, hfound⟩ := found_by_path_iff hshelf
  have hcard := hfound ("Card.svelte", "<div/>") (by decide +kernel) (by decide +kernel) "lib/Card.svelte"
    (.inr ⟨"lib", by decide +kernel⟩)
  have htest := hfound ("Card.test.svelte", "<p/>") (by decide +kernel) (by decide +kernel)
    "lib/Card.test.svelte" (.inr ⟨"lib", by decide +kernel⟩)
  refine ⟨hshelf, ?_, hcard.1 (by decide +kernel), (htest.2 _).2 ?_⟩
  · rw [hsize]
    decide +kernel
  · exact ⟨("Card.svelte", "<div/>"), by decide +kernel⟩

/-- A component with a further point in its name is stored, and not found by its own name. -/
theorem own_path_leads_nowhere :
    IsDirectory [("Button.test.svelte", "<b/>")] ∧ IsComponentFile "Button.test.svelte" ∧
      (ofFiles [("Button.test.svelte", "<b/>")]).size = 1 ∧
      (ofFiles [("Button.test.svelte", "<b/>")]).lookUpPath "Button.test.svelte" = none :=
  ⟨⟨by decide +kernel, by decide +kernel⟩, by decide +kernel, by decide +kernel, by decide +kernel⟩

end Catalog

end Mender.Repair
