import Mathlib.Data.List.TakeWhile
import Mender.Proofs.Component.Inserted

/-!
What preparing a source comes to.

Once a source is prepared, its component tags are bound and its local modules are there, so it needs
no preparing. But for the literals of the missing modules and one run of lines the text is the old
one.
-/

namespace Mender.Component

open Mender.Text Mender.Markup Mender.Script Mender.Module

/-! ### The tags that nothing binds -/

section

variable {bound seen : List String} {tags : List ComponentTag}

lemma mem_unboundTags {t : ComponentTag} (ht : t ∈ tags) :
    t.name ∈ bound ∨ t.name ∈ seen ∨ t.name ∈ unboundTags bound seen tags := by
  induction tags generalizing seen with
  | nil => cases ht
  | cons u tags ih =>
    rw [unboundTags]
    split
    · next h =>
      rcases List.mem_cons.1 ht with rfl | ht
      · simpa using (Bool.or_eq_true_iff.1 h).imp List.contains_iff_mem.1 fun h => .inl (List.contains_iff_mem.1 h)
      · exact ih ht
    · rcases List.mem_cons.1 ht with rfl | ht
      · exact .inr (.inr List.mem_cons_self)
      · have hmem : t.name ∈ bound ∨ t.name ∈ u.name :: seen ∨
            t.name ∈ unboundTags bound (u.name :: seen) tags := ih ht
        rcases hmem with h | h | h
        · exact .inl h
        · rcases List.mem_cons.1 h with h | h
          · exact .inr (.inr (h ▸ List.mem_cons_self))
          · exact .inr (.inl h)
        · exact .inr (.inr (List.mem_cons_of_mem _ h))

lemma exists_of_mem_unboundTags {n : String} (h : n ∈ unboundTags bound seen tags) :
    ∃ t ∈ tags, t.name = n := by
  induction tags generalizing seen with
  | nil => cases h
  | cons u tags ih =>
    rw [unboundTags] at h
    split at h
    · obtain ⟨t, ht, hn⟩ := ih h
      exact ⟨t, List.mem_cons_of_mem _ ht, hn⟩
    · rcases List.mem_cons.1 h with rfl | h
      · exact ⟨u, List.mem_cons_self, rfl⟩
      · obtain ⟨t, ht, hn⟩ := ih h
        exact ⟨t, List.mem_cons_of_mem _ ht, hn⟩

lemma unboundTags_eq_nil (h : ∀ t ∈ tags, t.name ∈ bound) : unboundTags bound seen tags = [] := by
  induction tags with
  | nil => rfl
  | cons u tags ih =>
    obtain ⟨hu, htags⟩ := List.forall_mem_cons.1 h
    rw [unboundTags, List.contains_iff_mem.2 hu, Bool.true_or, if_pos rfl, ih htags]

end

/-- The names of the tags that get lines. -/
def unboundNames (t : List Char) : List String := unboundTags (namesBound t) [] (componentTags t)

lemma tagStandIns_eq (t : List Char) : tagStandIns t = (unboundNames t).map standInForTag := rfl

/-- Letters and digits are ASCII. -/
lemma toNat_of_isAlphanum {c : Char} (h : c.isAlphanum = true) : c.toNat < 128 := by
  have below {d : Char} (hd : d.toNat < 128) (hc : c.val ≤ d.val) : c.toNat < 128 :=
    Nat.lt_of_le_of_lt (UInt32.le_iff_toNat_le.1 hc) hd
  have hkind : (c.isUpper = true ∨ c.isLower = true) ∨ c.isDigit = true :=
    (Bool.or_eq_true_iff.1 h).imp_left Bool.or_eq_true_iff.1
  rcases hkind with (h | h) | h
  · exact below (d := 'Z') (by decide) (of_decide_eq_true h).2
  · exact below (d := 'z') (by decide) (of_decide_eq_true (Bool.and_eq_true_iff.1 h).2)
  · exact below (d := '9') (by decide) (of_decide_eq_true (Bool.and_eq_true_iff.1 h).2)

lemma isNameChar_of_isTagNameChar {c : Char} (h : isTagNameChar c = true) (hpoint : c ≠ '.') :
    isNameChar c = true := by
  have hascii : c.toNat < 128 := by
    simp only [isTagNameChar, Bool.or_eq_true, beq_iff_eq] at h
    rcases h with ((h | rfl) | rfl) | rfl
    · exact toNat_of_isAlphanum h
    all_goals decide
  have hall : ∀ n < 128, isTagNameChar (Char.ofNat n) = true → Char.ofNat n ≠ '.' →
      isNameChar (Char.ofNat n) = true := by decide
  have := hall c.toNat hascii
  rw [Char.ofNat_toNat] at this
  exact this h hpoint

/-- The name of a component tag may stand in a line. -/
lemma isLineName_baseName {d : Char} (hd : d.isUpper = true) (r : List Char) :
    IsLineName (baseName (d :: r)) := by
  have hchar : isTagNameChar d = true := by
    have hword : d.isAlphanum = true :=
      Bool.or_eq_true_iff.2 (.inl (Bool.or_eq_true_iff.2 (.inl hd)))
    simp [isTagNameChar, hword]
  have hpoint : d ≠ '.' := by
    rintro rfl
    cases hd
  have hname : baseName (d :: r) = d :: (r.takeWhile isTagNameChar).takeWhile (· != '.') := by
    rw [baseName, List.takeWhile_cons, if_pos hchar, List.takeWhile_cons, if_pos (bne_iff_ne.2 hpoint)]
  have hall : ∀ c ∈ baseName (d :: r), isNameChar c = true := by
    intro c hc
    have hne : (c != '.') = true := List.mem_takeWhile_imp (p := (· != '.')) hc
    have hmem : c ∈ (d :: r).takeWhile isTagNameChar := (List.takeWhile_prefix _).subset hc
    exact isNameChar_of_isTagNameChar (List.mem_takeWhile_imp hmem) (bne_iff_ne.1 hne)
  have hstart : isNameStart d = true := by
    have hd' := hall d (hname ▸ List.mem_cons_self)
    refine (Bool.or_eq_true_iff.1 hd').resolve_right fun hdigit => ?_
    have hlow : 'A'.val ≤ d.val := (of_decide_eq_true hd).1
    have hhigh : d.val ≤ '9'.val := of_decide_eq_true (Bool.and_eq_true_iff.1 hdigit).2
    exact absurd (UInt32.le_trans hlow hhigh) (by decide)
  exact ⟨⟨⟨d, _, hname, hstart⟩, hall⟩, ⟨d, _, hname, hd⟩⟩

lemma isLineName_of_mem_tagsFrom {place : Nat} {t : List Char} {tag : ComponentTag}
    (h : tag ∈ tagsFrom place t) : IsLineName tag.name.toList := by
  induction t generalizing place with
  | nil => cases h
  | cons c t ih =>
    rw [tagsFrom] at h
    split at h
    · next hstart =>
      rcases List.mem_cons.1 h with rfl | h
      · cases t with
        | nil => exact absurd hstart.2 (by simp)
        | cons d r =>
          rw [String.toList_ofList]
          exact isLineName_baseName hstart.2 r
      · exact ih h
    · exact ih h

lemma isLineName_of_mem_unboundNames {t : List Char} : ∀ n ∈ unboundNames t, IsLineName n.toList := by
  intro n hn
  obtain ⟨tag, htag, rfl⟩ := exists_of_mem_unboundTags hn
  obtain ⟨p, -, htag⟩ := List.mem_flatMap.1 htag
  exact isLineName_of_mem_tagsFrom htag

/-! ### Nothing left to prepare -/

/-- Every component tag is bound, and every local module is there. -/
structure IsSettled (keys : List String) (t : List Char) : Prop where
  bound : ∀ tag ∈ componentTags t, tag.name ∈ namesBound t
  provided : ∀ p ∈ importsOf t, isLocal p.specifier = true → isProvided keys p.specifier = true

variable {keys : List String} {xs : List Task} {tail : List Char}

/-- Blocks are filled in well if the lines bring the tags that nothing binds. -/
lemma isSettled_filledBlocks (hnames : ∀ n ∈ namesFor xs, IsLineName n.toList)
    (h : LaidOut (blocksOf xs) tail) (hfault : ∀ c ∈ scriptContents (blocksOf xs), (parse c).fault = none)
    (htags : ∀ n ∈ (componentTags (textOf (blocksOf xs) tail)).map (·.name),
      n ∈ namesFor xs ∨ n ∈ namesBound (textOf (blocksOf xs) tail)) :
    IsSettled keys (textOf (filledBlocks keys xs) tail) := by
  constructor
  · intro tag htag
    have hmem := List.mem_map_of_mem (f := (·.name)) htag
    rw [tags_filledBlocks hnames h] at hmem
    exact (mem_namesBound_filledBlocks hnames h hfault).2 (htags _ hmem)
  · intro p hp hlocal
    have hmissing := provided_filledBlocks hnames h hfault hp
    rwa [isMissing, hlocal, Bool.true_and, Bool.not_eq_false'] at hmissing

/-- **A settled source needs no preparing.** -/
theorem prepare_of_isSettled {source : String} {dependencies : KeyMap String}
    (h : IsSettled (keysOf dependencies) source.toList) :
    prepare source dependencies = ⟨source, [], .ofList []⟩ := by
  have hmissing : missingImports (keysOf dependencies) source.toList = [] := by
    refine List.filter_eq_nil_iff.2 fun p hp => ?_
    rw [isMissing, Bool.and_eq_true, Bool.not_eq_true', Bool.eq_false_iff]
    exact fun hp' => hp'.2 (h.provided p hp hp'.1)
  have htags : tagStandIns source.toList = [] := by
    rw [tagStandIns_eq, unboundNames, unboundTags_eq_nil h.bound, List.map_nil]
  simp only [prepare, hmissing, htags, List.map_nil, List.append_nil, List.isEmpty_nil, if_true, splice,
    dropWidth_zero, String.ofList_toList]

/-! ### The three ways a source is prepared -/

/-- What is put into a source that is prepared: the lines, in a script of their own if there is no
instance script. -/
def inserted (t : List Char) : List (List Char) :=
  if (tagStandIns t).isEmpty then []
  else
    match instanceScript? t with
    | some _ => [importLines (tagStandIns t)]
    | none => [newScript (importLines (tagStandIns t))]

/-- The text of a source that is prepared. -/
def preparedText (keys : List String) (t : List Char) : List Char :=
  let edits := (missingImports keys t).map redirection
  if (tagStandIns t).isEmpty then splice t 0 edits else withLines t (importLines (tagStandIns t)) edits

lemma toList_source_prepare (source : String) (dependencies : KeyMap String) :
    (prepare source dependencies).source.toList =
      preparedText (keysOf dependencies) source.toList := by
  simp only [prepare, String.toList_ofList, preparedText]

lemma isEmpty_tagStandIns_ne {t : List Char} (h : unboundNames t ≠ []) :
    (tagStandIns t).isEmpty ≠ true :=
  fun he => h (List.map_eq_nil_iff.1 (List.isEmpty_iff.1 he))

lemma mem_unboundNames {t : List Char} {n : String} (h : n ∈ (componentTags t).map (·.name)) :
    n ∈ unboundNames t ∨ n ∈ namesBound t := by
  obtain ⟨tag, htag, rfl⟩ := List.mem_map.1 h
  have hmem : tag.name ∈ namesBound t ∨ tag.name ∈ [] ∨ tag.name ∈ unboundNames t := mem_unboundTags htag
  rcases hmem with h | h | h
  · exact .inr h
  · cases h
  · exact .inl h

/-- What is to be shown of a source. -/
def Prepares (keys : List String) (t : List Char) : Prop :=
  IsSettled keys (preparedText keys t) ∧
    IsEdit t (preparedText keys t) ((missingImports keys t).map redirection) (inserted t)

section

variable {bs : List Block} (h : LaidOut bs tail)

include h

/-! ### The text that comes about -/

lemma preparedText_of_bound (hnone : unboundNames (textOf bs tail) = []) :
    preparedText keys (textOf bs tail) = textOf (filledBlocks keys (plainTasks bs)) tail := by
  rw [preparedText, if_pos (by rw [tagStandIns_eq, hnone]; rfl), splice_plainTasks h]

lemma preparedText_of_instance {as cs : List Block} {b : Block} (hbs : bs = as ++ b :: cs)
    (hno : ∀ a ∈ as, a.isInstance = false) (hb : b.isInstance = true) (hkind : b.kind = .script)
    (hne : unboundNames (textOf bs tail) ≠ []) : preparedText keys (textOf bs tail) =
      textOf (filledBlocks keys (tasksWith as b hkind cs (unboundNames (textOf bs tail)))) tail := by
  subst hbs
  rw [preparedText, if_neg (isEmpty_tagStandIns_ne hne), withLines, h.instanceScript_eq hno hb,
    tagStandIns_eq]
  exact splice_tasksWith hkind h hne

lemma preparedText_of_no_instance (hno : ∀ b ∈ bs, b.isInstance = false)
    (hne : unboundNames (textOf bs tail) ≠ []) : preparedText keys (textOf bs tail) =
      textOf (filledBlocks keys (tasksWith [] emptyScript kind_emptyScript (pushNewline bs tail).1
        (unboundNames (textOf bs tail)))) (pushNewline bs tail).2 := by
  rw [preparedText, if_neg (isEmpty_tagStandIns_ne hne), withLines, h.instanceScript_eq_none hno,
    splice_plainTasks h, tagStandIns_eq, textOf_newScript]

variable (hfault : ∀ c ∈ scriptContents bs, (parse c).fault = none)

include hfault

lemma prepares_of_bound (hnone : unboundNames (textOf bs tail) = []) : Prepares keys (textOf bs tail) := by
  have htags : (tagStandIns (textOf bs tail)).isEmpty = true := by
    rw [tagStandIns_eq, hnone]
    rfl
  have hlaid : LaidOut (blocksOf (plainTasks bs)) tail := by rwa [blocksOf_plainTasks]
  rw [Prepares, preparedText_of_bound h hnone, inserted, if_pos htags]
  refine ⟨isSettled_filledBlocks (by simp) hlaid (by simpa using hfault) ?_, isEdit_plainTasks h⟩
  rw [blocksOf_plainTasks, namesFor_plainTasks]
  exact fun n hn => hnone ▸ mem_unboundNames hn

lemma prepares_of_instance {as cs : List Block} {b : Block} (hbs : bs = as ++ b :: cs)
    (hno : ∀ a ∈ as, a.isInstance = false) (hb : b.isInstance = true)
    (hne : unboundNames (textOf bs tail) ≠ []) : Prepares keys (textOf bs tail) := by
  have hkind : b.kind = .script := beq_iff_eq.1 (Bool.and_eq_true_iff.1 hb).1
  have hinstance : instanceScript? (textOf bs tail) = some (b.toElement (width (textOf as []))) := by
    subst hbs
    exact h.instanceScript_eq hno hb
  have htext : preparedText keys (textOf bs tail) = _ := preparedText_of_instance h hbs hno hb hkind hne
  rw [Prepares, htext, inserted, if_neg (isEmpty_tagStandIns_ne hne), hinstance, tagStandIns_eq]
  generalize hns : unboundNames (textOf bs tail) = ns at hne
  have hblocks : blocksOf (tasksWith as b hkind cs ns) = bs := by rw [blocksOf_tasksWith, hbs]
  have hlaid : LaidOut (blocksOf (tasksWith as b hkind cs ns)) tail := by rwa [hblocks]
  constructor
  · refine isSettled_filledBlocks ?_ hlaid (by rwa [hblocks]) ?_
    · rw [namesFor_tasksWith, ← hns]
      exact isLineName_of_mem_unboundNames
    · rw [hblocks, namesFor_tasksWith, ← hns]
      exact fun n hn => mem_unboundNames hn
  · have hswaps : swaps 0 (sourcePieces keys (tasksWith as b hkind cs ns) tail) = _ :=
      swaps_missingImports hlaid
    rw [hblocks] at hswaps
    exact ⟨sourcePieces keys (tasksWith as b hkind cs ns) tail, by rw [oldText_sourcePieces, hblocks],
      newText_sourcePieces, hswaps, added_tasksWith hkind hne⟩

lemma prepares_of_no_instance (hno : ∀ b ∈ bs, b.isInstance = false)
    (hne : unboundNames (textOf bs tail) ≠ []) : Prepares keys (textOf bs tail) := by
  have htext : preparedText keys (textOf bs tail) = _ := preparedText_of_no_instance h hno hne
  rw [Prepares, htext, inserted, if_neg (isEmpty_tagStandIns_ne hne), h.instanceScript_eq_none hno,
    tagStandIns_eq]
  constructor
  · refine isSettled_filledBlocks ?_ (laidOut_newScript h _) ?_ ?_
    · rw [namesFor_tasksWith]
      exact isLineName_of_mem_unboundNames
    · rw [blocksOf_tasksWith]
      refine List.forall_mem_cons.2 ⟨parse_newline, ?_⟩
      show ∀ c ∈ scriptContents (pushNewline bs tail).1, (parse c).fault = none
      rwa [scriptContents_pushNewline]
    · rw [tags_newScript h, namesBound_newScript h, namesFor_tasksWith]
      exact fun n hn => mem_unboundNames hn
  · have hedit : IsEdit _ (textOf (filledBlocks keys (plainTasks bs)) tail) _ _ := isEdit_plainTasks h
    obtain ⟨ps, hold, hps, hswaps, hadded⟩ := hedit
    refine ⟨.added (newScript (importLines ((unboundNames (textOf bs tail)).map standInForTag))) :: ps,
      hold, ?_, hswaps, congrArg (_ :: ·) hadded⟩
    rw [newText_cons, hps, ← textOf_newScript]
    rfl

end

/-- **Every source is prepared one of the three ways.** -/
theorem prepares_of_faultless {t : List Char} (hf : ∀ s ∈ readScripts t, s.2.fault = none) :
    Prepares keys t := by
  obtain ⟨bs, tail, h, rfl⟩ := exists_laidOut t
  have hfault := fault_of_mem_scriptContents h hf
  by_cases hnone : unboundNames (textOf bs tail) = []
  · exact prepares_of_bound h hfault hnone
  · cases hfind : bs.find? Block.isInstance with
    | none =>
      have hno : ∀ b ∈ bs, b.isInstance = false := fun b hb =>
        Bool.eq_false_iff.2 (List.find?_eq_none.1 hfind b hb)
      exact prepares_of_no_instance h hfault hno hnone
    | some b =>
      obtain ⟨hb, as, cs, hbs, hno⟩ := List.find?_eq_some_iff_append.1 hfind
      exact prepares_of_instance h hfault hbs (fun a ha => by simpa using hno a ha) hb hnone

/-- A source with a missing module and a tag that its script does not bind. -/
def sample : String := "<Card.Head/>\n<script>\n  import a from './gone';\n</script>\n"

end Mender.Component
