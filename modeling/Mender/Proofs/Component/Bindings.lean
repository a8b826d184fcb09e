import Mender.Proofs.Component.Cuts
import Mender.Proofs.Script.Tidy

/-!
The bindings of a script whose repeated imports are dropped.

If the statements that are left are read as they were, the script has the bindings of those that are
kept. A repeat with the cells of the kept one, or with tidy ones, brings nothing that the kept one does
not bring. But blanks are collapsed in strings too, and then a module can be lost.

Each statement is kept or dropped, and a dropped one is an import with the key of one that is kept in front
of it. The script loses the text of the dropped ones with blanks around it, and what is left is read again.
-/

namespace Mender.Component

open Mender.Text Mender.Markup Mender.Script
open Mender.Module (splice)

section

variable {t : List Char} {s s' : Statement} {ss : List Statement} {seen : List (List Char)}

/-! ### Kept and dropped statements -/

/-- A statement of the grammar's row, with its places in the script and its texts. -/
def placed (t : List Char) (s : Statement) : Statement := s.restore (cells t)

/-- The statements of a row, each with whether it is dropped. -/
def sift (t : List Char) : (seen : List (List Char)) → List Statement → List (Statement × Bool)
  | _, [] => []
  | seen, s :: ss =>
    match s.form with
    | .imports _ =>
      let key := keyOf t (placed t s)
      if seen.contains key then (s, true) :: sift t seen ss else (s, false) :: sift t (key :: seen) ss
    | _ => (s, false) :: sift t seen ss

def sifted (t : List Char) : List (Statement × Bool) := sift t [] (rowOf t)

/-- The statements of a script that are kept. -/
def keptOf (t : List Char) : List Statement := ((sifted t).filter fun p => !p.2).map (·.1)

/-- The statements of a script that are dropped. -/
def droppedOf (t : List Char) : List Statement := ((sifted t).filter fun p => p.2).map (·.1)

lemma mem_keptOf : s ∈ keptOf t ↔ (s, false) ∈ sifted t := by
  simp [keptOf]

lemma mem_droppedOf : s ∈ droppedOf t ↔ (s, true) ∈ sifted t := by
  simp [droppedOf]

/-- The statement is an import. -/
def IsImport (s : Statement) : Prop := ∃ i, s.form = .imports i

/-- One statement is dropped if it is an import whose key was seen, and else it is kept. -/
lemma sift_cons (t : List Char) (seen : List (List Char)) (s : Statement) (ss : List Statement) :
    (IsImport s ∧ keyOf t (placed t s) ∈ seen ∧ sift t seen (s :: ss) = (s, true) :: sift t seen ss) ∨
      (IsImport s ∧ keyOf t (placed t s) ∉ seen ∧
        sift t seen (s :: ss) = (s, false) :: sift t (keyOf t (placed t s) :: seen) ss) ∨
      (¬ IsImport s ∧ sift t seen (s :: ss) = (s, false) :: sift t seen ss) := by
  rw [sift]
  split
  · next i hi =>
    dsimp only
    split
    · next hin => exact .inl ⟨⟨i, hi⟩, List.contains_iff_mem.1 hin, rfl⟩
    · next hin => exact .inr (.inl ⟨⟨i, hi⟩, mt List.contains_iff_mem.2 hin, rfl⟩)
  · next hno => exact .inr (.inr ⟨fun ⟨i, hi⟩ => hno i hi, rfl⟩)

lemma map_fst_sift (t : List Char) (seen : List (List Char)) (ss : List Statement) :
    (sift t seen ss).map (·.1) = ss := by
  induction ss generalizing seen with
  | nil => rfl
  | cons s ss ih =>
    rcases sift_cons t seen s ss with ⟨-, -, h⟩ | ⟨-, -, h⟩ | ⟨-, h⟩ <;> rw [h] <;>
      exact congrArg (s :: ·) (ih _)

/-- Each statement of a script is kept or dropped. -/
lemma mem_rowOf_iff : s ∈ rowOf t ↔ s ∈ keptOf t ∨ s ∈ droppedOf t := by
  rw [mem_keptOf, mem_droppedOf, ← map_fst_sift t [] (rowOf t), List.mem_map]
  constructor
  · rintro ⟨⟨s, b⟩, hs, rfl⟩
    cases b with
    | false => exact .inl hs
    | true => exact .inr hs
  · rintro (hs | hs) <;> exact ⟨_, hs, rfl⟩

lemma keptOf_sublist (t : List Char) : (keptOf t).Sublist (rowOf t) := by
  conv_rhs => rw [← map_fst_sift t [] (rowOf t)]
  exact List.filter_sublist.map _

lemma droppedOf_sublist (t : List Char) : (droppedOf t).Sublist (rowOf t) := by
  conv_rhs => rw [← map_fst_sift t [] (rowOf t)]
  exact List.filter_sublist.map _

/-- Both statements are imports, and the second one repeats the first one up to blanks. -/
def Repeats (t : List Char) (s s' : Statement) : Prop :=
  IsImport s ∧ IsImport s' ∧ keyOf t (placed t s) = keyOf t (placed t s')

lemma exists_repeats_sift (pre : List (Statement × Bool))
    (hseen : ∀ k ∈ seen, ∃ s, (s, false) ∈ pre ∧ IsImport s ∧ keyOf t (placed t s) = k)
    (h : (s', true) ∈ sift t seen ss) :
    ∃ s, List.Sublist [(s, false), (s', true)] (pre ++ sift t seen ss) ∧ Repeats t s s' := by
  induction ss generalizing seen pre with
  | nil => cases h
  | cons s ss ih =>
    have hmore (b : Bool) : ∀ k ∈ seen, ∃ r, (r, false) ∈ pre ++ [(s, b)] ∧ IsImport r ∧
        keyOf t (placed t r) = k := by
      intro k hk
      obtain ⟨r, hr, hkey⟩ := hseen k hk
      exact ⟨r, List.mem_append_left _ hr, hkey⟩
    rcases sift_cons t seen s ss with ⟨hs, hin, heq⟩ | ⟨hs, -, heq⟩ | ⟨-, heq⟩ <;>
      rw [heq] at h ⊢ <;> rw [List.append_cons]
    · rcases List.mem_cons.1 h with h | h
      · cases h
        obtain ⟨r, hr, hr', hkey⟩ := hseen _ hin
        refine ⟨r, ?_, hr', hs, hkey⟩
        exact ((List.singleton_sublist.2 hr).append (.refl [(s', true)])).trans
          (List.sublist_append_left _ _)
      · exact ih _ (hmore true) h
    · refine ih _ (List.forall_mem_cons.2 ⟨⟨s, by simp, hs, rfl⟩, hmore false⟩) ?_
      exact (List.mem_cons.1 h).resolve_left (by simp)
    · exact ih _ (hmore false) ((List.mem_cons.1 h).resolve_left (by simp))

/-- **A dropped statement** comes behind one that is kept and that it repeats. -/
theorem exists_repeats (h : s' ∈ droppedOf t) :
    ∃ s, List.Sublist [(s, false), (s', true)] (sifted t) ∧ Repeats t s s' :=
  exists_repeats_sift [] (List.forall_mem_nil _) (mem_droppedOf.1 h)

lemma isImport_of_dropped (h : s ∈ droppedOf t) : IsImport s := by
  obtain ⟨-, -, -, hs, -⟩ := exists_repeats h
  exact hs

lemma form_placed (t : List Char) (s : Statement) : (∃ i, (placed t s).form = .imports i) ↔ IsImport s := by
  obtain ⟨extent, form⟩ := s
  cases form <;> simp [placed, Statement.restore, Form.restore, IsImport]

lemma repeated_eq_sift (t : List Char) (seen : List (List Char)) (ss : List Statement) :
    repeated t seen (ss.map (placed t)) =
      (((sift t seen ss).filter fun p => p.2).map (·.1)).map fun s => wholeLines t (placed t s).extent := by
  induction ss generalizing seen with
  | nil => rfl
  | cons s ss ih =>
    rw [List.map_cons, repeated]
    split
    · next i hi =>
      have himport : IsImport s := (form_placed t s).1 ⟨i, hi⟩
      dsimp only
      rcases sift_cons t seen s ss with ⟨-, hin, heq⟩ | ⟨-, hin, heq⟩ | ⟨hno, -⟩
      · have hcontains : seen.contains (keyOf t (placed t s)) = true := List.contains_iff_mem.2 hin
        rw [keyOf] at hcontains
        rw [heq, if_pos hcontains, ih]
        rfl
      · have hcontains : ¬ seen.contains (keyOf t (placed t s)) = true := mt List.contains_iff_mem.1 hin
        rw [keyOf] at hcontains
        rw [heq, if_neg hcontains]
        exact ih _
      · exact absurd himport hno
    · next hno =>
      rcases sift_cons t seen s ss with ⟨hs, -⟩ | ⟨hs, -⟩ | ⟨-, heq⟩
      · obtain ⟨i, hi⟩ := (form_placed t s).2 hs
        exact absurd hi (hno i)
      · obtain ⟨i, hi⟩ := (form_placed t s).2 hs
        exact absurd hi (hno i)
      · rw [heq]
        exact ih _

/-! ### The text that is left -/

/-- What is left of a text that stands behind another one when statements are left out, each with the
blanks of its line in front of it and blanks behind it. -/
inductive Leaves : (a x : List Char) → List Statement → (z : List Char) → Prop
  | nil (a x : List Char) : Leaves a x [] x
  | cons {a k u m v y z : List Char} {s : Statement} {ss : List Statement}
      (hu : ∀ c ∈ u, isBlank c = true ∧ c ≠ '\n') (hv : ∀ c ∈ v, isBlank c = true)
      (hs : s.extent = ⟨width (a ++ k ++ u), width (a ++ k ++ u) + width m⟩)
      (h : Leaves (a ++ k ++ u ++ m ++ v) y ss z) :
      Leaves a (k ++ (u ++ (m ++ (v ++ y)))) (s :: ss) (k ++ z)

/-- **Imports with their whole lines** are left out one by one. -/
theorem leaves_splice {a x : List Char} (ht : t = a ++ x) (hmem : ∀ s ∈ ss, s ∈ (parse t).statements)
    (hform : ∀ s ∈ ss, IsImport s) (hrow : ss.Pairwise EndsBefore)
    (hplace : ∀ s ∈ ss, width a ≤ s.extent.first) :
    Leaves a x ss (splice t (width a) ((ss.map fun s => wholeLines t s.extent).map (·, []))) := by
  induction ss generalizing a x with
  | nil =>
    rw [List.map_nil, List.map_nil, splice, ht, dropWidth_width]
    exact .nil a x
  | cons s ss ih =>
    obtain ⟨hs, hmem⟩ := List.forall_mem_cons.1 hmem
    obtain ⟨⟨i, hi⟩, hform⟩ := List.forall_mem_cons.1 hform
    obtain ⟨hbefore, hrow⟩ := List.pairwise_cons.1 hrow
    obtain ⟨b, m, y, ht', hextent, hb⟩ := exists_import hs hi
    obtain ⟨b, u, v, y, rfl, rfl, -, hu, hv, hlines⟩ := exists_wholeLines (m := 'i' :: m) (y := y) hb
    have hfirst := hplace s List.mem_cons_self
    rw [← hextent, ← ht'] at hlines
    have hwidth : width b + width (u ++ ('i' :: m ++ v)) = width (b ++ u ++ 'i' :: m ++ v) := by
      simp only [width_append, Nat.add_assoc]
    have hends : ∀ s' ∈ ss, width (b ++ u ++ 'i' :: m ++ v) ≤ s'.extent.first := by
      intro s' hs'
      have hle := wholeLines_last_le_first hs ⟨i, hi⟩ (hmem s' hs') (hform s' hs') (hbefore s' hs')
      rwa [hlines, hwidth] at hle
    have hrest := ih (a := b ++ u ++ 'i' :: m ++ v) (x := y) (by rw [ht']; simp) hmem hform hrow hends
    have hsplit : a ++ x = b ++ (u ++ ('i' :: m ++ (v ++ y))) := by rw [← ht, ht']; simp
    rw [List.map_cons, List.map_cons, splice, List.append_nil, hlines, hwidth]
    rw [hextent] at hfirst
    rcases Nat.le_total (width a) (width b) with hle | hle
    · obtain ⟨k, rfl, rfl⟩ := exists_append_of_width_le hsplit hle
      have hslice : slice (width a) (width (a ++ k)) t = k := by
        rw [ht, width_append]
        exact slice_between a k _
      rw [hslice]
      exact .cons hu hv hextent hrest
    · -- the lines before end among the blanks in front of the import
      obtain ⟨k, rfl, hk⟩ := exists_append_of_width_le hsplit.symm hle
      obtain ⟨w, rfl, rfl⟩ : ∃ w, u = k ++ w ∧ x = w ++ ('i' :: m ++ (v ++ y)) := by
        have hle' : width k ≤ width u := by
          simp only [width_append] at hfirst
          omega
        exact exists_append_of_width_le hk.symm hle'
      have hslice : slice (width (b ++ k)) (width b) t = [] := by
        rw [slice, Nat.sub_eq_zero_of_le hle, takeWidth_zero]
      rw [hslice]
      refine .cons (k := []) (fun c hc => hu c (List.mem_append_right k hc)) hv ?_ ?_
      · simpa using hextent
      · simpa using hrest

/-- **A script without its repeats** is the script without the statements that are dropped. -/
theorem leaves_withoutRepeats (t : List Char) :
    Leaves [] t ((droppedOf t).map (placed t)) (withoutRepeats t) := by
  have hrow : (rowOf t).map (placed t) = (parse t).statements := (statements_parse t).symm
  have hsub : List.Sublist ((droppedOf t).map (placed t)) (parse t).statements :=
    hrow ▸ (droppedOf_sublist t).map _
  have hform : ∀ s ∈ (droppedOf t).map (placed t), IsImport s := by
    intro s hs
    obtain ⟨s', hs', rfl⟩ := List.mem_map.1 hs
    exact (form_placed t s').2 (isImport_of_dropped hs')
  have hleaves := leaves_splice (t := t) (a := []) (x := t) rfl (fun s hs => hsub.subset hs) hform
    ((pairwise_statements t).sublist hsub) fun _ _ => Nat.zero_le _
  rw [List.map_map (f := placed t)] at hleaves
  rw [withoutRepeats, ← hrow, repeated_eq_sift]
  exact hleaves

end

variable {t : List Char} {s s' : Statement}

/-! ### Imports with one key -/

/-- A statement of a script has the text of its cells. -/
lemma slice_placed (h : s ∈ rowOf t) :
    slice (placed t s).extent.first (placed t s).extent.last t = joined (pieceOf t s) := by
  obtain ⟨r, ⟨a, ha⟩, -, hplace⟩ := exists_pieceOf h
  have ht : t = joined a ++ (joined (pieceOf t s) ++ joined r) := by
    rw [← joined_append, ← joined_append, ha, joined_cells]
  have hfirst : (placed t s).extent.first = width (joined a) := by
    show placeOf (cells t) s.extent.first = _
    rw [hplace, ← ha]
    exact placeOf_length a (pieceOf t s ++ r)
  have hlast : (placed t s).extent.last = width (joined a) + width (joined (pieceOf t s)) := by
    show placeOf (cells t) s.extent.last = _
    rw [hplace, ← ha, ← List.append_assoc, ← width_append, ← joined_append]
    exact placeOf_length (a ++ pieceOf t s) r
  have hbetween := slice_between (joined a) (joined (pieceOf t s)) (joined r)
  rwa [← ht, ← hlast, ← hfirst] at hbetween

/-- An import starts with a sign that is not blank, so its key tells its text up to blanks. -/
lemma keyOf_placed (h : s ∈ rowOf t) (hs : IsImport s) :
    keyOf t (placed t s) = spaced (joined (pieceOf t s)) := by
  have hmem : placed t s ∈ (parse t).statements := by
    rw [statements_parse]
    exact List.mem_map_of_mem h
  obtain ⟨i, hi⟩ := (form_placed t s).2 hs
  obtain ⟨a, m, b, ht, hextent, -⟩ := exists_import hmem hi
  have hpiece : joined (pieceOf t s) = 'i' :: m := by
    have hbetween := slice_between a ('i' :: m) b
    have hfirst : (placed t s).extent.first = width a := congrArg Extent.first hextent
    have hlast : (placed t s).extent.last = width a + width ('i' :: m) := congrArg Extent.last hextent
    rwa [← ht, ← hlast, ← hfirst, slice_placed h] at hbetween
  rw [keyOf, slice_placed h, hpiece, collapse_cons (by decide), spaced_cons (by decide)]

lemma isLiteral_of_mem_pieceOf {u : List Char} (h : .literal u ∈ pieceOf t s) : IsLiteral u :=
  isLiteral_of_mem (n := 0) (s := {}) (t := t) (List.mem_of_mem_drop (List.mem_of_mem_take h))

/-- Both statements have the same cells, or their texts tell their cells up to blanks. -/
def SameCells (t : List Char) (s s' : Statement) : Prop :=
  pieceOf t s = pieceOf t s' ∨ Tidy (pieceOf t s) ∧ Tidy (pieceOf t s')

instance : Decidable (SameCells t s s') := inferInstanceAs (Decidable (_ ∨ _ ∧ _))

/-- **A repeat brings what the import brings** that it repeats. -/
theorem brings_of_repeats (hs : s ∈ rowOf t) (hs' : s' ∈ rowOf t) (h : Repeats t s s')
    (hcells : SameCells t s s') : (placed t s).brings = (placed t s').brings := by
  rcases hcells with heq | ⟨htidy, htidy'⟩
  · exact brings_eq hs hs' (tells_of_eq heq) (tells_of_eq heq.symm)
  · have hkey := h.2.2
    rw [keyOf_placed hs h.1, keyOf_placed hs' h.2.1] at hkey
    have hl {s : Statement} (u : List Char) (hu : .literal u ∈ pieceOf t s) : IsLiteral u :=
      isLiteral_of_mem_pieceOf hu
    exact brings_eq hs hs' (tells_of_tidy htidy htidy' hl hl hkey)
      (tells_of_tidy htidy' htidy hl hl hkey.symm)

/-! ### The script that is left -/

/-- The bindings that the imports of a script bring. -/
def bindingsOf (t : List Char) : List Binding := (parse t).statements.flatMap Statement.brings

/-- The statements that are left are read as they were: none of them runs together with what comes next
to it. -/
def ReadApart (t : List Char) : Prop :=
  (rowOf (withoutRepeats t)).map (pieceOf (withoutRepeats t)) = (keptOf t).map (pieceOf t)

instance : Decidable (ReadApart t) := inferInstanceAs (Decidable (_ = _))

lemma bindingsOf_eq (t : List Char) : bindingsOf t = (rowOf t).flatMap fun s => (placed t s).brings := by
  rw [bindingsOf, statements_parse, List.flatMap_map]
  rfl

/-- Rows of statements with the same cells bring the same. -/
lemma brings_of_map_eq {t' : List Char} {ss ss' : List Statement} (hss : ∀ s ∈ ss, s ∈ rowOf t)
    (hss' : ∀ s ∈ ss', s ∈ rowOf t') (h : ss.map (pieceOf t) = ss'.map (pieceOf t')) :
    ss.flatMap (fun s => (placed t s).brings) = ss'.flatMap fun s => (placed t' s).brings := by
  induction ss generalizing ss' with
  | nil =>
    obtain rfl : ss' = [] := List.map_eq_nil_iff.1 h.symm
    rfl
  | cons s ss ih =>
    cases ss' with
    | nil => cases h
    | cons s' ss' =>
      obtain ⟨hs, hss⟩ := List.forall_mem_cons.1 hss
      obtain ⟨hs', hss'⟩ := List.forall_mem_cons.1 hss'
      obtain ⟨hpiece, hmore⟩ := List.cons.inj h
      have hbrings : (placed t s).brings = (placed t' s').brings :=
        brings_eq hs hs' (tells_of_eq hpiece) (tells_of_eq hpiece.symm)
      rw [List.flatMap_cons, List.flatMap_cons, hbrings, ih hss hss' hmore]

/-- **The script that is left** brings what the kept statements bring. -/
theorem bindingsOf_withoutRepeats (h : ReadApart t) :
    bindingsOf (withoutRepeats t) = (keptOf t).flatMap fun s => (placed t s).brings := by
  rw [bindingsOf_eq]
  exact brings_of_map_eq (fun _ hs => hs) (fun _ hs => (keptOf_sublist t).subset hs) h

lemma mem_bindingsOf {b : Binding} : b ∈ bindingsOf t ↔
    (∃ s ∈ keptOf t, b ∈ (placed t s).brings) ∨ ∃ s ∈ droppedOf t, b ∈ (placed t s).brings := by
  rw [bindingsOf_eq, List.mem_flatMap, ← exists_or]
  refine exists_congr fun s => ?_
  rw [mem_rowOf_iff, or_and_right]

/-- No binding is lost exactly if the dropped statements bring nothing of their own. -/
lemma same_bindings_iff (h : ReadApart t) :
    (∀ b, b ∈ bindingsOf (withoutRepeats t) ↔ b ∈ bindingsOf t) ↔
      ∀ s ∈ droppedOf t, ∀ b ∈ (placed t s).brings, ∃ s' ∈ keptOf t, b ∈ (placed t s').brings := by
  rw [bindingsOf_withoutRepeats h]
  simp only [List.mem_flatMap, mem_bindingsOf]
  constructor
  · exact fun hall s hs b hb => (hall b).2 (.inr ⟨s, hs, hb⟩)
  · refine fun hall b => ⟨.inl, ?_⟩
    rintro (hb | ⟨s, hs, hb⟩)
    · exact hb
    · exact hall s hs b hb

/-- No binding is lost if a repeat has the cells of the kept import, or both are tidy. -/
lemma same_bindings (h : ReadApart t)
    (hcells : ∀ s ∈ keptOf t, ∀ s' ∈ droppedOf t, Repeats t s s' → SameCells t s s') (b : Binding) :
    b ∈ bindingsOf (withoutRepeats t) ↔ b ∈ bindingsOf t := by
  refine (same_bindings_iff h).2 (fun s' hs' b hb => ?_) b
  obtain ⟨s, hsub, hrepeats⟩ := exists_repeats hs'
  have hs : s ∈ keptOf t := mem_keptOf.2 (hsub.subset List.mem_cons_self)
  refine ⟨s, hs, ?_⟩
  rwa [brings_of_repeats ((keptOf_sublist t).subset hs) ((droppedOf_sublist t).subset hs') hrepeats
    (hcells s hs s' hs' hrepeats)]

/-! ### The source that is left -/

/-- Each script of a source is left without its repeats, and all else stays. -/
structure LeavesScripts (source : List Char) : Prop where
  /-- A source without scripts is a script, unless it is markup. -/
  plain : scripts source = [] → dropRepeated source =
    if (trimStart source).head? = some '<' then source else withoutRepeats source
  /-- The texts around the scripts are those that they were. -/
  blocks : scripts source ≠ [] → ∃ bs tail, LaidOut bs tail ∧ source = textOf bs tail ∧
    dropRepeated source = textOf (bs.map leaveOut) tail
  contents : scripts source ≠ [] → contentsOf (dropRepeated source) = (contentsOf source).map withoutRepeats

theorem leavesScripts_dropRepeated (source : List Char) : LeavesScripts source where
  plain hs := by
    rw [dropRepeated, hs]
    dsimp only
    split
    · exact dropWidth_zero source
    · rw [droppedIn, withoutRepeats]
      simp only [Nat.zero_add, List.map_id']
  blocks hs := by
    obtain ⟨bs, tail, hl, rfl⟩ := exists_laidOut source
    exact ⟨bs, tail, hl, rfl, dropRepeated_textOf hl hs⟩
  contents := contentsOf_dropRepeated

/-- **What becomes of the imports of a source.** The repeats of each script are left out with blanks
around them, and every one of them comes behind a kept import with the same text up to blanks. Where the
statements that are left are read as they were, no binding is lost exactly if no dropped import brings
one that no kept import brings; and that is so if two such imports have the same cells, or tidy ones. -/
theorem dropRepeated_bindings (source : List Char) : LeavesScripts source ∧ ∀ t : List Char,
    Leaves [] t ((droppedOf t).map (placed t)) (withoutRepeats t) ∧
    (∀ s' ∈ droppedOf t, ∃ s, List.Sublist [(s, false), (s', true)] (sifted t) ∧ Repeats t s s') ∧
    (ReadApart t →
      ((∀ b, b ∈ bindingsOf (withoutRepeats t) ↔ b ∈ bindingsOf t) ↔
        ∀ s ∈ droppedOf t, ∀ b ∈ (placed t s).brings, ∃ s' ∈ keptOf t, b ∈ (placed t s').brings) ∧
      ((∀ s ∈ keptOf t, ∀ s' ∈ droppedOf t, Repeats t s s' → SameCells t s s') →
        ∀ b, b ∈ bindingsOf (withoutRepeats t) ↔ b ∈ bindingsOf t)) :=
  ⟨leavesScripts_dropRepeated source, fun t => ⟨leaves_withoutRepeats t, fun _ => exists_repeats,
    fun h => ⟨same_bindings_iff h, same_bindings h⟩⟩⟩

/-- Two repeats, one of them in other lines than the import, and one behind other code. -/
def repeatedLines : List Char :=
  ("import x from \"y\";\nimport \x7b a,\n  b \x7d from './m';\n  import \x7b a, b \x7d from './m';\n" ++
    "let c = a;\nimport x from \"y\"; \n").toList

theorem dropRepeated_bindings_repeatedLines :
    dropRepeated repeatedLines =
        "import x from \"y\";\nimport \x7b a,\n  b \x7d from './m';\nlet c = a;\n".toList ∧
      ReadApart repeatedLines ∧
      ∀ b, b ∈ bindingsOf (withoutRepeats repeatedLines) ↔ b ∈ bindingsOf repeatedLines := by
  have happart : ReadApart repeatedLines := by decide +kernel
  have hcells : ∀ s ∈ keptOf repeatedLines, ∀ s' ∈ droppedOf repeatedLines,
      keyOf repeatedLines (placed repeatedLines s) = keyOf repeatedLines (placed repeatedLines s') →
        SameCells repeatedLines s s' := by decide +kernel
  have hsame := (((dropRepeated_bindings repeatedLines).2 repeatedLines).2.2 happart).2
    fun s hs s' hs' h => hcells s hs s' hs' h.2.2
  exact ⟨by decide +kernel, happart, hsame⟩

/-- Two modules whose names differ in the blanks between two words. -/
def spacedModules : List Char := "import './a b';\nimport './a  b';\n".toList

/-- **A module can be lost**: the import of the second one is dropped. -/
theorem module_lost :
    (parse spacedModules).fault = none ∧
      bindingsOf spacedModules = [⟨"./a b", .nothing, none⟩, ⟨"./a  b", .nothing, none⟩] ∧
      dropRepeated spacedModules = "import './a b';\n".toList ∧
      bindingsOf (dropRepeated spacedModules) = [⟨"./a b", .nothing, none⟩] ∧
      ¬ ∀ b, b ∈ bindingsOf (dropRepeated spacedModules) ↔ b ∈ bindingsOf spacedModules := by
  have hbefore : bindingsOf spacedModules = [⟨"./a b", .nothing, none⟩, ⟨"./a  b", .nothing, none⟩] := by
    decide +kernel
  have hbehind : bindingsOf (dropRepeated spacedModules) = [⟨"./a b", .nothing, none⟩] := by
    decide +kernel
  refine ⟨by decide +kernel, hbefore, by decide +kernel, hbehind, fun hall => ?_⟩
  rw [hbefore, hbehind] at hall
  exact absurd ((hall ⟨"./a  b", .nothing, none⟩).2 (by decide)) (by decide)

end Mender.Component
