import Mender.Proofs.Component.Dropped

/-!
The stretches that are dropped of a source.

Each of them takes the word of an import with it, and the next one has its word behind the end of the
one before. What stands in front of a stretch is finished, so no name goes on behind the place where it
was.
-/

namespace Mender.Component

open Mender.Text Mender.Markup Mender.Script
open Mender.Module (splice)

variable {t x y : List Char} {e : Extent} {es : List Extent} {place : Nat}

/-! ### Places where nothing goes on -/

/-- The text does not end within a name, nor with a sign that one begins with. -/
def Loose (x : List Char) : Prop := ∀ c ∈ x.getLast?, c ≠ '<' ∧ c.isAlpha = false

lemma loose_nil : Loose [] := fun _ h => nomatch h

lemma loose_concat {c : Char} (h : c ≠ '<' ∧ c.isAlpha = false) (x : List Char) : Loose (x ++ [c]) := by
  intro d hd
  rw [List.getLast?_concat, Option.mem_some_iff] at hd
  exact hd ▸ h

lemma Loose.of_append (h : Loose (x ++ y)) : Loose y := by
  intro c hc
  have hne : y ≠ [] := fun hy => by
    rw [hy] at hc
    cases hc
  exact h c (by rwa [List.getLast?_append_of_ne_nil _ hne])

lemma Loose.append (hx : Loose x) (hy : Loose y) : Loose (x ++ y) := by
  by_cases hne : y = []
  · rwa [hne, List.append_nil]
  · intro c hc
    rw [List.getLast?_append_of_ne_nil _ hne] at hc
    exact hy c hc

lemma bounds_of_isAlpha {c : Char} (h : c.isAlpha = true) : 65 ≤ c.toNat ∧ c.toNat < 123 := by
  have between {a z : Char} (ha : 65 ≤ a.toNat) (hz : z.toNat < 123) (hlow : a.val ≤ c.val)
      (hhigh : c.val ≤ z.val) : 65 ≤ c.toNat ∧ c.toNat < 123 :=
    ⟨ha.trans (UInt32.le_iff_toNat_le.1 hlow), Nat.lt_of_le_of_lt (UInt32.le_iff_toNat_le.1 hhigh) hz⟩
  rcases Bool.or_eq_true_iff.1 h with h | h
  · obtain ⟨hlow, hhigh⟩ := of_decide_eq_true h
    exact between (a := 'A') (z := 'Z') (by decide) (by decide) hlow hhigh
  · obtain ⟨hlow, hhigh⟩ := Bool.and_eq_true_iff.1 h
    exact between (a := 'a') (z := 'z') (by decide) (by decide) (of_decide_eq_true hlow)
      (of_decide_eq_true hhigh)

lemma notAlpha_of_isGap {c : Char} (h : isGap c = true) : c ≠ '<' ∧ c.isAlpha = false := by
  simp only [isGap, Bool.or_eq_true, beq_iff_eq] at h
  rcases h with ((h | rfl) | rfl) | rfl
  · constructor
    · rintro rfl
      exact absurd h (by decide)
    · rw [Bool.eq_false_iff]
      intro halpha
      have hletter : 65 ≤ c.toNat ∧ c.toNat < 123 := bounds_of_isAlpha halpha
      simp only [isBlank, Bool.or_eq_true, Bool.and_eq_true, decide_eq_true_eq, beq_iff_eq] at h
      omega
  all_goals decide

lemma loose_of_rests (h : Rests x) : Loose x := by
  rcases h with rfl | h
  · exact loose_nil
  · cases h with
    | sign x h =>
      rcases h with h | h
      · exact loose_concat (notAlpha_of_isGap h) x
      · simp only [List.mem_cons, List.not_mem_nil, or_false] at h
        rcases h with rfl | rfl | rfl <;> exact loose_concat (by decide) x
    | comment x =>
      rw [← List.singleton_append, ← List.append_assoc]
      exact loose_concat (by decide) _

/-! ### Rows of stretches -/

/-- A stretch of the text, in front of which nothing goes on. -/
def IsCut (t : List Char) (e : Extent) : Prop :=
  ∃ x m y, t = x ++ (m ++ y) ∧ e = ⟨width x, width x + width m⟩ ∧ Loose x

/-- The stretch takes an `i` with it that stands at the place or behind. -/
def Takes (t : List Char) (place : Nat) (e : Extent) : Prop :=
  ∃ b r, t = b ++ 'i' :: r ∧ place ≤ width b ∧ e.first ≤ width b ∧ width b < e.last

/-- Each stretch takes an `i` with it that stands behind the stretch before. -/
inductive CutRow (t : List Char) : (place : Nat) → List Extent → Prop
  | nil (place : Nat) : CutRow t place []
  | cons {place : Nat} {e : Extent} {es : List Extent} (he : IsCut t e) (ht : Takes t place e)
      (h : CutRow t e.last es) : CutRow t place (e :: es)

lemma Takes.mono {place' : Nat} (h : Takes t place e) (hp : place' ≤ place) : Takes t place' e := by
  obtain ⟨b, r, ht, hb, hfirst, hlast⟩ := h
  exact ⟨b, r, ht, hp.trans hb, hfirst, hlast⟩

lemma CutRow.mono {place' : Nat} (h : CutRow t place es) (hp : place' ≤ place) : CutRow t place' es := by
  cases h with
  | nil => exact .nil _
  | cons he ht h => exact .cons he (ht.mono hp) h

lemma CutRow.append {es' : List Extent} {place' : Nat} (h : CutRow t place es)
    (hp : place ≤ place') (hle : ∀ e ∈ es, e.last ≤ place') (h' : CutRow t place' es') :
    CutRow t place (es ++ es') := by
  induction h with
  | nil => exact h'.mono hp
  | cons he ht _ ih =>
    obtain ⟨hlast, hle⟩ := List.forall_mem_cons.1 hle
    exact .cons he ht (ih hlast hle)

/-- A row of a part is one of the whole. -/
lemma CutRow.shift (h : CutRow t place es) (hx : Loose x) (y : List Char) :
    CutRow (x ++ (t ++ y)) (width x + place)
      (es.map fun e => ⟨width x + e.first, width x + e.last⟩) := by
  induction h with
  | nil => exact .nil _
  | cons he ht h ih =>
    refine .cons ?_ ?_ ih
    · obtain ⟨a, m, b, rfl, rfl, ha⟩ := he
      refine ⟨x ++ a, m, b ++ y, by simp, ?_, ?_⟩
      · rw [width_append, Nat.add_assoc]
      · exact hx.append ha
    · obtain ⟨b, r, rfl, hb, hfirst, hlast⟩ := ht
      refine ⟨x ++ b, r ++ y, by simp, ?_, ?_, ?_⟩ <;> simp only [width_append] <;> omega

/-! ### The repeats of a script -/

/-- The lines of an import end in front of the next one. -/
lemma wholeLines_last_le {a m r : List Char} (ht : t = a ++ (m ++ y)) (ha : Rests a)
    (hb : t = x ++ 'i' :: r) (hle : width a + width m ≤ width x) :
    (wholeLines t ⟨width a, width a + width m⟩).last ≤ width x := by
  obtain ⟨a', u, v, b, rfl, rfl, -, -, hv, hlines⟩ := exists_wholeLines (m := m) (y := y) ha
  rw [ht, hlines]
  have happ : a' ++ u ++ m ++ (v ++ b) = x ++ 'i' :: r := by rw [← hb, ht]; simp
  have hwidth : width (a' ++ u ++ m) ≤ width x := by rwa [width_append]
  obtain ⟨g, rfl, hg⟩ := exists_append_of_width_le happ hwidth
  -- the blanks behind the import end in front of the sign that is none
  have hblanks : v <+: g := by
    rcases List.append_eq_append_iff.1 hg with ⟨k, rfl, -⟩ | ⟨k, hk, hi⟩
    · exact List.prefix_append v k
    · cases k with
      | nil => exact (hk.trans (List.append_nil g)).symm ▸ List.prefix_refl _
      | cons c k =>
        obtain ⟨rfl, -⟩ := List.cons.inj hi
        exact absurd (hv 'i' (hk ▸ by simp)) (by decide)
  obtain ⟨w, rfl⟩ := hblanks
  simp only [width_append]
  omega

/-- The lines of an import end in front of the import that comes next. -/
lemma wholeLines_last_le_first {s s' : Statement} (hs : s ∈ (parse t).statements)
    (hform : ∃ i, s.form = .imports i) (hs' : s' ∈ (parse t).statements)
    (hform' : ∃ i, s'.form = .imports i) (h : EndsBefore s s') :
    (wholeLines t s.extent).last ≤ s'.extent.first := by
  obtain ⟨i, hi⟩ := hform
  obtain ⟨i', hi'⟩ := hform'
  obtain ⟨x, m, y, ht, hextent, hx⟩ := exists_import hs hi
  obtain ⟨x', m', y', ht', hextent', -⟩ := exists_import hs' hi'
  have hends := h.1
  rw [hextent, hextent'] at hends
  have hle := wholeLines_last_le ht hx ht' hends
  rw [← hextent] at hle
  exact hle.trans_eq (congrArg Extent.first hextent').symm

/-- The whole lines of imports are a row. -/
lemma cutRow_wholeLines {ss : List Statement} (hmem : ∀ s ∈ ss, s ∈ (parse t).statements)
    (hform : ∀ s ∈ ss, ∃ i, s.form = .imports i) (hrow : ss.Pairwise EndsBefore)
    (hplace : ∀ s ∈ ss, place ≤ s.extent.first) :
    CutRow t place (ss.map fun s => wholeLines t s.extent) := by
  induction ss generalizing place with
  | nil => exact .nil _
  | cons s ss ih =>
    obtain ⟨hs, hmem⟩ := List.forall_mem_cons.1 hmem
    obtain ⟨⟨i, hi⟩, hform⟩ := List.forall_mem_cons.1 hform
    obtain ⟨hbefore, hrow⟩ := List.pairwise_cons.1 hrow
    obtain ⟨x, m, y, ht, hextent, hx⟩ := exists_import hs hi
    obtain ⟨a, u, v, b, hxa, hyb, ha, -, -, hlines⟩ := exists_wholeLines (m := 'i' :: m) (y := y) hx
    rw [← hextent, ← ht] at hlines
    have hfirst := hplace s List.mem_cons_self
    rw [hextent] at hfirst
    refine .cons ?_ ?_ (ih hmem hform hrow fun s' hs' =>
      wholeLines_last_le_first hs ⟨i, hi⟩ (hmem s' hs') (hform s' hs') (hbefore s' hs'))
    · refine ⟨a, u ++ ('i' :: m ++ v), b, ?_, hlines, loose_of_rests ha⟩
      rw [ht, hxa, hyb]
      simp
    · refine ⟨x, m ++ y, ht, hfirst, ?_, ?_⟩
      · simp only [hlines, hxa, width_append]
        omega
      · have := Char.utf8Size_pos 'i'
        simp only [hlines, hxa, width_append, width_cons]
        omega

/-- What is dropped of a script are the whole lines of some of its imports. -/
lemma exists_repeated (t : List Char) (seen : List (List Char)) (ss : List Statement) :
    ∃ ss' : List Statement, List.Sublist ss' ss ∧ (∀ s ∈ ss', ∃ i, s.form = .imports i) ∧
      repeated t seen ss = ss'.map fun s => wholeLines t s.extent := by
  induction ss generalizing seen with
  | nil => exact ⟨[], .slnil, List.forall_mem_nil _, rfl⟩
  | cons s ss ih =>
    rw [repeated]
    split
    · next i hi =>
      dsimp only
      split
      · obtain ⟨ss', hsub, hform, heq⟩ := ih seen
        exact ⟨s :: ss', hsub.cons_cons s, List.forall_mem_cons.2 ⟨⟨i, hi⟩, hform⟩, congrArg (_ :: ·) heq⟩
      · obtain ⟨ss', hsub, hform, heq⟩ := ih _
        exact ⟨ss', hsub.cons s, hform, heq⟩
    · obtain ⟨ss', hsub, hform, heq⟩ := ih seen
      exact ⟨ss', hsub.cons s, hform, heq⟩

/-- **The repeats of a script** are a row. -/
theorem cutRow_repeated (t : List Char) : CutRow t 0 (repeated t [] (parse t).statements) := by
  obtain ⟨ss, hsub, hform, heq⟩ := exists_repeated t [] (parse t).statements
  rw [heq]
  exact cutRow_wholeLines (fun s hs => hsub.subset hs) hform ((pairwise_statements t).sublist hsub)
    fun _ _ => Nat.zero_le _

/-! ### The repeats of a source -/

/-- What is dropped of a source. -/
def repeatsIn (source : List Char) : List Extent :=
  match scripts source with
  | [] => if (trimStart source).head? = some '<' then [] else droppedIn source 0
  | es => es.flatMap fun e => droppedIn (e.content.of source) e.content.first

lemma dropRepeated_eq (source : List Char) :
    dropRepeated source = splice source 0 ((repeatsIn source).map (·, [])) := rfl

lemma repeatsIn_textOf {bs : List Block} (h : LaidOut bs t) (hs : scripts (textOf bs t) ≠ []) :
    repeatsIn (textOf bs t) = (scriptTexts 0 bs).flatMap fun p => droppedIn p.2 p.1 := by
  rw [← flatMap_droppedIn h, repeatsIn]
  cases hscripts : scripts (textOf bs t) with
  | nil => exact absurd hscripts hs
  | cons e es => rfl

/-- What is dropped of a script that stands between two texts. -/
lemma cutRow_droppedIn (hx : Loose x) (t y : List Char) :
    CutRow (x ++ (t ++ y)) (width x) (droppedIn t (width x)) :=
  (cutRow_repeated t).shift hx y

lemma last_le_of_mem_droppedIn {place : Nat} (h : e ∈ droppedIn t place) :
    e.last ≤ place + width t := by
  obtain ⟨f, hf, rfl⟩ := List.mem_map.1 h
  obtain ⟨a, m, b, rfl, rfl, -⟩ := (isRepeat_of_mem hf).exists_cut
  simp only [width_append]
  omega

/-- The repeats of a row of blocks are one row. -/
lemma cutRow_scriptTexts {bs : List Block} (hbs : ∀ b ∈ bs, b.Begins) (a tail : List Char) :
    CutRow (a ++ textOf bs tail) (width a)
      ((scriptTexts (width a) bs).flatMap fun p => droppedIn p.2 p.1) := by
  induction bs generalizing a with
  | nil => exact .nil _
  | cons b bs ih =>
    obtain ⟨hb, hbs⟩ := List.forall_mem_cons.1 hbs
    have hrest := ih hbs (a ++ b.text)
    rw [List.append_assoc, ← textOf_eq, width_append] at hrest
    rw [scriptTexts, List.flatMap_append]
    have hinner : Loose (a ++ b.gap ++ b.tag) := by
      obtain ⟨tag, htag⟩ := List.getLast?_eq_some_iff.1 (getLast?_of_splitTag hb.tag)
      rw [htag, ← List.append_assoc]
      exact loose_concat (by decide) _
    have hwidth : width (a ++ b.gap ++ b.tag) + width b.content ≤ width a + width b.text := by
      simp only [Block.text, Block.element, width_append]
      omega
    refine CutRow.append ?_ (Nat.le_add_right _ (width b.text)) (fun e he => ?_) hrest
    · split
      · rw [List.flatMap_singleton, ← width_append, ← width_append]
        have hscript := cutRow_droppedIn hinner b.content (b.close ++ textOf bs tail)
        have hrow : a ++ b.gap ++ b.tag ++ (b.content ++ (b.close ++ textOf bs tail)) =
            a ++ textOf (b :: bs) tail := by simp
        exact (hrow ▸ hscript).mono (by simp only [width_append]; omega)
      · exact .nil _
    · split at he
      · rw [List.flatMap_singleton, ← width_append, ← width_append] at he
        exact (last_le_of_mem_droppedIn he).trans hwidth
      · cases he

/-- **What is dropped of a source** is a row. -/
theorem cutRow_repeatsIn (source : List Char) : CutRow source 0 (repeatsIn source) := by
  by_cases hs : scripts source = []
  · rw [repeatsIn, hs]
    dsimp only
    split
    · exact .nil _
    · have hplain := cutRow_droppedIn loose_nil source []
      rwa [List.append_nil] at hplain
  · obtain ⟨bs, t, hl, rfl⟩ := exists_laidOut source
    rw [repeatsIn_textOf hl hs]
    exact cutRow_scriptTexts hl.begins [] t

/-! ### What is left -/

/-- What is left of a text that stands behind another one when stretches are left out. Of a stretch that
begins further in front only the rest counts. -/
inductive LeavesOut : (a t : List Char) → List Extent → List Char → Prop
  | nil (a t : List Char) : LeavesOut a t [] t
  | cons {a x m y z : List Char} {e : Extent} {es : List Extent} (hx : Loose x) (hm : 'i' ∈ m)
      (hfirst : e.first ≤ width (a ++ x)) (hlast : e.last = width (a ++ x ++ m))
      (h : LeavesOut (a ++ x ++ m) y es z) : LeavesOut a (x ++ (m ++ y)) (e :: es) (x ++ z)

/-- A sign stands in the part of a text that its place lies in. -/
lemma mem_of_width {a m b r : List Char} {c : Char} (h : a ++ (m ++ y) = b ++ c :: r)
    (hle : width a ≤ width b) (hlt : width b < width (a ++ m)) : c ∈ m := by
  obtain ⟨g, rfl, hg⟩ := exists_append_of_width_le h hle
  rcases List.append_eq_append_iff.1 hg with ⟨k, rfl, -⟩ | ⟨k, rfl, hk⟩
  · simp only [width_append] at hlt
    omega
  · cases k with
    | nil => exact absurd hlt (by simp)
    | cons d k =>
      obtain ⟨rfl, -⟩ := List.cons.inj hk
      simp

/-- **Stretches in a row** are left out one by one. -/
theorem CutRow.leavesOut {a : List Char} (h : CutRow (a ++ t) (width a) es) :
    LeavesOut a t es (splice (a ++ t) (width a) (es.map (·, []))) := by
  generalize hu : a ++ t = u at h
  generalize hp : width a = p at h
  induction h generalizing a t with
  | nil =>
    rw [List.map_nil, splice, ← hu, ← hp, dropWidth_width]
    exact .nil a t
  | @cons p e es he htakes _ ih =>
    obtain ⟨x, m, y, hsource, rfl, hx⟩ := he
    obtain ⟨b, r, hb, hplace, hfirst, hlast⟩ := htakes
    subst hp
    dsimp only at hfirst hlast ih
    rw [← width_append] at hlast ih
    rw [List.map_cons, splice, List.append_nil, ← width_append]
    have hsplit : a ++ t = x ++ (m ++ y) := hu.trans hsource
    rcases Nat.le_total (width a) (width x) with hle | hle
    · obtain ⟨k, rfl, rfl⟩ := exists_append_of_width_le hsplit hle
      have hslice : slice (width a) (width (a ++ k)) u = k := by
        rw [← hu, width_append]
        exact slice_between a k (m ++ y)
      rw [hslice]
      have hm := mem_of_width (hsource.symm.trans hb) hfirst hlast
      refine .cons hx.of_append hm (Nat.le_refl _) rfl (ih ?_ rfl)
      rw [hsource, List.append_assoc (a ++ k)]
    · obtain ⟨k, rfl, hk⟩ := exists_append_of_width_le hsplit.symm hle
      have hslice : slice (width (x ++ k)) (width x) u = [] := by
        rw [slice, Nat.sub_eq_zero_of_le hle, takeWidth_zero]
      obtain ⟨m', rfl, rfl⟩ : ∃ m', m = k ++ m' ∧ t = m' ++ y := by
        rcases List.append_eq_append_iff.1 hk with ⟨n, rfl, -⟩ | ⟨n, rfl, hn⟩
        · simp only [width_append] at hplace hlast
          omega
        · exact ⟨n, rfl, hn⟩
      rw [← List.append_assoc] at hlast ih ⊢
      rw [hslice]
      have hm := mem_of_width (hu.trans hb) hplace hlast
      have hnil : x ++ k ++ [] = x ++ k := List.append_nil _
      exact .cons (x := []) loose_nil hm (by rwa [hnil]) (by rw [hnil])
        (ih (by rw [hnil, ← hu, List.append_assoc (x ++ k)]) (by rw [hnil]))

lemma leavesOut_repeatsIn (source : List Char) :
    LeavesOut [] source (repeatsIn source) (dropRepeated source) :=
  CutRow.leavesOut (a := []) (cutRow_repeatsIn source)

/-- Every stretch that is left out makes a text lose an `i`. -/
lemma LeavesOut.count_le {a z : List Char} (h : LeavesOut a t es z) :
    z.count 'i' + es.length ≤ t.count 'i' := by
  induction h with
  | nil => exact Nat.le_refl _
  | cons _ hm _ _ _ ih =>
    have hpos := List.count_pos_iff.2 hm
    simp only [List.count_append, List.length_cons]
    omega

end Mender.Component
