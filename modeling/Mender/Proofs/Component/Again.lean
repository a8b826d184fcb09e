import Mender.Proofs.Component.Cleaned
import Mender.Proofs.Component.Cuts
import Mender.Proofs.Component.Settled

/-!
Cleaning a source that is clean.

What is put in has no `i`, and what is left out takes one with it. So cleaning changes nothing only where
there is nothing to do, and a cleaned source is clean unless the text around a dropped import comes
together to something new. The tags do not, if each of them ends in front of such an import or begins
behind it.
-/

namespace Mender.Component

open Mender.Text Mender.Markup Mender.Script

variable {opening body t x y z rest : List Char} {extra : List Char → Option (List Char)}
  {found : List (List Char)} {place : Nat}

/-! ### Nothing to do -/

/-- Nothing is added to the source, and nothing is dropped of it. -/
structure Clean (source : List Char) : Prop where
  images : imageAdditions source = []
  links : linkAdditions source = []
  imports : repeatsIn source = []

lemma dropRepeated_of_nil (h : repeatsIn t = []) : dropRepeated t = t := by
  rw [dropRepeated_eq, h]
  exact dropWidth_zero t

lemma IsAddition.notMem_i {e : List Char} (h : IsAddition e) : 'i' ∉ e := by
  cases h <;> decide

namespace Widened

lemma count_eq (h : Widened x y) : y.count 'i' = x.count 'i' := by
  induction h with
  | nil => rfl
  | keep c _ ih => rw [List.count_cons, List.count_cons, ih]
  | put he _ _ ih =>
    rw [List.count_append, List.count_eq_zero.2 he.notMem_i, Nat.zero_add, List.count_cons,
      List.count_cons, ih]

lemma length_le (h : Widened x y) : x.length ≤ y.length := by
  induction h with
  | nil => exact Nat.le_refl _
  | keep c _ ih => exact Nat.succ_le_succ ih
  | put he _ _ ih =>
    simp only [List.length_append, List.length_cons]
    omega

/-- What is put in makes the text longer. -/
lemma eq_of_length (h : Widened x y) (hlen : y.length ≤ x.length) : y = x := by
  induction h with
  | nil => rfl
  | keep c _ ih => rw [ih (Nat.le_of_succ_le_succ hlen)]
  | put he _ h =>
    have := length_le h
    obtain ⟨r, rfl⟩ := he.exists_cons
    simp only [List.length_append, List.length_cons] at hlen
    omega

end Widened

lemma widened_images (t : List Char) : Widened t (amendImages t) := isPass_images.widened t

lemma widened_links (t : List Char) : Widened t (amendLinks t) := isPass_links.widened t

/-- **Cleaning changes nothing** exactly where there is nothing to do. -/
theorem cleanup_eq_self_iff : cleanup t = t ↔ Clean t := by
  constructor
  · intro h
    have himages := widened_images t
    have hlinks := widened_links (amendImages t)
    have hcount := (leavesOut_repeatsIn (amendLinks (amendImages t))).count_le
    have hsame : dropRepeated (amendLinks (amendImages t)) = t := h
    rw [hsame, hlinks.count_eq, himages.count_eq] at hcount
    have hnone : repeatsIn (amendLinks (amendImages t)) = [] :=
      List.length_eq_zero_iff.1 (by omega)
    -- so nothing is put in either
    have hall : amendLinks (amendImages t) = t := (dropRepeated_of_nil hnone).symm.trans h
    have hlength := congrArg List.length hall
    have hfirst : amendImages t = t := himages.eq_of_length (hlength ▸ hlinks.length_le)
    have hsettled := isPass_images.settled t
    rw [hfirst] at hall
    rw [hfirst, hall] at hnone
    have hsettled' := settled_links t
    rw [hall] at hsettled'
    exact ⟨(congrArg _ hfirst).symm.trans hsettled, hsettled', hnone⟩
  · intro h
    have himages : amendImages t = t := withAdditions_eq_self h.images
    have hlinks : amendLinks t = t := withAdditions_eq_self h.links
    rw [cleanup, himages, hlinks, dropRepeated_of_nil h.imports]

/-! ### Where tags stand -/

/-- The tags of a name that the search reads, from a `<` on each, with `skip` characters done already. A
tag that is not closed runs to the end. -/
def tagSpans (opening : List Char) : (skip place : Nat) → List Char → List Extent
  | _, _, [] => []
  | n + 1, place, c :: r => tagSpans opening n (place + c.utf8Size) r
  | 0, place, c :: r =>
    if ((after? opening (c :: r)).bind List.head?).any endsTagName then
      match splitTag none 0 (c :: r) with
      | none => [⟨place, place + width (c :: r)⟩]
      | some (tag, _) =>
        ⟨place, place + width tag⟩ :: tagSpans opening (tag.length - 1) (place + c.utf8Size) r
    else tagSpans opening 0 (place + c.utf8Size) r

lemma tagSpans_skip (n place : Nat) (t : List Char) :
    tagSpans opening n place t = tagSpans opening 0 (place + width (t.take n)) (t.drop n) := by
  induction n generalizing place t with
  | zero => simp
  | succ n ih =>
    cases t with
    | nil => simp [tagSpans]
    | cons c t =>
      rw [tagSpans, ih, List.take_succ_cons, List.drop_succ_cons, width_cons, Nat.add_assoc]

lemma tagSpans_char {c : Char} (h : ¬ Opened opening (c :: t)) (place : Nat) :
    tagSpans opening 0 place (c :: t) = tagSpans opening 0 (place + c.utf8Size) t := by
  rw [tagSpans, if_neg (mt opened_iff.1 h)]

lemma tagSpans_unclosed (h : Opened opening t) (hs : splitTag none 0 t = none) (place : Nat) :
    tagSpans opening 0 place t = [⟨place, place + width t⟩] := by
  cases t with
  | nil =>
    obtain ⟨c, r, hr, -⟩ := h
    exact absurd hr (by simp)
  | cons c t => rw [tagSpans, if_pos (opened_iff.2 h), hs]

lemma tagSpans_isTag (hop : IsOpening opening) (h : IsTag opening body) (place : Nat) (rest : List Char) :
    tagSpans opening 0 place (opening ++ (body ++ rest)) =
      ⟨place, place + width (opening ++ body)⟩ ::
        tagSpans opening 0 (place + width (opening ++ body)) rest := by
  have hopened := opened_iff.2 (h.opened rest)
  have hsplit := h.splitTag rest
  obtain ⟨r, rfl⟩ := hop.exists_cons
  have hlen : ('<' :: r ++ body).length - 1 = (r ++ body).length := by simp
  have happ : r ++ (body ++ rest) = r ++ body ++ rest := (List.append_assoc _ _ _).symm
  rw [List.cons_append] at hopened hsplit ⊢
  rw [tagSpans, if_pos hopened, hsplit]
  dsimp only
  rw [tagSpans_skip, hlen, happ, List.take_left, List.drop_left, List.cons_append, width_cons,
    Nat.add_assoc]

/-- A text ends in front of the other or begins behind it. -/
def Apart (e e' : Extent) : Prop := e.last ≤ e'.first ∨ e'.last ≤ e.first

instance (e e' : Extent) : Decidable (Apart e e') := inferInstanceAs (Decidable (_ ∨ _))

/-- No tag that the search reads begins in a stretch that is dropped or goes on behind its first place. -/
def TagsApart (source : List Char) : Prop :=
  ∀ opening ∈ ["<img".toList, "<a".toList], ∀ s ∈ tagSpans opening 0 0 source,
    ∀ e ∈ repeatsIn source, Apart s e

instance (source : List Char) : Decidable (TagsApart source) :=
  inferInstanceAs (Decidable (∀ opening ∈ _, ∀ s ∈ _, ∀ e ∈ _, _))

/-! ### Tags that stay -/

/-- A `<` with letters, none of which stands at the end of a text that is loose. -/
def Lettered (opening : List Char) : Prop := (opening.all fun c => c == '<' || c.isAlpha) = true

lemma Lettered.getLast_notMem (hname : Lettered opening) (hx : Loose x) (hne : x ≠ []) {k : List Char} :
    opening ≠ x ++ k := by
  rintro rfl
  have hlast := List.getLast?_eq_some_getLast hne
  obtain ⟨hlt, halpha⟩ := hx _ hlast
  have hmem := List.all_eq_true.1 hname _ (List.mem_append_left k (List.getLast_mem hne))
  rcases Bool.or_eq_true_iff.1 hmem with h | h
  · exact hlt (beq_iff_eq.1 h)
  · rw [h] at halpha
    cases halpha

/-- Behind a loose text nothing goes on that opened in it. -/
lemma not_opened_append (hname : Lettered opening) (hx : Loose x) (hne : x ≠ [])
    (h : ¬ Opened opening (x ++ y)) (z : List Char) : ¬ Opened opening (x ++ z) := by
  rintro ⟨c, r, hr, hc⟩
  rcases List.append_eq_append_iff.1 hr with ⟨k, hk, -⟩ | ⟨k, rfl, hk⟩
  · exact hname.getLast_notMem hx hne hk
  · cases k with
    | nil => exact hname.getLast_notMem hx hne (k := []) (by simp)
    | cons d k =>
      obtain ⟨rfl, -⟩ := List.cons.inj hk
      exact h ⟨c, k ++ y, by simp, hc⟩

/-- No tag overlaps the text from one place to another. -/
def Spared (spans : List Extent) (first last : Nat) : Prop :=
  ∀ s ∈ spans, s.last ≤ first ∨ last ≤ s.first

lemma Finds.of_not_opened {c : Char} (h : Finds opening (c :: t) found)
    (hnot : ¬ Opened opening (c :: t)) : Finds opening t found := by
  generalize ht : c :: t = u at h
  cases h with
  | nil => cases ht
  | char _ h => exact (List.cons.inj ht).2 ▸ h
  | unclosed h => exact absurd h (ht ▸ hnot)
  | tag h => exact absurd (h.opened _) (ht ▸ hnot)

lemma exists_span (h : Opened opening t) (place : Nat) :
    ∃ s ∈ tagSpans opening 0 place t, s.first = place ∧ place < s.last := by
  cases t with
  | nil =>
    obtain ⟨c, r, hr, -⟩ := h
    exact absurd hr (by simp)
  | cons c t =>
    have hsize := c.utf8Size_pos
    rw [tagSpans, if_pos (opened_iff.2 h)]
    cases hs : splitTag none 0 (c :: t) with
    | none =>
      refine ⟨_, List.mem_singleton_self _, rfl, ?_⟩
      simp only [width_cons]
      omega
    | some p =>
      refine ⟨_, List.mem_cons_self, rfl, ?_⟩
      have hne : width p.1 ≠ 0 := fun h0 => by
        have hlast := getLast?_of_splitTag (a := p.1) (b := p.2) hs
        rw [width_eq_zero h0] at hlast
        cases hlast
      dsimp only
      omega

/-- No tag begins in a stretch that is spared. -/
lemma Finds.behind {m : List Char} (h : Finds opening (m ++ y) found)
    (hs : Spared (tagSpans opening 0 place (m ++ y)) place (place + width m)) :
    Finds opening y found ∧
      tagSpans opening 0 place (m ++ y) = tagSpans opening 0 (place + width m) y := by
  induction m generalizing place with
  | nil => exact ⟨h, rfl⟩
  | cons c m ih =>
    have hsize := c.utf8Size_pos
    have hnot : ¬ Opened opening (c :: (m ++ y)) := by
      intro ho
      obtain ⟨s, hmem, hfirst, hlast⟩ := exists_span ho place
      have := hs s hmem
      rw [width_cons] at this
      omega
    rw [List.cons_append, tagSpans_char hnot] at hs ⊢
    rw [width_cons, ← Nat.add_assoc] at hs ⊢
    refine ih (h.of_not_opened hnot) fun s hmem => ?_
    have := hs s hmem
    omega

/-- **A stretch that is spared** can be left out, and the same tags are found. -/
lemma Finds.cut (hop : IsOpening opening) (hname : Lettered opening) {m : List Char} (hx : Loose x)
    (hm : m ≠ []) (h : Finds opening (x ++ (m ++ y)) found)
    (hs : Spared (tagSpans opening 0 place (x ++ (m ++ y))) (place + width x)
      (place + width x + width m)) :
    ∃ f₁ f₂, found = f₁ ++ f₂ ∧ Finds opening y f₂ ∧
      tagSpans opening 0 (place + width x + width m) y ⊆ tagSpans opening 0 place (x ++ (m ++ y)) ∧
      ∀ z, Finds opening z f₂ → Finds opening (x ++ z) (f₁ ++ f₂) := by
  have hpos : width m ≠ 0 := mt width_eq_zero hm
  generalize ht : x ++ (m ++ y) = t at h hs ⊢
  induction h generalizing x place with
  | nil => exact absurd (List.append_eq_nil_iff.1 (List.append_eq_nil_iff.1 ht).2).1 hm
  | unclosed ho hsplit =>
    have := hs _ (tagSpans_unclosed ho hsplit place ▸ List.mem_singleton_self _)
    simp only [← ht, width_append] at this
    omega
  | @char c t found hnot h ih =>
    cases x with
    | nil =>
      have hfinds : Finds opening (m ++ y) found := (show m ++ y = c :: t from ht) ▸ .char hnot h
      have hspared : Spared (tagSpans opening 0 place (m ++ y)) place (place + width m) :=
        (show m ++ y = c :: t from ht) ▸ hs
      obtain ⟨hbehind, hspans⟩ := hfinds.behind hspared
      refine ⟨[], found, rfl, hbehind, ?_, fun z hz => hz⟩
      rw [← ht, List.nil_append, hspans]
      exact List.Subset.refl _
    | cons d x =>
      obtain ⟨rfl, rfl⟩ := List.cons.inj ht
      rw [tagSpans_char hnot] at hs ⊢
      rw [width_cons, ← Nat.add_assoc] at hs ⊢
      obtain ⟨f₁, f₂, rfl, hbehind, hspans, hcut⟩ := ih (Loose.of_append (x := [d]) hx) rfl hs
      refine ⟨f₁, f₂, rfl, hbehind, hspans, fun z hz => .char ?_ (hcut z hz)⟩
      exact not_opened_append hname hx (List.cons_ne_nil _ _) hnot z
  | @tag body rest found htag h ih =>
    rw [tagSpans_isTag hop htag] at hs ⊢
    obtain ⟨hspan, hmore⟩ := List.forall_mem_cons.1 hs
    have hle : width (opening ++ body) ≤ width x := by
      dsimp only at hspan
      omega
    have happ : opening ++ body ++ rest = x ++ (m ++ y) := by rw [ht, List.append_assoc]
    obtain ⟨k, rfl, hk⟩ := exists_append_of_width_le happ hle
    rw [width_append (opening ++ body), ← Nat.add_assoc] at hmore ⊢
    obtain ⟨f₁, f₂, rfl, hbehind, hspans, hcut⟩ := ih hx.of_append hk.symm hmore
    refine ⟨body :: f₁, f₂, rfl, hbehind, List.Subset.trans hspans (List.subset_cons_self _ _),
      fun z hz => ?_⟩
    rw [List.append_assoc, List.append_assoc]
    exact .tag htag (hcut z hz)

/-- **The tags stay** when stretches apart from them are left out. -/
theorem LeavesOut.finds (hop : IsOpening opening) (hname : Lettered opening) {a : List Char}
    {es : List Extent} (h : LeavesOut a t es z)
    (hs : ∀ s ∈ tagSpans opening 0 (width a) t, ∀ e ∈ es, Apart s e) (hf : Finds opening t found) :
    Finds opening z found := by
  induction h generalizing found with
  | nil => exact hf
  | @cons a x m y z e es hx hm hfirst hlast h ih =>
    have hspared : Spared (tagSpans opening 0 (width a) (x ++ (m ++ y))) (width a + width x)
        (width a + width x + width m) := by
      intro s hmem
      have := hs s hmem e List.mem_cons_self
      simp only [Apart, hlast, width_append] at this hfirst
      omega
    obtain ⟨f₁, f₂, rfl, hbehind, hspans, hcut⟩ :=
      hf.cut hop hname hx (List.ne_nil_of_mem hm) hspared
    refine hcut z (ih (fun s hmem e he => ?_) hbehind)
    rw [width_append, width_append] at hmem
    exact hs s (hspans hmem) e (List.mem_cons_of_mem _ he)

/-! ### Cleaning twice -/

/-- Where nothing is added, nothing is added behind stretches that are left out either. -/
lemma Settled.leavesOut {es : List Extent} (hop : IsOpening opening) (hname : Lettered opening)
    (ht : Settled opening extra t) (h : LeavesOut [] t es z)
    (hs : ∀ s ∈ tagSpans opening 0 0 t, ∀ e ∈ es, Apart s e) : Settled opening extra z := by
  obtain ⟨found, hfound⟩ := exists_finds hop t
  have hz := h.finds hop hname hs hfound
  exact (hz.additions_eq_nil_iff hop 0).2 ((hfound.additions_eq_nil_iff hop 0).1 ht)

lemma lettered_image : Lettered "<img".toList := by
  rfl

lemma lettered_link : Lettered "<a".toList := by
  rfl

/-- **Cleaning twice** is the same as cleaning once exactly if the cleaned source is clean. With the tags
apart from what is dropped only another repeat can be left in it, and without repeats nothing is. -/
theorem cleanup_cleanup_iff (source : List Char) :
    (cleanup (cleanup source) = cleanup source ↔ Clean (cleanup source)) ∧
      (TagsApart (amendLinks (amendImages source)) →
        (cleanup (cleanup source) = cleanup source ↔ repeatsIn (cleanup source) = [])) ∧
      (repeatsIn (amendLinks (amendImages source)) = [] →
        cleanup (cleanup source) = cleanup source) := by
  have hleft := leavesOut_repeatsIn (amendLinks (amendImages source))
  have happart (h : TagsApart (amendLinks (amendImages source))) :
      cleanup (cleanup source) = cleanup source ↔ repeatsIn (cleanup source) = [] := by
    refine cleanup_eq_self_iff.trans ⟨Clean.imports, fun himports => ⟨?_, ?_, himports⟩⟩
    · exact (settled_images source).leavesOut isOpening_image lettered_image hleft (h _ (by simp))
    · exact (settled_links _).leavesOut isOpening_link lettered_link hleft (h _ (by simp))
  refine ⟨cleanup_eq_self_iff, happart, fun hnone => ?_⟩
  have hsame : cleanup source = amendLinks (amendImages source) := dropRepeated_of_nil hnone
  refine (happart fun _ _ _ _ e he => ?_).2 (hsame ▸ hnone)
  rw [hnone] at he
  cases he

/-- The source with an image, a link and a repeated import: its tags stand apart from the import. -/
theorem cleanup_cleanup_tidied :
    TagsApart (amendLinks (amendImages tidied)) ∧ repeatsIn (amendLinks (amendImages tidied)) ≠ [] ∧
      repeatsIn (cleanup tidied) = [] ∧ cleanup (cleanup tidied) = cleanup tidied := by
  have hapart : TagsApart (amendLinks (amendImages tidied)) := by decide +kernel
  have hnone : repeatsIn (cleanup tidied) = [] := by decide +kernel
  exact ⟨hapart, by decide +kernel, hnone, ((cleanup_cleanup_iff tidied).2.1 hapart).2 hnone⟩

/-- A repeated import between two comments that look like the two ends of a tag. -/
def parted : List Char :=
  ("<script>\nimport {alt} from 'x';\n// <img\nimport {alt} from 'x';\n// >\n</script>\n").toList

/-- The import gives the tag its attribute, and once it is dropped the tag gets another one. -/
theorem not_always_cleanup_cleanup :
    ¬ ∀ source, cleanup (cleanup source) = cleanup source := fun h => by
  have hparted : cleanup (cleanup parted) ≠ cleanup parted := by decide +kernel
  exact hparted (h parted)

end Mender.Component
