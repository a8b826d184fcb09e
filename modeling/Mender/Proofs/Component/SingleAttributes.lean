import Mender.Proofs.Component.Untangled

/-!
The attributes of a cleaned component.

A source is cut at its elements. Where each part is without tangles the passes go over the parts one by
one, so the markup of the cleaned source is the markup of the source with each tag amended, and dropping
imports does not touch it. A tag gets an attribute twice exactly if the test for it overlooks the one that
is there: one without a value, one in braces with a blank, or one that no blank stands in front of.
-/

namespace Mender.Component

open Mender.Text Mender.Markup

variable {k : Fix} {bs : List Block} {b : Block} {source t x y rest : List Char}
  {P Q R : Fix → List Char → Prop}

/-! ### The parts of a source -/

/-- The texts that lie between the elements of a source. -/
def markupTexts (source : List Char) : List (List Char) :=
  (gaps source 0 (elements source)).map (·.text)

/-- The opening tag, the content and the closing tag of an element. -/
def elementTexts (source : List Char) (e : Element) : List (List Char) :=
  [e.openTag.of source, e.content.of source, slice e.content.last e.stop source]

/-- Each part of the source is without tangles. -/
def PartsUntangled (source : List Char) : Prop :=
  (∀ t ∈ markupTexts source, Untangled t) ∧
    ∀ e ∈ elements source, ∀ t ∈ elementTexts source e, Untangled t

instance : Decidable (PartsUntangled source) :=
  inferInstanceAs (Decidable ((∀ t ∈ _, _) ∧ ∀ e ∈ _, ∀ t ∈ _, _))

/-- The source is no plain script: it has a script, or it begins with a tag. -/
def IsComponent (source : List Char) : Prop :=
  scripts source ≠ [] ∨ (trimStart source).head? = some '<'

instance : Decidable (IsComponent source) := inferInstanceAs (Decidable (_ ∨ _))

/-- The parts of a block are without tangles. -/
structure BlockUntangled (b : Block) : Prop where
  gap : Untangled b.gap
  tag : Untangled b.tag
  content : Untangled b.content
  close : Untangled b.close

lemma markupTexts_textOf (h : LaidOut bs t) : markupTexts (textOf bs t) = bs.map (·.gap) ++ [t] := by
  have hgaps := gaps_places [] bs t
  rw [List.nil_append, width_nil] at hgaps
  rw [markupTexts, h.elements_eq, hgaps]

lemma flatMap_elementTexts (a : List Char) (bs : List Block) (t : List Char) :
    (places (width a) bs).flatMap (elementTexts (a ++ textOf bs t)) =
      bs.flatMap fun b => [b.tag, b.content, b.close] := by
  induction bs generalizing a with
  | nil => rfl
  | cons b bs ih =>
    have hrest := ih (a ++ b.text)
    rw [List.append_assoc, ← textOf_eq, width_append] at hrest
    have htexts : elementTexts (a ++ textOf (b :: bs) t) (b.toElement (width a)) =
        [b.tag, b.content, b.close] := by
      have htag := slice_between (a ++ b.gap) b.tag (b.content ++ (b.close ++ textOf bs t))
      have hcontent := slice_between (a ++ b.gap ++ b.tag) b.content (b.close ++ textOf bs t)
      have hclose := slice_between (a ++ b.gap ++ b.tag ++ b.content) b.close (textOf bs t)
      simp only [width_append, List.append_assoc, ← Nat.add_assoc] at htag hcontent hclose
      simp only [elementTexts, Span.of, Block.toElement, textOf_cons, htag, hcontent, hclose]
    rw [places, List.flatMap_cons, htexts, toElement_stop, hrest, List.flatMap_cons]

lemma partsUntangled_textOf (h : LaidOut bs t) :
    PartsUntangled (textOf bs t) ↔ (∀ b ∈ bs, BlockUntangled b) ∧ Untangled t := by
  have htexts := flatMap_elementTexts [] bs t
  rw [List.nil_append, width_nil, ← h.elements_eq] at htexts
  have hparts : (∀ e ∈ elements (textOf bs t), ∀ u ∈ elementTexts (textOf bs t) e, Untangled u) ↔
      ∀ b ∈ bs, Untangled b.tag ∧ Untangled b.content ∧ Untangled b.close := by
    rw [← List.forall_mem_flatMap, htexts, List.forall_mem_flatMap]
    simp
  rw [PartsUntangled, hparts, markupTexts_textOf h]
  simp only [List.mem_append, List.mem_singleton, List.mem_map]
  constructor
  · rintro ⟨hgaps, hrest⟩
    refine ⟨fun b hb => ?_, hgaps t (.inr rfl)⟩
    obtain ⟨htag, hcontent, hclose⟩ := hrest b hb
    exact ⟨hgaps _ (.inl ⟨b, hb, rfl⟩), htag, hcontent, hclose⟩
  · rintro ⟨hblocks, ht⟩
    refine ⟨?_, fun b hb => ⟨(hblocks b hb).tag, (hblocks b hb).content, (hblocks b hb).close⟩⟩
    rintro u (⟨b, hb, rfl⟩ | rfl)
    · exact (hblocks b hb).gap
    · exact ht

/-! ### Passes over a source -/

/-- A block whose parts went through a pass. -/
def passBlock (k : Fix) (b : Block) : Block where
  gap := k.pass b.gap
  kind := b.kind
  tag := k.pass b.tag
  content := k.pass b.content
  close := k.pass b.close

namespace BlockUntangled

lemma pass (h : BlockUntangled b) (k : Fix) : BlockUntangled (passBlock k b) :=
  ⟨h.gap.pass k, h.tag.pass k, h.content.pass k, h.close.pass k⟩

lemma begins (h : BlockUntangled b) (hb : b.Begins) (k : Fix) : (passBlock k b).Begins := by
  obtain ⟨_, hgap⟩ := h.gap.exists_amends k
  obtain ⟨_, htag⟩ := h.tag.exists_amends k
  obtain ⟨_, hcontent⟩ := h.content.exists_amends k
  exact ⟨hgap.quiet hb.gap, htag.opens_iff.2 hb.opens,
    htag.interspersed.splitTag_self (fun _ => id) quoted_none hb.tag,
    hcontent.lacks (isWhole_closing _) hb.content⟩

/-- The parts of a block meet, so a pass over the text of the block goes over the parts. -/
lemma pass_text (h : BlockUntangled b) (hb : b.Begins) (he : Ends b.kind b.close rest)
    (hrest : Untangled rest) (k : Fix) :
    Untangled (b.gap ++ (b.tag ++ (b.content ++ (b.close ++ rest)))) ∧
      k.pass (b.gap ++ (b.tag ++ (b.content ++ (b.close ++ rest)))) =
        k.pass b.gap ++ (k.pass b.tag ++ (k.pass b.content ++ (k.pass b.close ++ k.pass rest))) := by
  have htag : Loose b.tag := fun c hc => by
    rw [getLast?_of_splitTag hb.tag, Option.mem_some_iff] at hc
    exact hc ▸ ⟨by decide, by decide⟩
  have hclose : StartsTag (b.close ++ rest) ∧ Meets b.close rest := by
    have hname {r : List Char} (hname : beginsWith b.kind.closing b.close = true) :
        StartsTag (b.close ++ r) := by
      obtain ⟨s, hs⟩ := startsTag_of_beginsWith (isTagName_closing _) hname
      rw [hs]
      exact startsTag_cons _
    rcases he with hc | ⟨hc, rfl⟩
    · refine ⟨hname hc.name, .inr fun c hmem => ?_⟩
      rw [getLast?_of_splitTag hc.tag, Option.mem_some_iff] at hmem
      exact hmem ▸ ⟨by decide, by decide⟩
    · refine ⟨?_, .inl startsTag_nil⟩
      rcases hc.name with hnil | hc
      · rw [hnil]
        exact startsTag_nil
      · exact hname hc
  obtain ⟨hstart, hmeets⟩ := hclose
  have hfirst := h.close.append hrest hmeets
  have hsecond := h.content.append hfirst (.inl hstart)
  have hthird := h.tag.append hsecond (.inr htag)
  have hgap : Meets b.gap (b.tag ++ (b.content ++ (b.close ++ rest))) := .inl (hb.startsTag _)
  refine ⟨h.gap.append hthird hgap, ?_⟩
  rw [h.gap.pass_append hthird hgap, h.tag.pass_append hsecond (.inr htag),
    h.content.pass_append hfirst (.inl hstart), h.close.pass_append hrest hmeets]

end BlockUntangled

/-- **A pass over a source** goes over its parts. -/
theorem laidOut_pass (h : LaidOut bs t) (hbs : ∀ b ∈ bs, BlockUntangled b) (ht : Untangled t) (k : Fix) :
    Untangled (textOf bs t) ∧ k.pass (textOf bs t) = textOf (bs.map (passBlock k)) (k.pass t) ∧
      LaidOut (bs.map (passBlock k)) (k.pass t) := by
  induction h with
  | tail h =>
    obtain ⟨_, hamends⟩ := ht.exists_amends k
    exact ⟨ht, rfl, .tail (hamends.bare h)⟩
  | @closed b bs t hb hc h ih =>
    obtain ⟨hblock, hbs⟩ := List.forall_mem_cons.1 hbs
    obtain ⟨huntangled, hpass, hlaid⟩ := ih hbs ht
    obtain ⟨hall, htext⟩ := hblock.pass_text hb (.inl hc) huntangled k
    obtain ⟨_, hclose⟩ := hblock.close.exists_amends k
    rw [textOf_cons, htext, hpass, List.map_cons, textOf_cons]
    exact ⟨hall, rfl, .closed (hblock.begins hb k) (hclose.closes hc) hlaid⟩
  | @broken b hb hc =>
    have hblock := hbs b List.mem_cons_self
    obtain ⟨hall, htext⟩ := hblock.pass_text hb (.inr ⟨hc, rfl⟩) eachTag_nil k
    obtain ⟨_, hclose⟩ := hblock.close.exists_amends k
    rw [textOf_cons, textOf_nil, htext, List.map_cons, textOf_cons]
    exact ⟨hall, rfl, .broken (hblock.begins hb k) (hclose.breaks hc)⟩

/-- **The markup behind a pass.** -/
theorem markupTexts_pass (h : PartsUntangled source) (k : Fix) :
    PartsUntangled (k.pass source) ∧ markupTexts (k.pass source) = (markupTexts source).map k.pass := by
  obtain ⟨bs, t, hl, rfl⟩ := exists_laidOut source
  obtain ⟨hbs, ht⟩ := (partsUntangled_textOf hl).1 h
  obtain ⟨-, htext, hlaid⟩ := laidOut_pass hl hbs ht k
  rw [htext, partsUntangled_textOf hlaid, markupTexts_textOf hlaid, markupTexts_textOf hl]
  refine ⟨⟨List.forall_mem_map.2 fun b hb => (hbs b hb).pass k, ht.pass k⟩, ?_⟩
  rw [List.map_append, List.map_map, List.map_map]
  rfl

/-! ### The cleaned component -/

/-- What is put into tags leaves the tag alone that a text begins with. -/
lemma Widened.head?_trimStart (h : Widened x y) (hx : (trimStart x).head? = some '<') :
    (trimStart y).head? = some '<' := by
  obtain ⟨r, hr⟩ := List.head?_eq_some_iff.1 hx
  have happ : x = x.takeWhile isBlank ++ '<' :: r := by
    conv_lhs => rw [← List.takeWhile_append_dropWhile (p := isBlank) (l := x)]
    exact congrArg _ hr
  have hblanks : ∀ c ∈ x.takeWhile isBlank, isBlank c = true := fun c => List.mem_takeWhile_imp
  have hnot : ¬ closesTag false ('<' :: r) = true := Bool.false_ne_true
  generalize x.takeWhile isBlank = w at happ hblanks
  subst happ
  obtain ⟨z, rfl, hz⟩ := Interspersed.append h fun u v hv _ hcloses => by
    rw [closesTag_blanks fun c hm => hblanks c (hv ▸ List.mem_append_right u hm)] at hcloses
    exact hnot hcloses
  obtain ⟨z, rfl, -⟩ := Interspersed.of_notAt hnot hz
  rw [trimStart, List.dropWhile_append_of_pos hblanks]
  rfl

/-- A component behind a pass is one. -/
lemma IsComponent.pass (hc : IsComponent source) (h : PartsUntangled source) (k : Fix) :
    IsComponent (k.pass source) := by
  obtain ⟨bs, t, hl, rfl⟩ := exists_laidOut source
  obtain ⟨hbs, ht⟩ := (partsUntangled_textOf hl).1 h
  obtain ⟨huntangled, htext, hlaid⟩ := laidOut_pass hl hbs ht k
  refine hc.imp (fun hc => ?_) (huntangled.widened k).head?_trimStart
  rw [scripts_ne_nil_iff, contentsOf_textOf hl] at hc
  rw [htext, scripts_ne_nil_iff, contentsOf_textOf hlaid]
  obtain ⟨c, hmem⟩ := List.exists_mem_of_ne_nil _ hc
  obtain ⟨b, hb, hkind, rfl⟩ := mem_scriptContents.1 hmem
  exact List.ne_nil_of_mem (mem_scriptContents.2 ⟨passBlock k b, List.mem_map_of_mem hb, hkind, rfl⟩)

lemma markupTexts_dropRepeated (h : IsComponent source) :
    markupTexts (dropRepeated source) = markupTexts source := by
  by_cases hs : scripts source = []
  · have hnone : repeatsIn source = [] := by
      rw [repeatsIn, hs]
      exact if_pos (h.resolve_left (not_not.2 hs))
    rw [dropRepeated_of_nil hnone]
  · obtain ⟨bs, t, hl, rfl⟩ := exists_laidOut source
    have hgap (b : Block) : (leaveOut b).gap = b.gap := by
      unfold leaveOut
      split <;> rfl
    rw [dropRepeated_textOf hl hs, markupTexts_textOf (laidOut_leaveOut hl), markupTexts_textOf hl,
      List.map_map]
    exact congrArg (· ++ [t]) (List.map_congr_left fun b _ => hgap b)

/-- **The markup of a cleaned component**: each text between its elements goes through both passes. -/
theorem markupTexts_cleanup (hc : IsComponent source) (h : PartsUntangled source) :
    markupTexts (cleanup source) = (markupTexts source).map fun t => amendLinks (amendImages t) := by
  obtain ⟨himages, hfirst⟩ := markupTexts_pass h .image
  obtain ⟨-, hsecond⟩ := markupTexts_pass himages .link
  have hboth : IsComponent (amendLinks (amendImages source)) := (hc.pass h .image).pass himages .link
  rw [cleanup, markupTexts_dropRepeated hboth]
  refine hsecond.trans ?_
  rw [hfirst, List.map_map]
  rfl

/-- Behind both passes each tag has what is added to it. -/
lemma eachTag_cleaned_iff (h : Untangled t) : EachTag P (amendLinks (amendImages t)) ↔
    EachTag (fun k body => P k (amendedBody k.extra body)) t := by
  have hboth : EachTag P (amendLinks (amendImages t)) ↔
      EachTag (fun k body => P k (Fix.link.amend k (Fix.image.amend k body))) t :=
    ((h.pass .image).eachTag_pass_iff .link).trans (h.eachTag_pass_iff .image)
  rw [hboth]
  refine h.congr fun k body _ _ => ?_
  cases k <;> rfl

/-- **The attributes of a cleaned component** are there once if they were, except where one was
overlooked. -/
theorem single_cleanup_iff (hc : IsComponent source) (h : PartsUntangled source)
    (hsingle : ∀ t ∈ markupTexts source, EachTag (fun _ => Single) t) :
    (∀ t ∈ markupTexts (cleanup source), EachTag (fun _ => Single) t) ↔
      ∀ t ∈ markupTexts source, EachTag (fun k body => ¬ k.Overlooked body) t := by
  rw [markupTexts_cleanup hc h, List.forall_mem_map]
  refine forall₂_congr fun t ht => ?_
  rw [eachTag_cleaned_iff (h.1 t ht)]
  exact (hsingle t ht).congr fun k body htag hbody => single_amendedBody_iff htag hbody

/-- A script, an image without a text and a link that opens a window. -/
def gallery : List Char :=
  ("<script>\nimport a from './a';\nimport a from './a';\n</script>\n" ++
    "<img src=\x7ba > 1 ? a : ''\x7d title=\"x\" /><a href='/' target='_blank' title='<'>x</a>").toList

theorem single_cleanup_gallery :
    (∀ t ∈ markupTexts gallery, EachTag (fun k body => ¬ k.Overlooked body) t) ∧
      cleanup gallery ≠ gallery ∧ ∀ t ∈ markupTexts (cleanup gallery), EachTag (fun _ => Single) t := by
  have hnone : ∀ t ∈ markupTexts gallery, EachTag (fun k body => ¬ k.Overlooked body) t := by decide +kernel
  exact ⟨hnone, by decide +kernel,
    (single_cleanup_iff (by decide +kernel) (by decide +kernel) (by decide +kernel)).2 hnone⟩

/-- An attribute without a value is overlooked, and so the image gets a second one. -/
theorem not_always_single_cleanup : ¬ ∀ source, IsComponent source →
    (∀ t ∈ markupTexts source, EachTag (fun _ => Single) t) →
      ∀ t ∈ markupTexts (cleanup source), EachTag (fun _ => Single) t := by
  intro h
  have hcleaned := h "<img alt>".toList (by decide +kernel) (by decide +kernel)
  revert hcleaned
  decide +kernel

end Mender.Component
