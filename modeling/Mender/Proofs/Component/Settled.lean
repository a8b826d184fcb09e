import Mender.Proofs.Component.AttributeTests

/-!
Tags that have all that is added to them.

Behind one pass the search finds nothing more to add, and what the other pass adds does not change that.
So both passes together reach a text that neither of them changes.
-/

namespace Mender.Component

open Mender.Text Mender.Markup Mender.Module

variable {opening : List Char} {extra : List Char → Option (List Char)} {t u : List Char}

/-- Nothing is added to the tags of the text. -/
def Settled (opening : List Char) (extra : List Char → Option (List Char)) (t : List Char) : Prop :=
  additions opening extra 0 0 t = []

/-- What is added to the tags of a name is enough, and lasts. -/
structure IsPass (opening : List Char) (extra : List Char → Option (List Char)) : Prop where
  name : IsOpening opening
  adds : ∀ s e, extra s = some e → IsAddition e
  enough : ∀ {body e}, IsTag opening body → extra (attributesOf body.dropLast) = some e →
    extra (attributesOf (amendedBody extra body).dropLast) = none
  lasts : ∀ {body body'}, IsTag opening body → Widened body body' →
    extra (attributesOf body.dropLast) = none → extra (attributesOf body'.dropLast) = none

lemma Finds.isTag_of_mem {found : List (List Char)} (h : Finds opening t found) :
    ∀ body ∈ found, IsTag opening body := by
  induction h with
  | nil | unclosed => exact List.forall_mem_nil _
  | char _ _ ih => exact ih
  | tag h _ ih => exact List.forall_mem_cons.2 ⟨h, ih⟩

lemma exists_of_mem_right {α β : Type} {R : α → β → Prop} {l : List α} {l' : List β}
    (h : List.Forall₂ R l l') : ∀ b ∈ l', ∃ a ∈ l, R a b := by
  induction h with
  | nil => exact List.forall_mem_nil _
  | cons hab _ ih =>
    refine List.forall_mem_cons.2 ⟨⟨_, List.mem_cons_self, hab⟩, fun b hb => ?_⟩
    obtain ⟨a, ha, hr⟩ := ih b hb
    exact ⟨a, List.mem_cons_of_mem _ ha, hr⟩

lemma withAdditions_nil (t : List Char) : withAdditions t [] = t := dropWidth_zero t

/-- The text that a pass makes, with the tags that are found in it. -/
lemma Finds.withAdditions (hop : IsOpening opening) (hextra : ∀ s e, extra s = some e → IsAddition e)
    {found : List (List Char)} (h : Finds opening t found) :
    Widened t (withAdditions t (additions opening extra 0 0 t)) ∧
      Finds opening (withAdditions t (additions opening extra 0 0 t)) (found.map (amendedBody extra)) := by
  obtain ⟨ps, hold, hedits, hwidened, hfinds⟩ := h.exists_pieces hop hextra 0
  have hspliced := splice_edits [] ps
  rw [List.nil_append, hold, width_nil, hedits] at hspliced
  have hnew : Component.withAdditions t (additions opening extra 0 0 t) = newText ps := hspliced
  rw [hnew]
  exact ⟨hwidened, hfinds⟩

namespace IsPass

variable (hpass : IsPass opening extra)

include hpass

lemma widened (t : List Char) : Widened t (withAdditions t (additions opening extra 0 0 t)) := by
  obtain ⟨found, hfound⟩ := exists_finds hpass.name t
  exact (hfound.withAdditions hpass.name hpass.adds).1

/-- **One pass is enough**: it leaves nothing to add. -/
theorem settled (t : List Char) :
    Settled opening extra (withAdditions t (additions opening extra 0 0 t)) := by
  obtain ⟨found, hfound⟩ := exists_finds hpass.name t
  refine ((hfound.withAdditions hpass.name hpass.adds).2.additions_eq_nil_iff hpass.name 0).2 ?_
  refine List.forall_mem_map.2 fun body hbody => ?_
  have htag := hfound.isTag_of_mem body hbody
  cases he : extra (attributesOf body.dropLast) with
  | none => exact hpass.lasts htag (htag.widened hpass.adds) he
  | some e => exact hpass.enough htag he

/-- **What another pass adds** leaves nothing to add either. -/
theorem settled_widened (h : Settled opening extra t) (hu : Widened t u) : Settled opening extra u := by
  obtain ⟨found, hfound⟩ := exists_finds hpass.name t
  obtain ⟨found', hfound', hall⟩ := hfound.widened hpass.name hu
  have hnone := (hfound.additions_eq_nil_iff hpass.name 0).1 h
  refine (hfound'.additions_eq_nil_iff hpass.name 0).2 fun body' hbody' => ?_
  obtain ⟨body, hbody, hwidened⟩ := exists_of_mem_right hall body' hbody'
  exact hpass.lasts (hfound.isTag_of_mem body hbody) hwidened (hnone body hbody)

end IsPass

lemma withAdditions_eq_self (h : Settled opening extra t) :
    withAdditions t (additions opening extra 0 0 t) = t := by
  rw [Settled] at h
  rw [h, withAdditions_nil]

/-! ### The two passes -/

/-- An attribute with a value is read where it stands. -/
lemma standsAlone_of_matches {p : Pattern} {e : List Char} (hp : firm p = true)
    (he : ∀ w, Pattern.matchesHere none p (e ++ w) = true) (s w : List Char) :
    StandsAlone p (s ++ (' ' :: e ++ w)) := by
  refine ⟨s ++ [' '], e ++ w, by simp, fun c hc => ?_, ?_⟩
  · rw [List.getLast?_concat, Option.some_or, Option.some.injEq] at hc
    exact hc ▸ by decide
  · exact (matchesAt_iff_reads hp).1 ((Pattern.matchesHere_iff (settled_of_firm hp)).1 (he w))

lemma isPass_images : IsPass "<img".toList imageExtra where
  name := isOpening_image
  adds := IsAddition.of_image
  enough := by
    intro body e htag he
    have hamended := (htag.widened IsAddition.of_image).isTag htag
    obtain ⟨w, hw, -, -⟩ := htag.exists_attributes
    rw [hamended.imageExtra_eq_none_iff, amendedBody_eq hw, he]
    unfold imageExtra at he
    split at he
    · cases he
    · obtain rfl := Option.some.inj he
      exact hasText_iff.2 (.inl (standsAlone_of_matches (e := "alt=\"\"".toList) (by decide)
        (fun _ => rfl) _ _))
  lasts := by
    intro body body' htag hbody h
    rw [htag.imageExtra_eq_none_iff] at h
    rw [(hbody.isTag htag).imageExtra_eq_none_iff]
    exact (tests_widened hbody).1 h

lemma isPass_links : IsPass "<a".toList linkExtra where
  name := isOpening_link
  adds := IsAddition.of_link
  enough := by
    intro body e htag he
    have hamended := (htag.widened IsAddition.of_link).isTag htag
    obtain ⟨w, hw, -, -⟩ := htag.exists_attributes
    rw [hamended.linkExtra_eq_none_iff, amendedBody_eq hw, he]
    unfold linkExtra at he
    split at he
    · obtain rfl := Option.some.inj he
      exact fun _ => hasRelation_iff.2 (standsAlone_of_matches (e := "rel=\"noopener noreferrer\"".toList)
        (by decide) (fun _ => rfl) _ _)
    · cases he
  lasts := by
    intro body body' htag hbody h
    rw [htag.linkExtra_eq_none_iff] at h
    rw [(hbody.isTag htag).linkExtra_eq_none_iff]
    obtain ⟨-, hrelation, hwindow⟩ := tests_widened hbody
    exact fun hopens => hrelation (h (hwindow hopens))

lemma settled_images (t : List Char) : Settled "<img".toList imageExtra (amendLinks (amendImages t)) :=
  isPass_images.settled_widened (isPass_images.settled t) (isPass_links.widened _)

lemma settled_links (t : List Char) : Settled "<a".toList linkExtra (amendLinks t) :=
  isPass_links.settled t

/-- **Both passes together** reach a text that neither of them changes. -/
theorem amend_settles (t : List Char) :
    amendImages (amendLinks (amendImages t)) = amendLinks (amendImages t) ∧
      amendLinks (amendLinks (amendImages t)) = amendLinks (amendImages t) :=
  ⟨withAdditions_eq_self (settled_images t), withAdditions_eq_self (settled_links (amendImages t))⟩

end Mender.Component
