import Mender.Proofs.Component.Dropped

/-!
The scripts of a cleaned source.

An attribute is put in wherever a tag seems to open, in a script as well. So a script keeps its text up
to repeated imports exactly if no attribute is put into it.
-/

namespace Mender.Component

open Mender.Text Mender.Markup Mender.Script

variable {a b x y z source : List Char} {l : List (Nat × List Char)}

/-! ### Additions in a script -/

/-- No addition is put into a script. -/
def Spares (source : List Char) (l : List (Nat × List Char)) : Prop :=
  ∀ s ∈ scripts source, ∀ e ∈ l, ¬ (s.content.first ≤ e.1 ∧ e.1 < s.content.last)

instance : Decidable (Spares source l) := inferInstanceAs (Decidable (∀ s ∈ _, ∀ e ∈ _, _))

namespace Amends

/-- Every addition makes the text longer. -/
lemma length_le (h : Amends a x l y) : x.length + l.length ≤ y.length := by
  induction h with
  | nil => exact Nat.le_refl _
  | keep c h ih =>
    simp only [List.length_cons]
    omega
  | put he hc hno h ih =>
    cases he
    simp only [List.length_append, List.length_cons]
    omega

lemma eq_of_nil (h : Amends a x [] y) : y = x := by
  generalize hl : ([] : List (Nat × List Char)) = l at h
  induction h with
  | nil => rfl
  | keep c h ih => rw [ih hl]
  | put => cases hl

/-- Only without additions a text stays as it is. -/
lemma eq_iff (h : Amends a x l y) : y = x ↔ l = [] := by
  constructor
  · rintro rfl
    have := h.length_le
    exact List.length_eq_zero_iff.1 (by omega)
  · rintro rfl
    exact h.eq_of_nil

/-- A piece of the text is amended by the additions that lie in it. -/
lemma piece (h : Amends [] (a ++ (x ++ b)) l z) : ∃ l',
    (∀ e, e ∈ l' ↔ e ∈ l ∧ width a ≤ e.1 ∧ e.1 < width a + width x) ∧
      Amends a x l' (pieceWith l (width a, x)) := by
  obtain ⟨l₁, l₂, z₁, z₂, rfl, -, h₁, h₂⟩ := h.split
  obtain ⟨l₂, l₃, z₂, z₃, rfl, -, h₂, h₃⟩ := h₂.split
  have hbefore : ∀ e ∈ l₁, e.1 < width a := fun e he => by
    have := h₁.place_mem he
    simpa using this
  have hbehind : ∀ e ∈ l₃, width a + width x ≤ e.1 := fun e he => by
    have := h₃.place_mem he
    simpa using this.1
  refine ⟨l₂, fun e => ⟨fun he => ?_, fun ⟨he, hfirst, hlast⟩ => ?_⟩, ?_⟩
  · exact ⟨by simp [he], h₂.place_mem he⟩
  · rcases List.mem_append.1 he with he | he
    · have := hbefore e he
      omega
    · refine (List.mem_append.1 he).resolve_right fun he => ?_
      have := hbehind e he
      omega
  · rw [pieceWith_append l₂ (width a, x) hbefore hbehind]
    have heq : pieceWith l₂ (width a, x) = z₂ := Amends.pieceWith_eq h₂
    rwa [heq]

end Amends

lemma exists_of_mem_places {bs : List Block} {t : List Char} {e : Element}
    (h : e ∈ places (width a) bs) :
    ∃ x c y, a ++ textOf bs t = x ++ (c ++ y) ∧ e.content = ⟨width x, width x + width c⟩ := by
  induction bs generalizing a with
  | nil => cases h
  | cons b bs ih =>
    rcases List.mem_cons.1 h with rfl | h
    · refine ⟨a ++ b.gap ++ b.tag, b.content, b.close ++ textOf bs t, by simp, ?_⟩
      simp only [Block.toElement, width_append]
    · rw [toElement_stop, ← width_append] at h
      have hrest := ih h
      rwa [List.append_assoc, ← textOf_eq] at hrest

/-- The content of a script is a piece of the source. -/
lemma exists_of_mem_scripts {e : Element} (h : e ∈ scripts source) :
    ∃ x y, source = x ++ (e.content.of source ++ y) ∧
      e.content = ⟨width x, width x + width (e.content.of source)⟩ := by
  obtain ⟨bs, t, hl, rfl⟩ := exists_laidOut source
  have hplaces : e ∈ places (width []) bs := by
    rw [scripts, hl.elements_eq] at h
    exact List.mem_of_mem_filter h
  obtain ⟨x, c, y, hrow, hcontent⟩ := exists_of_mem_places (t := t) hplaces
  rw [List.nil_append] at hrow
  have hof : e.content.of (textOf bs t) = c := by
    rw [Span.of, hcontent, hrow, slice_between]
  rw [hof]
  exact ⟨x, y, hrow, hcontent⟩

/-- **The scripts stay** if nothing is put into one, and only then. -/
theorem Amends.contentsOf_eq_iff (h : Amends [] source l z) :
    contentsOf z = contentsOf source ↔ Spares source l := by
  have hscript : ∀ s ∈ scripts source, contentWith source l s = s.content.of source ↔
      ∀ e ∈ l, ¬ (s.content.first ≤ e.1 ∧ e.1 < s.content.last) := by
    intro s hs
    obtain ⟨x, y, hsource, hcontent⟩ := exists_of_mem_scripts hs
    rw [hsource] at h
    obtain ⟨l', hmem, hpiece⟩ := h.piece
    have hwith : contentWith source l s = pieceWith l (width x, s.content.of source) := by
      rw [contentWith]
      exact congrArg (fun n => pieceWith l (n, _)) (congrArg Span.first hcontent)
    rw [hwith, hpiece.eq_iff, List.eq_nil_iff_forall_not_mem]
    have hfirst : s.content.first = width x := congrArg Span.first hcontent
    have hlast : s.content.last = width x + width (s.content.of source) :=
      congrArg Span.last hcontent
    simp only [hmem, not_and, hfirst, hlast]
  rw [h.contentsOf_eq, contentsOf, List.map_inj_left]
  exact forall₂_congr hscript

/-! ### The cleaned source -/

/-- The additions go into the scripts they lie in, and into no others. -/
structure PutsIn (source : List Char) (l : List (Nat × List Char)) (amended : List Char) : Prop where
  contents : contentsOf amended = (scripts source).map (contentWith source l)
  same_iff : contentsOf amended = contentsOf source ↔ Spares source l

lemma Amends.putsIn (h : Amends [] source l z) : PutsIn source l z :=
  ⟨h.contentsOf_eq, h.contentsOf_eq_iff⟩

lemma scripts_ne_nil_iff : scripts source ≠ [] ↔ contentsOf source ≠ [] := by
  rw [contentsOf, Ne, Ne, List.map_eq_nil_iff]

/-- **What cleaning does to scripts.** Of each script the repeated imports are dropped, and before that
it gets the attributes that are put in inside of it. So if there are none it loses its repeats and is the
same otherwise. -/
theorem contentsOf_cleanup (hs : scripts source ≠ [])
    (himages : ∀ e ∈ imageAdditions source, completesName source e.1 = false)
    (hlinks : ∀ e ∈ linkAdditions (amendImages source),
      completesName (amendImages source) e.1 = false) :
    PutsIn source (imageAdditions source) (amendImages source) ∧
      PutsIn (amendImages source) (linkAdditions (amendImages source))
        (amendLinks (amendImages source)) ∧
      contentsOf (cleanup source) =
        (contentsOf (amendLinks (amendImages source))).map withoutRepeats ∧
      (Spares source (imageAdditions source) →
        Spares (amendImages source) (linkAdditions (amendImages source)) →
        contentsOf (cleanup source) = (contentsOf source).map withoutRepeats) ∧
      ∀ t, ∀ e ∈ repeated t [] (parse t).statements, IsRepeat t e := by
  have hfirst := (amends_images himages).putsIn
  have hsecond := (amends_links hlinks).putsIn
  have hscripts : scripts (amendLinks (amendImages source)) ≠ [] := by
    have himaged : scripts (amendImages source) ≠ [] := by
      rw [scripts_ne_nil_iff, hfirst.contents]
      exact mt List.map_eq_nil_iff.1 hs
    rw [scripts_ne_nil_iff, hsecond.contents]
    exact mt List.map_eq_nil_iff.1 himaged
  have hdropped : contentsOf (cleanup source) =
      (contentsOf (amendLinks (amendImages source))).map withoutRepeats :=
    contentsOf_dropRepeated hscripts
  refine ⟨hfirst, hsecond, hdropped, fun hspared hspared' => ?_, fun t e => isRepeat_of_mem⟩
  rw [hdropped, hsecond.same_iff.2 hspared', hfirst.same_iff.2 hspared]

/-- A script with a repeated import, between an image and a link. -/
def tidied : List Char :=
  ("<img><script>\nimport a from './a';\nimport a from './a';\nlet x = a;\n</script>" ++
    "<a target='_blank'>x</a>").toList

theorem contentsOf_cleanup_tidied :
    imageAdditions tidied ≠ [] ∧ linkAdditions (amendImages tidied) ≠ [] ∧
      contentsOf (cleanup tidied) = (contentsOf tidied).map withoutRepeats ∧
      contentsOf (cleanup tidied) = ["\nimport a from './a';\nlet x = a;\n".toList] := by
  have hscripts : scripts tidied ≠ [] := by decide +kernel
  have hcleaned := contentsOf_cleanup hscripts (by decide +kernel) (by decide +kernel)
  have hkept := hcleaned.2.2.2.1 (by decide +kernel) (by decide +kernel)
  exact ⟨by decide +kernel, by decide +kernel, hkept, by decide +kernel⟩

/-- A string of a script with the text of an image. -/
def imageText : List Char := "<script>\n  let s = \"<img>\";\n</script>\n".toList

/-- An attribute is put into the string, and the script has a fault that it did not have. -/
theorem attribute_in_string :
    contentsOf imageText = ["\n  let s = \"<img>\";\n".toList] ∧
      contentsOf (cleanup imageText) = ["\n  let s = \"<img alt=\"\">\";\n".toList] ∧
      contentsOf (cleanup imageText) ≠ (contentsOf imageText).map withoutRepeats ∧
      (∀ c ∈ contentsOf imageText, (parse c).fault = none) ∧
      ∀ c ∈ contentsOf (cleanup imageText), (parse c).fault ≠ none := by
  decide +kernel

end Mender.Component
