import Mender.Component.Cleanup
import Mender.Proofs.Markup.Tag
import Mender.Proofs.Module.Splice
import Mender.Proofs.Text.Blank

/-!
A source with attributes put in.

An attribute is put in before what is left of a tag, and it says nothing to the search for the end of a
tag. So text and amended text are read side by side, and cut in the same places.
-/

namespace Mender.Component

open Mender.Text Mender.Markup Mender.Module

/-! ### Attributes -/

/-- A character that opens and closes nothing. -/
def isInert (c : Char) : Bool := !(isQuote c || c == '{' || c == '}' || c == '<' || c == '>')

/-- An attribute with a quoted value, behind a space. -/
inductive IsExtra : List Char → Prop
  | mk {name value : List Char} (h : ∀ c ∈ name ++ value, isInert c = true) :
    IsExtra (' ' :: (name ++ '"' :: (value ++ ['"'])))

lemma isExtra_image {attributes extra : List Char} (h : imageExtra attributes = some extra) :
    IsExtra extra := by
  unfold imageExtra at h
  split at h
  · cases h
  · have hmk : IsExtra (' ' :: ("alt=".toList ++ '"' :: ([] ++ ['"']))) :=
      .mk (List.all_eq_true.1 (by decide))
    exact Option.some.inj h ▸ hmk

lemma isExtra_link {attributes extra : List Char} (h : linkExtra attributes = some extra) :
    IsExtra extra := by
  unfold linkExtra at h
  split at h
  · have hmk : IsExtra (' ' :: ("rel=".toList ++ '"' :: ("noopener noreferrer".toList ++ ['"']))) :=
      .mk (List.all_eq_true.1 (by decide))
    exact Option.some.inj h ▸ hmk
  · cases h

/-- What is left of a tag behind its attributes may begin so: with a blank, with the closing `>`, or with
a slash before one of these. -/
def EndsTag : List Char → Prop
  | [] => False
  | c :: r => isBlank c = true ∨ c = '>' ∨ c = '/' ∧ ∀ d ∈ r.head?, isBlank d = true ∨ d = '>'

lemma EndsTag.of_append {c : Char} {x y : List Char} (h : EndsTag (c :: (x ++ y))) :
    EndsTag (c :: x) := by
  refine h.imp_right fun h => h.imp_right fun h => ⟨h.1, fun d hd => h.2 d ?_⟩
  rw [Option.mem_def] at hd ⊢
  rw [List.head?_append, hd, Option.some_or]

/-- Nothing but blanks and a slash comes before the `>`, or before the end of the text; `slash` says
that the slash is behind. -/
def closesTag : (slash : Bool) → List Char → Bool
  | _, [] => true
  | slash, c :: r =>
    if isBlank c then closesTag slash r else c == '>' || c == '/' && !slash && closesTag true r

lemma closesTag_blanks {w : List Char} (hw : ∀ c ∈ w, isBlank c = true) (slash : Bool) (r : List Char) :
    closesTag slash (w ++ r) = closesTag slash r := by
  induction w with
  | nil => rfl
  | cons c w ih =>
    obtain ⟨hc, hw⟩ := List.forall_mem_cons.1 hw
    rw [List.cons_append, closesTag, if_pos hc, ih hw]

lemma closesTag_gt (slash : Bool) (r : List Char) : closesTag slash ('>' :: r) = true := rfl

lemma endsTag_of_closesTag {t : List Char} (hne : t ≠ []) (h : closesTag false t = true) :
    EndsTag t := by
  cases t with
  | nil => exact absurd rfl hne
  | cons c r =>
    rw [closesTag] at h
    split at h
    · next hc => exact .inl hc
    · rcases Bool.or_eq_true_iff.1 h with h | h
      · exact .inr (.inl (beq_iff_eq.1 h))
      · obtain ⟨hc, hr⟩ := Bool.and_eq_true_iff.1 h
        refine .inr (.inr ⟨beq_iff_eq.1 (Bool.and_eq_true_iff.1 hc).1, fun d hd => ?_⟩)
        obtain ⟨r, rfl⟩ := List.head?_eq_some_iff.1 hd
        rw [closesTag] at hr
        split at hr
        · next hd => exact .inl hd
        · exact .inr (by simpa using hr)

/-- Behind the text `a` a space would make the tag of an element of what `c` does not. -/
def completes (a : List Char) (c : Char) : Bool :=
  !endsName c && [Kind.script, Kind.style].any fun k =>
    (a.drop (a.length - k.opening.length)).map Char.toLower == k.opening

/-- An attribute at this place would be the first of an element that was none before. -/
def completesName (source : List Char) (place : Nat) : Bool :=
  (dropWidth place source).head?.any (completes (takeWidth place source))

lemma completesName_append (a : List Char) (c : Char) (r : List Char) :
    completesName (a ++ c :: r) (width a) = completes a c := by
  rw [completesName, dropWidth_width, takeWidth_width]
  rfl

lemma endsName_of_completes {a m : List Char} {k : Kind} {c : Char} (hm : IsName k.opening m)
    (h : completes (a ++ m) c = false) : endsName c = true := by
  by_contra hc
  have hlength : m.length = k.opening.length := by rw [← hm, List.length_map]
  have hdrop : ((a ++ m).drop ((a ++ m).length - k.opening.length)).map Char.toLower = k.opening := by
    rw [List.length_append, hlength, Nat.add_sub_cancel, List.drop_left, hm]
  have hany : ([Kind.script, Kind.style].any fun k =>
      ((a ++ m).drop ((a ++ m).length - k.opening.length)).map Char.toLower == k.opening) = true :=
    List.any_eq_true.2 ⟨k, by cases k <;> simp, beq_iff_eq.2 hdrop⟩
  rw [completes, hany, Bool.and_true, Bool.not_eq_false'] at h
  exact hc h

/-! ### Text and amended text -/

/-- Behind the text `a`, the text `x` becomes `y` by the additions `l`, whose places count from the
start of `a`. -/
inductive Amends : (a x : List Char) → (l : List (Nat × List Char)) → (y : List Char) → Prop
  | nil (a : List Char) : Amends a [] [] []
  | keep {a x l y} (c : Char) (h : Amends (a ++ [c]) x l y) : Amends a (c :: x) l (c :: y)
  | put {a x l y extra} {c : Char} (he : IsExtra extra) (hc : EndsTag (c :: x))
    (hno : completes a c = false) (h : Amends (a ++ [c]) x l y) :
    Amends a (c :: x) ((width a, extra) :: l) (extra ++ c :: y)

namespace Amends

variable {a x y z : List Char} {l : List (Nat × List Char)}

lemma kept (a x : List Char) : Amends a x [] x := by
  induction x generalizing a with
  | nil => exact .nil a
  | cons c x ih => exact .keep c (ih _)

lemma keeps (x : List Char) (h : Amends (a ++ x) y l z) : Amends a (x ++ y) l (x ++ z) := by
  induction x generalizing a with
  | nil => rwa [List.append_nil] at h
  | cons c x ih => exact .keep c (ih (by rwa [List.append_assoc]))

/-- A cut of the text is one of the amended text. -/
lemma split (h : Amends a (x ++ y) l z) :
    ∃ l₁ l₂ z₁ z₂, l = l₁ ++ l₂ ∧ z = z₁ ++ z₂ ∧ Amends a x l₁ z₁ ∧ Amends (a ++ x) y l₂ z₂ := by
  induction x generalizing a l z with
  | nil => exact ⟨[], l, [], z, rfl, rfl, .nil a, by rwa [List.append_nil]⟩
  | cons c x ih =>
    cases h with
    | keep _ h =>
      obtain ⟨l₁, l₂, z₁, z₂, rfl, rfl, h₁, h₂⟩ := ih h
      exact ⟨l₁, l₂, c :: z₁, z₂, rfl, rfl, .keep c h₁, by rwa [List.append_assoc] at h₂⟩
    | put he hc hno h =>
      obtain ⟨l₁, l₂, z₁, z₂, rfl, rfl, h₁, h₂⟩ := ih h
      exact ⟨_ :: l₁, l₂, _ ++ c :: z₁, z₂, rfl, by simp, .put he hc.of_append hno h₁,
        by rwa [List.append_assoc] at h₂⟩

lemma place_mem (h : Amends a x l y) {e : Nat × List Char} (he : e ∈ l) :
    width a ≤ e.1 ∧ e.1 < width a + width x := by
  induction h with
  | nil => cases he
  | @keep a x l y c h ih =>
    have := ih he
    simp only [width_append, width_cons, width_nil] at this ⊢
    omega
  | @put a x l y extra c hx hc hno h ih =>
    have hpos := c.utf8Size_pos
    rcases List.mem_cons.1 he with rfl | he
    · simp only [width_cons]
      omega
    · have := ih he
      simp only [width_append, width_cons, width_nil] at this ⊢
      omega

/-- Where the additions stand in the text, as replacements of nothing. -/
def insertions (l : List (Nat × List Char)) : List (Script.Extent × List Char) :=
  l.map fun e => (⟨e.1, e.1⟩, e.2)

lemma splice_step (c : Char) (h : Amends (a ++ [c]) x l y) :
    splice (a ++ c :: x) (width a) (insertions l) =
      c :: splice (a ++ [c] ++ x) (width (a ++ [c])) (insertions l) := by
  have hplaces : ∀ e ∈ insertions l, width a + width [c] ≤ e.1.first := by
    intro e he
    obtain ⟨f, hf, rfl⟩ := List.mem_map.1 he
    rw [← width_append]
    exact (h.place_mem hf).1
  rw [List.append_assoc, width_append]
  exact splice_copy a [c] x hplaces

/-- **The amended text** is the text with the additions put in. -/
theorem splice_eq (h : Amends a x l y) : splice (a ++ x) (width a) (insertions l) = y := by
  induction h with
  | nil a => exact dropWidth_width a []
  | keep c h ih => rw [splice_step c h, ih]
  | put he hc hno h ih =>
    rw [insertions, List.map_cons, splice, slice_self, List.nil_append, ← insertions,
      splice_step _ h, ih]

end Amends

/-! ### The search for tags -/

/-- Behind the attributes of a tag only blanks and a slash are left of it. -/
lemma exists_attributesOf (body : List Char) :
    ∃ w, body = attributesOf body ++ w ∧ (∀ c ∈ w, endsTagName c = true) ∧
      ∀ r, closesTag false (w ++ '>' :: r) = true := by
  have hblanks : ∀ t : List Char, ∃ w, t = trimEnd t ++ w ∧ ∀ c ∈ w, isBlank c = true := by
    intro t
    rw [trimEnd, dropTail_eq_rdropWhile]
    exact ⟨t.rtakeWhile isBlank, List.rdropWhile_append_rtakeWhile.symm,
      fun c hc => List.mem_rtakeWhile_imp hc⟩
  have hends {c : Char} (hc : isBlank c = true) : endsTagName c = true := by
    rw [endsTagName, hc]
    rfl
  obtain ⟨w, hw, hblank⟩ := hblanks body
  have hcloses (slash : Bool) (r : List Char) : closesTag slash (w ++ '>' :: r) = true := by
    rw [closesTag_blanks hblank, closesTag_gt]
  unfold attributesOf
  dsimp only
  split
  · next hlast =>
    obtain ⟨t, ht⟩ := List.getLast?_eq_some_iff.1 hlast
    obtain ⟨v, hv, hvblank⟩ := hblanks t
    rw [ht, List.dropLast_concat]
    refine ⟨v ++ '/' :: w, ?_, fun c hc => ?_, fun r => ?_⟩
    · rw [← List.append_assoc, ← hv]
      rw [ht] at hw
      simpa using hw
    · rcases List.mem_append.1 hc with hc | hc
      · exact hends (hvblank c hc)
      · rcases List.mem_cons.1 hc with rfl | hc
        · decide
        · exact hends (hblank c hc)
    · rw [List.append_assoc, closesTag_blanks hvblank]
      exact hcloses true r
  · exact ⟨w, hw, fun c hc => hends (hblank c hc), hcloses false⟩

variable {opening : List Char} {extra : List Char → Option (List Char)}

lemma additions_skip (n place : Nat) (t : List Char) :
    additions opening extra n place t =
      additions opening extra 0 (place + width (t.take n)) (t.drop n) := by
  induction n generalizing place t with
  | zero => simp
  | succ n ih =>
    cases t with
    | nil => simp [additions]
    | cons c t =>
      rw [additions, ih, List.take_succ_cons, List.drop_succ_cons, width_cons, Nat.add_assoc]

/-- The tag that starts with a name has attributes, and then little is left of it. -/
lemma exists_tag (hgt : '>' ∉ opening) {t tag rest u : List Char} (ht : t = opening ++ u)
    (h : splitTag none 0 t = some (tag, rest)) :
    ∃ w, tag = opening ++ attributesOf (tag.drop opening.length).dropLast ++ w ∧ w ≠ [] ∧
      EndsTag (w ++ rest) := by
  have hlast := getLast?_of_splitTag h
  rcases List.append_eq_append_iff.1 (ht ▸ append_of_splitTag h) with ⟨y, rfl, -⟩ | ⟨y, hy, -⟩
  · have hne : y ≠ [] := by
      rintro rfl
      rw [List.append_nil] at hlast
      exact hgt (List.mem_of_getLast? hlast)
    obtain ⟨body, hbody⟩ : ∃ body, y = body ++ ['>'] := by
      rw [List.getLast?_append_of_ne_nil _ hne] at hlast
      exact List.getLast?_eq_some_iff.1 hlast
    obtain ⟨w, hw, -, hcloses⟩ := exists_attributesOf body
    have hends : EndsTag (w ++ '>' :: rest) := endsTag_of_closesTag (by simp) (hcloses rest)
    refine ⟨w ++ ['>'], ?_, by simp, by simpa using hends⟩
    rw [List.drop_left, hbody, List.dropLast_concat, List.append_assoc, ← List.append_assoc _ w, ← hw]
  · exact absurd (hy ▸ List.mem_append_left _ (List.mem_of_getLast? hlast)) hgt

lemma additions_tag {place : Nat} {c : Char} {t tag rest : List Char} (h : c :: t = tag ++ rest)
    (hne : tag ≠ []) :
    additions opening extra (tag.length - 1) (place + c.utf8Size) t =
      additions opening extra 0 (place + width tag) rest := by
  obtain ⟨d, tag, rfl⟩ := List.exists_cons_of_ne_nil hne
  obtain ⟨rfl, ht⟩ := List.cons.inj h
  have ht : t = tag ++ rest := ht
  rw [additions_skip, List.length_cons, Nat.add_sub_cancel, ht, List.take_left, List.drop_left,
    width_cons, Nat.add_assoc]

/-- The search steps over a character, or ends, or finds a tag and goes on behind it. -/
lemma additions_cases (hgt : '>' ∉ opening) (place : Nat) (c : Char) (t : List Char) :
    additions opening extra 0 place (c :: t) = additions opening extra 0 (place + c.utf8Size) t ∨
    additions opening extra 0 place (c :: t) = [] ∨
    ∃ name attributes d w rest, name = opening ++ attributes ∧
      c :: t = name ++ d :: w ++ rest ∧ EndsTag (d :: (w ++ rest)) ∧
      additions opening extra 0 place (c :: t) =
        (extra attributes).toList.map (place + width name, ·) ++
          additions opening extra 0 (place + width (name ++ d :: w)) rest := by
  rw [additions]
  split
  · next hopen =>
    obtain ⟨u, hu⟩ : ∃ u, after? opening (c :: t) = some u := by
      cases ha : after? opening (c :: t) with
      | none => simp [ha] at hopen
      | some u => exact ⟨u, rfl⟩
    cases htag : splitTag none 0 (c :: t) with
    | none => exact .inr (.inl rfl)
    | some p =>
      obtain ⟨tag, rest⟩ := p
      obtain ⟨w, htagw, hw, hends⟩ := exists_tag hgt (after?_eq_some_iff.1 hu) htag
      obtain ⟨d, w, rfl⟩ := List.exists_cons_of_ne_nil hw
      have happ := append_of_splitTag htag
      dsimp only
      rw [additions_tag happ (by rw [htagw]; simp)]
      exact .inr (.inr ⟨_, _, d, w, rest, rfl, htagw ▸ happ, hends, by rw [← htagw]⟩)
  · exact .inl rfl

/-- A tag gets an attribute or none, and what follows it is amended as it is. -/
lemma exists_amends_tag {a name w rest : List Char} {d : Char} {found : Option (List Char)}
    {l : List (Nat × List Char)} {z : List Char} (hfound : ∀ e, found = some e → IsExtra e)
    (hends : EndsTag (d :: (w ++ rest)))
    (hno : ∀ e, found = some e → completes (a ++ name) d = false)
    (h : Amends (a ++ (name ++ d :: w)) rest l z) :
    ∃ z', Amends a (name ++ d :: w ++ rest) (found.toList.map (width (a ++ name), ·) ++ l) z' := by
  cases found with
  | none => exact ⟨_, h.keeps (name ++ d :: w)⟩
  | some e =>
    have hrest : Amends (a ++ name ++ [d]) (w ++ rest) l (w ++ z) := by
      refine .keeps w ?_
      simpa using h
    have hput := (Amends.put (hfound e rfl) hends (hno e rfl) hrest).keeps name
    rw [← List.cons_append, ← List.append_assoc] at hput
    exact ⟨_, hput⟩

/-- **The additions that are found** amend the text, if none of them completes a name. -/
theorem exists_amends (hgt : '>' ∉ opening) (hextra : ∀ s e, extra s = some e → IsExtra e)
    (a t : List Char)
    (hno : ∀ e ∈ additions opening extra 0 (width a) t, completesName (a ++ t) e.1 = false) :
    ∃ z, Amends a t (additions opening extra 0 (width a) t) z := by
  induction hn : t.length using Nat.strongRecOn generalizing a t with
  | ind n ih =>
    cases t with
    | nil => exact ⟨[], .nil a⟩
    | cons c t =>
      rcases additions_cases hgt (width a) c t with
        h | h | ⟨name, attributes, d, w, rest, -, ht, hends, h⟩
      · have hplace : width a + c.utf8Size = width (a ++ [c]) := by simp
        have happ : a ++ c :: t = a ++ [c] ++ t := List.append_cons a c t
        rw [h, hplace, happ] at hno
        rw [h, hplace]
        obtain ⟨z, hz⟩ := ih _ (by rw [← hn]; simp) (a ++ [c]) t hno rfl
        exact ⟨c :: z, .keep c hz⟩
      · rw [h]
        exact ⟨_, .kept a _⟩
      · rw [h, ht, ← width_append, ← width_append] at hno
        rw [h, ht, ← width_append, ← width_append]
        have hshort : rest.length < n := by
          rw [← hn, ht]
          simp only [List.length_append, List.length_cons]
          omega
        obtain ⟨z, hz⟩ := ih _ hshort (a ++ (name ++ d :: w)) rest (fun e he => by
          rw [List.append_assoc]
          exact hno e (List.mem_append_right _ he)) rfl
        have hcompletes : ∀ e, extra attributes = some e → completes (a ++ name) d = false := by
          intro e he
          have := hno (width (a ++ name), e) (by simp [he])
          rwa [List.append_assoc, List.cons_append, ← List.append_assoc a,
            completesName_append] at this
        generalize width (a ++ (name ++ d :: w)) = place at hz ⊢
        exact exists_amends_tag (hextra attributes) hends hcompletes hz

lemma withAdditions_eq {source z : List Char} {l : List (Nat × List Char)}
    (h : Amends [] source l z) : withAdditions source l = z := h.splice_eq

variable {source : List Char}

/-- The images of a source are amended. -/
lemma amends_images (h : ∀ e ∈ imageAdditions source, completesName source e.1 = false) :
    Amends [] source (imageAdditions source) (amendImages source) := by
  obtain ⟨z, hz⟩ : ∃ z, Amends [] source (imageAdditions source) z :=
    exists_amends (by decide) (fun _ _ => isExtra_image) [] source h
  rwa [amendImages, withAdditions_eq hz]

/-- The links of a source are amended. -/
lemma amends_links (h : ∀ e ∈ linkAdditions source, completesName source e.1 = false) :
    Amends [] source (linkAdditions source) (amendLinks source) := by
  obtain ⟨z, hz⟩ : ∃ z, Amends [] source (linkAdditions source) z :=
    exists_amends (by decide) (fun _ _ => isExtra_link) [] source h
  rwa [amendLinks, withAdditions_eq hz]

end Mender.Component
