import Mender.Proofs.Markup.Layout

/-!
The scripts and the component tags of a row of blocks.

The text of a script is the content of its block, and the component tags stand in the gaps, so a
changed content changes neither the tags nor the other scripts.
-/

namespace Mender.Markup

open Mender.Text

variable {bs : List Block} {t : List Char}

/-! ### Places -/

lemma width_text (b : Block) :
    width b.text = width b.gap + width b.tag + width b.content + width b.close := by
  simp only [Block.text, Block.element, width_append]
  omega

lemma toElement_stop (place : Nat) (b : Block) :
    (b.toElement place).stop = place + width b.text := by
  simp only [width_text, Block.toElement, Nat.add_assoc]

lemma places_append (place : Nat) (as bs : List Block) :
    places place (as ++ bs) = places place as ++ places (place + width (textOf as [])) bs := by
  induction as generalizing place with
  | nil => simp [places]
  | cons a as ih =>
    rw [List.cons_append, places, places, ih, toElement_stop, List.cons_append, textOf_cons, width_text]
    simp only [width_append, Nat.add_assoc]

/-- The content of a block in a text that starts with some other one. -/
lemma content_of_block (a : List Char) (b : Block) (rest : List Char) :
    (b.toElement (width a)).content.of (a ++ (b.text ++ rest)) = b.content := by
  have h := slice_between (a ++ b.gap ++ b.tag) b.content (b.close ++ rest)
  simp only [width_append] at h
  simpa [Span.of, Block.toElement, Block.text, Block.element] using h

/-! ### Scripts -/

/-- The texts of the scripts of some blocks with their places. -/
def scriptTexts : (place : Nat) → List Block → List (Nat × List Char)
  | _, [] => []
  | place, b :: bs =>
    (if b.kind = .script then [(place + width b.gap + width b.tag, b.content)] else []) ++
      scriptTexts (place + width b.text) bs

lemma textOf_eq (b : Block) (bs : List Block) (t : List Char) :
    textOf (b :: bs) t = b.text ++ textOf bs t := by
  simp [textOf]

lemma scriptTexts_places (a : List Char) (bs : List Block) (t : List Char) :
    ((places (width a) bs).filter (·.kind == .script)).map
      (fun e => (e.content.first, e.content.of (a ++ textOf bs t))) = scriptTexts (width a) bs := by
  induction bs generalizing a with
  | nil => rfl
  | cons b bs ih =>
    have hrest := ih (a ++ b.text)
    rw [List.append_assoc, ← textOf_eq, width_append] at hrest
    have hcontent := content_of_block a b (textOf bs t)
    rw [← textOf_eq] at hcontent
    have hkind : (b.toElement (width a)).kind = b.kind := rfl
    rw [places, toElement_stop, scriptTexts, ← hrest]
    cases hk : b.kind with
    | script =>
      rw [List.filter_cons_of_pos (by simp [hkind, hk]), List.map_cons, hcontent]
      rfl
    | style =>
      rw [List.filter_cons_of_neg (by simp [hkind, hk])]
      rfl

/-- **The scripts of a source** are the contents of its script blocks. -/
theorem LaidOut.scripts_eq (h : LaidOut bs t) :
    (scripts (textOf bs t)).map (fun e => (e.content.first, e.content.of (textOf bs t))) =
      scriptTexts 0 bs := by
  rw [scripts, h.elements_eq]
  exact scriptTexts_places [] bs t

lemma instanceScript_places (h : LaidOut bs t) :
    instanceScript? (textOf bs t) = ((places 0 bs).filter (·.kind == .script)).find? (!·.isModule) := by
  rw [instanceScript?, scripts, h.elements_eq]

lemma find_places_eq_none {place : Nat} (hno : ∀ b ∈ bs, b.isInstance = false) :
    ((places place bs).filter (·.kind == .script)).find? (!·.isModule) = none := by
  induction bs generalizing place with
  | nil => rfl
  | cons b bs ih =>
    obtain ⟨hb, hbs⟩ := List.forall_mem_cons.1 hno
    rw [places, List.filter_cons]
    split
    · next hk =>
      have hb' : (!(b.toElement place).isModule) = false := (Bool.and_eq_false_imp.1 hb) hk
      rw [List.find?_cons, hb']
      exact ih hbs
    · exact ih hbs

/-- Without an instance script there is none to be found. -/
lemma LaidOut.instanceScript_eq_none (h : LaidOut bs t) (hno : ∀ b ∈ bs, b.isInstance = false) :
    instanceScript? (textOf bs t) = none := by
  rw [instanceScript_places h, find_places_eq_none hno]

/-- The instance script is the first one that is no module script. -/
lemma LaidOut.instanceScript_eq {as cs : List Block} {b : Block} (h : LaidOut (as ++ b :: cs) t)
    (hno : ∀ a ∈ as, a.isInstance = false) (hb : b.isInstance = true) :
    instanceScript? (textOf (as ++ b :: cs) t) = some (b.toElement (width (textOf as []))) := by
  obtain ⟨hkind, hmodule⟩ := Bool.and_eq_true_iff.1 hb
  generalize hplace : width (textOf as []) = place
  have hkind' : ((b.toElement place).kind == .script) = true := hkind
  have hmodule' : (!(b.toElement place).isModule) = true := hmodule
  rw [instanceScript_places h, places_append, List.filter_append, List.find?_append,
    find_places_eq_none hno, Option.none_or, Nat.zero_add, hplace, places,
    List.filter_cons, if_pos hkind', List.find?_cons, hmodule']

/-! ### Component tags -/

/-- The names of the tags in some pieces. -/
def namesOf (ps : List Piece) : List String := ps.flatMap fun p => (tagsFrom p.place p.text).map (·.name)

/-- The names of the component tags in a gap. -/
def tagNames (gap : List Char) : List String := namesOf (outsideComments 0 0 [] gap)

lemma map_name_tagsFrom (p q : Nat) (t : List Char) :
    (tagsFrom p t).map (·.name) = (tagsFrom q t).map (·.name) := by
  induction t generalizing p q with
  | nil => rfl
  | cons c t ih =>
    simp only [tagsFrom]
    split
    · rw [List.map_cons, List.map_cons, ih _ (q + c.utf8Size)]
    · exact ih _ _

/-- Names depend on the texts of the pieces only. -/
lemma namesOf_eq (ps : List Piece) :
    namesOf ps = (ps.map (·.text)).flatMap fun t => (tagsFrom 0 t).map (·.name) := by
  rw [List.flatMap_map, namesOf]
  exact congrArg List.flatten (List.map_congr_left fun p _ => map_name_tagsFrom p.place 0 p.text)

/-- A scan gives the same texts wherever it starts. -/
lemma map_text_outsideComments (n p q : Nat) (piece t : List Char) :
    (outsideComments n p piece t).map (·.text) = (outsideComments n q piece t).map (·.text) := by
  induction t generalizing n p q piece with
  | nil => cases n <;> rfl
  | cons c t ih =>
    cases n with
    | zero =>
      simp only [outsideComments]
      split
      · rw [List.map_cons, List.map_cons, ih _ _ (q + c.utf8Size)]
        rfl
      · exact ih _ _ _ _
    | succ n => exact ih _ _ _ _

lemma namesOf_outsideComments (p : Nat) (t : List Char) :
    namesOf (outsideComments 0 p [] t) = tagNames t := by
  rw [tagNames, namesOf_eq, namesOf_eq, map_text_outsideComments 0 p 0]

/-- A gap with the place where it starts, for each block and for the tail. -/
def gapsOf : (place : Nat) → List Block → (tail : List Char) → List Piece
  | p, [], t => [⟨p, t⟩]
  | p, b :: bs, t => ⟨p, b.gap⟩ :: gapsOf (p + width b.text) bs t

lemma gaps_eq (a : List Char) (bs : List Block) (t : List Char) :
    gaps (a ++ textOf bs t) (width a) (places (width a) bs) = gapsOf (width a) bs t := by
  induction bs generalizing a with
  | nil => simp [places, gaps, gapsOf, dropWidth_width]
  | cons b bs ih =>
    have hrest := ih (a ++ b.text)
    rw [List.append_assoc, ← textOf_eq, width_append] at hrest
    have hgap : slice (width a) (b.toElement (width a)).openTag.first (a ++ textOf (b :: bs) t) = b.gap := by
      rw [textOf_cons]
      exact slice_between _ _ _
    rw [places, gaps, hgap, toElement_stop, hrest, gapsOf]

lemma gaps_places (a : List Char) (bs : List Block) (t : List Char) :
    (gaps (a ++ textOf bs t) (width a) (places (width a) bs)).map (·.text) =
      bs.map (·.gap) ++ [t] := by
  rw [gaps_eq]
  generalize width a = p
  induction bs generalizing p with
  | nil => rfl
  | cons b bs ih => exact congrArg (b.gap :: ·) (ih _)

/-- **The component tags of a source** are those of the gaps between its blocks. -/
theorem LaidOut.names_componentTags (h : LaidOut bs t) :
    (componentTags (textOf bs t)).map (·.name) = (bs.map (·.gap) ++ [t]).flatMap tagNames := by
  have hfilter (ps : List Piece) : namesOf (ps.filter fun p => !p.text.isEmpty) = namesOf ps := by
    induction ps with
    | nil => rfl
    | cons p ps ih =>
      rw [List.filter_cons]
      split
      · rw [namesOf, List.flatMap_cons, ← namesOf, ih]
        rfl
      · next hp =>
        have hnil : p.text = [] := by simpa using hp
        rw [ih, namesOf, namesOf, List.flatMap_cons, hnil]
        rfl
  have hflat (ps : List Piece) (f : Piece → List Piece) :
      namesOf (ps.flatMap f) = ps.flatMap fun p => namesOf (f p) := List.flatMap_assoc
  have hgaps := gaps_places [] bs t
  rw [componentTags, List.map_flatMap, ← namesOf, markupPieces, hfilter, hflat, h.elements_eq,
    ← hgaps, List.flatMap_map]
  exact congrArg List.flatten (List.map_congr_left fun p _ => namesOf_outsideComments p.place p.text)

/-- A line end in front adds no tags. -/
lemma tagNames_newline (t : List Char) : tagNames ('\n' :: t) = tagNames t := by
  have hend (p q : Nat) (piece : List Char) (ps : List Piece) :
      namesOf (endPiece p (piece ++ ['\n']) :: ps) = namesOf (endPiece q piece :: ps) := by
    have hpiece : (piece ++ ['\n']).reverse = '\n' :: piece.reverse := by simp
    simp only [namesOf_eq, List.map_cons, List.flatMap_cons, endPiece, hpiece]
    rw [tagsFrom, if_neg (by simp), map_name_tagsFrom _ 0]
  have h (t : List Char) (n p : Nat) (piece : List Char) :
      namesOf (outsideComments n p (piece ++ ['\n']) t) = namesOf (outsideComments n p piece t) := by
    induction t generalizing n p piece with
    | nil => cases n <;> exact hend p p piece []
    | cons c t ih =>
      cases n with
      | zero =>
        simp only [outsideComments]
        split
        · exact hend p p piece _
        · exact ih 0 _ (c :: piece)
      | succ n => exact ih n _ piece
  have hopen : startsWith commentOpen ('\n' :: t) = false := rfl
  rw [tagNames, outsideComments, hopen]
  exact (h t 0 _ []).trans (namesOf_outsideComments _ t)

end Mender.Markup
