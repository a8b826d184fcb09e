import Mender.Proofs.Component.TagEnds

/-!
The tags that the search for a name finds.

An attribute has no `<`, begins with a space and is put in where little is left of a tag, so no tag opens
in it and none is lost by it. The tags of a text and of the amended text are the same ones, with what
was put into each.
-/

namespace Mender.Component

open Mender.Text Mender.Markup Mender.Module

/-! ### Tags of a name -/

/-- A `<` and a name, none of whose signs ends a name or closes a tag. -/
structure IsOpening (opening : List Char) : Prop where
  head : opening.head? = some '<'
  solid : opening.any endsTagName = false

lemma isOpening_image : IsOpening "<img".toList := ⟨rfl, by decide⟩

lemma isOpening_link : IsOpening "<a".toList := ⟨rfl, by decide⟩

namespace IsOpening

variable {opening : List Char}

lemma notMem (h : IsOpening opening) {c : Char} (hc : endsTagName c = true) : c ∉ opening :=
  fun hmem => List.any_eq_false.1 h.solid c hmem hc

lemma exists_cons (h : IsOpening opening) : ∃ r, opening = '<' :: r :=
  List.head?_eq_some_iff.1 h.head

end IsOpening

/-- A tag of the name opens here. -/
def Opened (opening t : List Char) : Prop := ∃ c r, t = opening ++ c :: r ∧ endsTagName c = true

/-- What stands between the name of a tag and the rest of a text, with the closing `>`. -/
structure IsTag (opening body : List Char) : Prop where
  named : ∃ c r, body = c :: r ∧ endsTagName c = true
  ends : splitTag none 0 (opening ++ body) = some (opening ++ body, [])

variable {opening body t rest : List Char} {extra : List Char → Option (List Char)}

lemma opened_iff : ((after? opening t).bind List.head?).any endsTagName = true ↔ Opened opening t := by
  constructor
  · intro h
    obtain ⟨c, hc, hends⟩ := (Option.any_eq_true _ _).1 h
    obtain ⟨u, hu, hhead⟩ := Option.bind_eq_some_iff.1 hc
    obtain ⟨r, rfl⟩ := List.head?_eq_some_iff.1 hhead
    exact ⟨c, r, after?_eq_some_iff.1 hu, hends⟩
  · rintro ⟨c, r, rfl, hends⟩
    rw [after?_eq_some_iff.2 rfl]
    exact hends

lemma IsTag.opened (h : IsTag opening body) (rest : List Char) :
    Opened opening (opening ++ (body ++ rest)) := by
  obtain ⟨c, r, rfl, hc⟩ := h.named
  exact ⟨c, r ++ rest, rfl, hc⟩

lemma IsTag.splitTag (h : IsTag opening body) (rest : List Char) :
    splitTag none 0 (opening ++ (body ++ rest)) = some (opening ++ body, rest) := by
  have happ := splitTag_append h.ends rest
  rwa [List.append_assoc] at happ

/-- Where a tag opens and ends stands its body. -/
lemma exists_isTag (hop : IsOpening opening) (ho : Opened opening t) {tag : List Char}
    (hs : Markup.splitTag none 0 t = some (tag, rest)) :
    ∃ body, t = opening ++ (body ++ rest) ∧ tag = opening ++ body ∧ IsTag opening body := by
  obtain ⟨c, r, rfl, hc⟩ := ho
  have hself := splitTag_self hs
  have hlast := getLast?_of_splitTag hs
  have hgt : '>' ∉ opening := hop.notMem (by decide)
  rcases List.append_eq_append_iff.1 (append_of_splitTag hs) with ⟨body, rfl, hbody⟩ | ⟨y, hy, -⟩
  · cases body with
    | nil =>
      rw [List.append_nil] at hlast
      exact absurd (List.mem_of_getLast? hlast) hgt
    | cons d body =>
      obtain ⟨rfl, rfl⟩ := List.cons.inj hbody
      exact ⟨c :: body, rfl, rfl, ⟨c, body, rfl, hc⟩, hself⟩
  · exact absurd (hy ▸ List.mem_append_left y (List.mem_of_getLast? hlast)) hgt

/-- A body is what stands before the blanks and the slash at its end, and these with the `>`. -/
lemma IsTag.exists_attributes (h : IsTag opening body) :
    ∃ w, body = attributesOf body.dropLast ++ (w ++ ['>']) ∧
      (∀ c ∈ w ++ ['>'], endsTagName c = true) ∧ ∀ r, closesTag false (w ++ '>' :: r) = true := by
  have hlast := getLast?_of_splitTag h.ends
  obtain ⟨c, r, hbody, -⟩ := h.named
  have hne : body ≠ [] := hbody ▸ List.cons_ne_nil c r
  rw [List.getLast?_append_of_ne_nil _ hne] at hlast
  obtain ⟨b, rfl⟩ := List.getLast?_eq_some_iff.1 hlast
  obtain ⟨w, hw, hends, hcloses⟩ := exists_attributesOf b
  refine ⟨w, ?_, fun c hc => ?_, hcloses⟩
  · rw [List.dropLast_concat, ← List.append_assoc, ← hw]
  · rcases List.mem_append.1 hc with hc | hc
    · exact hends c hc
    · obtain rfl := List.mem_singleton.1 hc
      decide

/-! ### The search -/

/-- The bodies of the tags that are found in a text. A tag that is not closed ends the search. -/
inductive Finds (opening : List Char) : (t : List Char) → (found : List (List Char)) → Prop
  | nil : Finds opening [] []
  | char {c : Char} {t : List Char} {found : List (List Char)} (h : ¬ Opened opening (c :: t))
    (ht : Finds opening t found) : Finds opening (c :: t) found
  | unclosed {t : List Char} (h : Opened opening t) (hs : splitTag none 0 t = none) :
    Finds opening t []
  | tag {body rest : List Char} {found : List (List Char)} (h : IsTag opening body)
    (hr : Finds opening rest found) : Finds opening (opening ++ (body ++ rest)) (body :: found)

lemma exists_finds (hop : IsOpening opening) (t : List Char) : ∃ found, Finds opening t found := by
  induction hn : t.length using Nat.strongRecOn generalizing t with
  | ind n ih =>
    by_cases ho : Opened opening t
    · cases hs : Markup.splitTag none 0 t with
      | none => exact ⟨[], .unclosed ho hs⟩
      | some p =>
        obtain ⟨tag, rest⟩ := p
        obtain ⟨body, rfl, -, hbody⟩ := exists_isTag hop ho hs
        obtain ⟨c, r, hcons, -⟩ := hbody.named
        obtain ⟨found, hfound⟩ := ih rest.length (by rw [← hn, hcons]; simp; omega) rest rfl
        exact ⟨body :: found, .tag hbody hfound⟩
    · cases t with
      | nil => exact ⟨[], .nil⟩
      | cons c t =>
        obtain ⟨found, hfound⟩ := ih t.length (by rw [← hn]; simp) t rfl
        exact ⟨found, .char ho hfound⟩

lemma additions_char {c : Char} (h : ¬ Opened opening (c :: t)) (place : Nat) :
    additions opening extra 0 place (c :: t) = additions opening extra 0 (place + c.utf8Size) t := by
  rw [additions, if_neg (mt opened_iff.1 h)]

lemma additions_unclosed (h : Opened opening t) (hs : Markup.splitTag none 0 t = none) (place : Nat) :
    additions opening extra 0 place t = [] := by
  cases t with
  | nil => rfl
  | cons c t => rw [additions, if_pos (opened_iff.2 h), hs]

lemma additions_isTag (hop : IsOpening opening) (h : IsTag opening body) (place : Nat) (rest : List Char) :
    additions opening extra 0 place (opening ++ (body ++ rest)) =
      (extra (attributesOf body.dropLast)).toList.map
          (place + width (opening ++ attributesOf body.dropLast), ·) ++
        additions opening extra 0 (place + width (opening ++ body)) rest := by
  have hopened := opened_iff.2 (h.opened rest)
  have hsplit := h.splitTag rest
  obtain ⟨r, hr⟩ := hop.exists_cons
  have hcons : opening ++ (body ++ rest) = '<' :: (r ++ (body ++ rest)) := by rw [hr]; rfl
  have hne : opening ++ body ≠ [] := by rw [hr]; exact List.cons_ne_nil _ _
  rw [hcons] at hopened hsplit ⊢
  rw [additions, if_pos hopened, hsplit]
  dsimp only
  rw [additions_tag (append_of_splitTag hsplit) hne, List.drop_left]

lemma Finds.additions_eq_nil_iff (hop : IsOpening opening) {found : List (List Char)}
    (h : Finds opening t found) (place : Nat) :
    additions opening extra 0 place t = [] ↔
      ∀ body ∈ found, extra (attributesOf body.dropLast) = none := by
  induction h generalizing place with
  | nil => exact iff_of_true rfl (List.forall_mem_nil _)
  | char h _ ih => rw [additions_char h, ih]
  | unclosed h hs => exact iff_of_true (additions_unclosed h hs place) (List.forall_mem_nil _)
  | tag h _ ih =>
    rw [additions_isTag hop h, List.append_eq_nil_iff, ih, List.map_eq_nil_iff,
      Option.toList_eq_nil_iff, List.forall_mem_cons]

/-! ### Additions -/

/-- The attributes that are added. -/
inductive IsAddition : List Char → Prop
  | text : IsAddition " alt=\"\"".toList
  | relation : IsAddition " rel=\"noopener noreferrer\"".toList

namespace IsAddition

variable {e : List Char}

lemma of_image (attributes e : List Char) (h : imageExtra attributes = some e) : IsAddition e := by
  unfold imageExtra at h
  split at h
  · cases h
  · exact Option.some.inj h ▸ .text

lemma of_link (attributes e : List Char) (h : linkExtra attributes = some e) : IsAddition e := by
  unfold linkExtra at h
  split at h
  · exact Option.some.inj h ▸ .relation
  · cases h

lemma isExtra (h : IsAddition e) : IsExtra e := by
  cases h with
  | text => exact isExtra_image (by decide : imageExtra [] = some _)
  | relation => exact isExtra_link (by decide : linkExtra " target='_blank'".toList = some _)

lemma exists_cons (h : IsAddition e) : ∃ r, e = ' ' :: r := by
  cases h <;> exact ⟨_, rfl⟩

lemma exists_concat (h : IsAddition e) : ∃ r, e = r ++ ['"'] := by
  cases h with
  | text => exact ⟨" alt=\"".toList, by decide⟩
  | relation => exact ⟨" rel=\"noopener noreferrer".toList, by decide⟩

/-- The name begins behind the space. -/
lemma exists_name (h : IsAddition e) : ∃ c r, e = ' ' :: c :: r ∧ (c = 'a' ∨ c = 'r') := by
  cases h with
  | text => exact ⟨_, _, rfl, .inl rfl⟩
  | relation => exact ⟨_, _, rfl, .inr rfl⟩

end IsAddition

lemma endsTagName_of_closesTag {slash : Bool} {c : Char} {r : List Char}
    (h : closesTag slash (c :: r) = true) : endsTagName c = true := by
  rw [closesTag] at h
  unfold endsTagName
  split at h
  · next hc => rw [hc]; rfl
  · rcases Bool.or_eq_true_iff.1 h with h | h
    · rw [h, Bool.or_true, Bool.true_or]
    · rw [(Bool.and_eq_true_iff.1 (Bool.and_eq_true_iff.1 h).1).1, Bool.or_true]

lemma closesTag_of_append {slash : Bool} {x y : List Char} (h : closesTag slash (x ++ y) = true) :
    closesTag slash x = true := by
  induction x generalizing slash with
  | nil => rfl
  | cons c x ih =>
    rw [List.cons_append, closesTag] at h
    rw [closesTag]
    split at h
    · next hc => rw [if_pos hc, ih h]
    · next hc =>
      rw [if_neg hc]
      simp only [Bool.or_eq_true, Bool.and_eq_true] at h ⊢
      exact h.imp_right fun h => ⟨h.1, ih h.2⟩

/-- The second text is the first one with attributes added at the ends of tags. -/
abbrev Widened : List Char → List Char → Prop :=
  Interspersed IsAddition fun t => closesTag false t = true

namespace Widened

variable {x y z : List Char}

lemma split (h : Widened (x ++ y) z) : ∃ z₁ z₂, z = z₁ ++ z₂ ∧ Widened x z₁ ∧ Widened y z₂ :=
  Interspersed.split (fun c _ y h => closesTag_of_append (x := c :: _) (y := y) h) h

/-- Nothing is put into a name. -/
lemma name {m : List Char} (hm : m.any endsTagName = false) (h : Widened (m ++ x) z) :
    ∃ y, z = m ++ y ∧ Widened x y := by
  refine Interspersed.append h fun u v hv hne hcloses => ?_
  obtain ⟨c, v, rfl⟩ := List.exists_cons_of_ne_nil hne
  exact List.any_eq_false.1 hm c (hv ▸ by simp) (endsTagName_of_closesTag hcloses)

/-- A name does not come about. -/
lemma of_name {m : List Char} (hm : m.any endsTagName = false) (h : Widened x (m ++ z)) :
    ∃ y, x = m ++ y ∧ Widened y z := by
  induction m generalizing x with
  | nil => exact ⟨x, rfl, h⟩
  | cons c m ih =>
    rw [List.any_cons, Bool.or_eq_false_iff] at hm
    generalize hy : c :: m ++ z = y at h
    cases h with
    | nil => cases hy
    | keep d h =>
      obtain ⟨rfl, rfl⟩ := List.cons.inj hy
      obtain ⟨y, rfl, hy⟩ := ih hm.2 h
      exact ⟨y, rfl, hy⟩
    | put he =>
      obtain ⟨r, rfl⟩ := he.exists_cons
      obtain ⟨rfl, -⟩ := List.cons.inj hy
      exact absurd hm.1 (by decide)

/-- A text and the widened one begin with a sign that ends a name, or neither does. -/
lemma opened_iff (hop : IsOpening opening) (h : Widened x y) : Opened opening y ↔ Opened opening x := by
  constructor
  · rintro ⟨c, r, rfl, hc⟩
    obtain ⟨x, rfl, hx⟩ := h.of_name hop.solid
    generalize hy : c :: r = y at hx
    cases hx with
    | nil => cases hy
    | keep d hx =>
      obtain ⟨rfl, -⟩ := List.cons.inj hy
      exact ⟨c, _, rfl, hc⟩
    | put he hat hx => exact ⟨_, _, rfl, endsTagName_of_closesTag hat⟩
  · rintro ⟨c, r, rfl, hc⟩
    obtain ⟨y, rfl, hy⟩ := name hop.solid h
    cases hy with
    | keep d hy => exact ⟨c, _, rfl, hc⟩
    | put he hat hy =>
      obtain ⟨r, rfl⟩ := he.exists_cons
      exact ⟨' ', _, rfl, by decide⟩

lemma splitTag_none (h : Widened x y) (hx : Markup.splitTag none 0 x = none) :
    Markup.splitTag none 0 y = none :=
  Interspersed.splitTag_none (fun _ => IsAddition.isExtra) h quoted_none hx

lemma isTag (h : Widened x y) (hx : IsTag opening x) : IsTag opening y where
  named := by
    obtain ⟨c, r, rfl, hc⟩ := hx.named
    cases h with
    | keep d h => exact ⟨c, _, rfl, hc⟩
    | put he hat h =>
      obtain ⟨r, rfl⟩ := he.exists_cons
      exact ⟨' ', _, rfl, by decide⟩
  ends := Interspersed.splitTag_self (fun _ => IsAddition.isExtra) (h.keeps opening) quoted_none hx.ends

end Widened

/-- Nothing opens in an attribute. -/
lemma finds_append (hop : IsOpening opening) {e : List Char} (he : '<' ∉ e) {found : List (List Char)}
    (h : Finds opening t found) : Finds opening (e ++ t) found := by
  induction e with
  | nil => exact h
  | cons c e ih =>
    obtain ⟨hc, he⟩ := not_or.1 (mt List.mem_cons.2 he)
    refine .char ?_ (ih he)
    rintro ⟨d, r, hr, -⟩
    obtain ⟨m, rfl⟩ := hop.exists_cons
    exact hc (List.cons.inj hr).1.symm

/-- **The tags of a widened text** are those of the text, widened one by one. -/
theorem Finds.widened (hop : IsOpening opening) {found : List (List Char)} (h : Finds opening t found)
    {u : List Char} (hu : Widened t u) :
    ∃ found', Finds opening u found' ∧ List.Forall₂ Widened found found' := by
  induction h generalizing u with
  | nil => exact ⟨[], hu.eq_nil ▸ .nil, .nil⟩
  | char h _ ih =>
    have hnot := mt (hu.opened_iff hop).1 h
    cases hu with
    | keep c hu =>
      obtain ⟨found', hfound, hall⟩ := ih hu
      exact ⟨found', .char hnot hfound, hall⟩
    | put he hat hu =>
      obtain ⟨found', hfound, hall⟩ := ih hu
      have hchar := mt (Widened.opened_iff hop (.keep _ hu)).1 h
      exact ⟨found', finds_append hop he.isExtra.notMem (.char hchar hfound), hall⟩
  | unclosed h hs => exact ⟨[], .unclosed ((hu.opened_iff hop).2 h) (hu.splitTag_none hs), .nil⟩
  | tag h _ ih =>
    obtain ⟨z, rfl, hz⟩ := Widened.name hop.solid hu
    obtain ⟨body', rest', rfl, hbody, hrest⟩ := Widened.split hz
    obtain ⟨found', hfound, hall⟩ := ih hrest
    exact ⟨body' :: found', .tag (hbody.isTag h) hfound, .cons hbody hall⟩

/-! ### One pass -/

/-- A body with what is added to its tag. -/
def amendedBody (extra : List Char → Option (List Char)) (body : List Char) : List Char :=
  let attributes := attributesOf body.dropLast
  attributes ++ ((extra attributes).getD [] ++ body.drop attributes.length)

lemma amendedBody_eq {w : List Char} (h : body = attributesOf body.dropLast ++ w) :
    amendedBody extra body =
      attributesOf body.dropLast ++ ((extra (attributesOf body.dropLast)).getD [] ++ w) := by
  unfold amendedBody
  dsimp only
  generalize attributesOf body.dropLast = attributes at h ⊢
  rw [h, List.drop_left]

lemma IsTag.widened_append (hextra : ∀ s e, extra s = some e → IsAddition e) (h : IsTag opening body)
    {rest' : List Char} (hrest : Widened rest rest') :
    Widened (body ++ rest) (amendedBody extra body ++ rest') := by
  obtain ⟨w, hw, -, hcloses⟩ := h.exists_attributes
  rw [amendedBody_eq hw]
  generalize attributesOf body.dropLast = attributes at hw ⊢
  rw [hw, List.append_assoc, List.append_assoc, List.append_assoc]
  refine Interspersed.keeps attributes ?_
  cases he : extra attributes with
  | none => simpa using Interspersed.keeps (w ++ ['>']) hrest
  | some e =>
    have hadd := hextra _ _ he
    have hat := hcloses rest
    cases w with
    | nil => simpa using Interspersed.put hadd hat hrest
    | cons c w =>
      have hput : Widened (c :: (w ++ '>' :: rest)) (e ++ c :: (w ++ '>' :: rest')) :=
        .put hadd hat (.keeps w (.keep '>' hrest))
      simpa using hput

lemma IsTag.widened (hextra : ∀ s e, extra s = some e → IsAddition e) (h : IsTag opening body) :
    Widened body (amendedBody extra body) := by
  simpa using h.widened_append hextra .nil

/-- The pieces that a tag with its addition is made of. -/
def tagPieces (opening : List Char) (extra : List Char → Option (List Char)) (body : List Char) :
    List Module.Piece :=
  let attributes := attributesOf body.dropLast
  .kept (opening ++ attributes) :: ((extra attributes).toList.map .added ++
    [.kept (body.drop attributes.length)])

lemma IsTag.oldText_tagPieces (h : IsTag opening body) :
    oldText (tagPieces opening extra body) = opening ++ body := by
  obtain ⟨w, hw, -, -⟩ := h.exists_attributes
  unfold tagPieces
  dsimp only
  generalize attributesOf body.dropLast = attributes at hw ⊢
  rw [hw, List.drop_left]
  cases extra attributes <;> simp [oldText, Piece.old]

lemma newText_tagPieces : newText (tagPieces opening extra body) = opening ++ amendedBody extra body := by
  unfold tagPieces amendedBody
  dsimp only
  cases extra (attributesOf body.dropLast) <;> simp [newText, Piece.new]

lemma edits_tagPieces (place : Nat) : edits place (tagPieces opening extra body) =
    (extra (attributesOf body.dropLast)).toList.map fun e =>
      (⟨place + width (opening ++ attributesOf body.dropLast),
        place + width (opening ++ attributesOf body.dropLast)⟩, e) := by
  unfold tagPieces
  dsimp only
  cases extra (attributesOf body.dropLast) <;> simp [edits, Piece.old, Piece.new]

/-- **What a pass does** to a text: it is cut in pieces, and each tag that is found gets what is added. -/
theorem Finds.exists_pieces (hop : IsOpening opening) (hextra : ∀ s e, extra s = some e → IsAddition e)
    {found : List (List Char)} (h : Finds opening t found) (place : Nat) :
    ∃ ps, oldText ps = t ∧ edits place ps = Amends.insertions (additions opening extra 0 place t) ∧
      Widened t (newText ps) ∧ Finds opening (newText ps) (found.map (amendedBody extra)) := by
  induction h generalizing place with
  | nil => exact ⟨[], rfl, rfl, .nil, .nil⟩
  | @char c t found h _ ih =>
    obtain ⟨ps, hold, hedits, hwidened, hfinds⟩ := ih (place + c.utf8Size)
    have hkept : Widened (c :: t) (c :: newText ps) := .keep c hwidened
    refine ⟨.kept [c] :: ps, congrArg (c :: ·) hold, ?_, hkept,
      .char (mt (hkept.opened_iff hop).1 h) hfinds⟩
    rw [edits, additions_char h]
    exact hedits
  | @unclosed t h hs =>
    have hnew : newText [.kept t] = t := List.append_nil t
    refine ⟨[.kept t], List.append_nil t, ?_, hnew.symm ▸ Interspersed.refl t, hnew.symm ▸ .unclosed h hs⟩
    rw [additions_unclosed h hs]
    rfl
  | @tag body rest found h _ ih =>
    obtain ⟨ps, hold, hedits, hwidened, hfinds⟩ := ih (place + width (opening ++ body))
    refine ⟨tagPieces opening extra body ++ ps, ?_, ?_, ?_, ?_⟩
    · rw [oldText_append, h.oldText_tagPieces, hold, List.append_assoc]
    · rw [edits_append, h.oldText_tagPieces, edits_tagPieces, hedits, additions_isTag hop h]
      simp [Amends.insertions]
    · rw [newText_append, newText_tagPieces, List.append_assoc]
      exact .keeps opening (h.widened_append hextra hwidened)
    · rw [newText_append, newText_tagPieces, List.append_assoc]
      exact .tag ((h.widened hextra).isTag h) hfinds

end Mender.Component
