import Mender.Proofs.Markup.Parts
import Mender.Proofs.Markup.Stretches

/-!
What stands behind a text.

The scans for elements and for tags carry the place along and look at the characters only, so a scan that
starts at a later place finds the same, that much later. What is found behind a text depends on it only by
what it leaves open: an element that opens in a text that is shut is closed in it, and an element can be
found directly behind a text only if that is shut.
-/

namespace Mender.Markup

open Mender.Text

def Span.moved (n : Nat) (s : Span) : Span := ⟨n + s.first, n + s.last⟩

def Element.moved (n : Nat) (e : Element) : Element :=
  { e with openTag := e.openTag.moved n, content := e.content.moved n, stop := n + e.stop }

def Piece.moved (n : Nat) (p : Piece) : Piece := { p with place := n + p.place }

def ComponentTag.moved (n : Nat) (t : ComponentTag) : ComponentTag := { t with place := n + t.place }

/-! ### Elements -/

lemma elementsFrom_moved (n k place : Nat) (t : List Char) :
    elementsFrom k (n + place) t = (elementsFrom k place t).map (Element.moved n) := by
  induction t generalizing k place with
  | nil => cases k <;> rfl
  | cons c t ih =>
    cases k with
    | succ k => rw [elementsFrom, elementsFrom, Nat.add_assoc, ih]
    | zero =>
      rw [elementsFrom, elementsFrom, Nat.add_assoc]
      cases opens? (c :: t) with
      | none => exact ih 0 _
      | some kind =>
        cases hs : splitElement? kind (c :: t) with
        | none => simp only [hs, List.map_nil]
        | some parts =>
          simp only [hs, List.map_cons, ih]
          simp only [Element.moved, Span.moved, Nat.add_assoc]

lemma filter_map_moved (n : Nat) (es : List Element) :
    (es.map (Element.moved n)).filter (·.kind == .script) =
      (es.filter (·.kind == .script)).map (Element.moved n) := List.filter_map

/-! ### Component tags -/

/-- The component tags in some pieces. -/
def tagsIn (ps : List Piece) : List ComponentTag := ps.flatMap fun p => tagsFrom p.place p.text

/-- The component tags in a gap. -/
def gapTags (place : Nat) (t : List Char) : List ComponentTag := tagsIn (outsideComments 0 place [] t)

/-- The component tags in the gaps of a row of blocks. -/
def rowTags (place : Nat) (bs : List Block) (tail : List Char) : List ComponentTag :=
  (gapsOf place bs tail).flatMap fun g => gapTags g.place g.text

variable {bs : List Block} {tail : List Char}

@[simp] lemma tagsIn_nil : tagsIn [] = [] := rfl

@[simp] lemma tagsIn_cons (p : Piece) (ps : List Piece) :
    tagsIn (p :: ps) = tagsFrom p.place p.text ++ tagsIn ps := rfl

lemma tagsIn_filled (ps : List Piece) : tagsIn (filled ps) = tagsIn ps := by
  induction ps with
  | nil => rfl
  | cons p ps ih =>
    rw [filled, List.filter_cons]
    split
    · rw [tagsIn_cons, tagsIn_cons, ← filled, ih]
    · next hp =>
      have hnil : p.text = [] := by simpa using hp
      rw [← filled, ih, tagsIn_cons, hnil]
      rfl

lemma rowTags_nil (place : Nat) (tail : List Char) : rowTags place [] tail = gapTags place tail := by
  simp [rowTags, gapsOf]

lemma rowTags_cons (place : Nat) (b : Block) (bs : List Block) (tail : List Char) :
    rowTags place (b :: bs) tail =
      gapTags place b.gap ++ rowTags (place + width b.text) bs tail := rfl

lemma LaidOut.componentTags_eq (h : LaidOut bs tail) :
    componentTags (textOf bs tail) = rowTags 0 bs tail := by
  have hgaps := gaps_eq [] bs tail
  have hpieces : markupPieces (textOf bs tail) =
      filled ((gapsOf 0 bs tail).flatMap fun g => outsideComments 0 g.place [] g.text) := by
    rw [markupPieces, h.elements_eq]
    exact congrArg (fun gs : List Piece => filled (gs.flatMap _)) hgaps
  have htags : componentTags (textOf bs tail) = tagsIn (markupPieces (textOf bs tail)) := rfl
  rw [htags, hpieces, tagsIn_filled]
  exact List.flatMap_assoc

lemma tagsFrom_moved (n place : Nat) (t : List Char) :
    tagsFrom (n + place) t = (tagsFrom place t).map (.moved n) := by
  induction t generalizing place with
  | nil => rfl
  | cons c t ih =>
    rw [tagsFrom, tagsFrom, Nat.add_assoc, ih]
    split <;> rfl

/-- A piece lies behind the place where the scan began, so its own place is moved too. -/
lemma outsideComments_moved (n k place : Nat) {piece : List Char} (h : width piece ≤ place)
    (t : List Char) :
    outsideComments k (n + place) piece t = (outsideComments k place piece t).map (.moved n) := by
  have hend {place : Nat} {piece : List Char} (h : width piece ≤ place) :
      endPiece (n + place) piece = (endPiece place piece).moved n := by
    rw [endPiece, endPiece, Piece.moved, Nat.add_sub_assoc h]
  induction t generalizing k place piece with
  | nil => cases k <;> exact congrArg (fun p => [p]) (hend h)
  | cons c t ih =>
    cases k with
    | succ k =>
      rw [outsideComments, outsideComments, Nat.add_assoc]
      exact ih k _ (h.trans (Nat.le_add_right _ _))
    | zero =>
      rw [outsideComments, outsideComments, Nat.add_assoc]
      split
      · rw [List.map_cons, hend h, ih _ _ (Nat.zero_le _)]
      · refine ih 0 _ ?_
        rw [width_cons]
        omega

lemma tagsIn_moved (n : Nat) (ps : List Piece) :
    tagsIn (ps.map (.moved n)) = (tagsIn ps).map (.moved n) := by
  rw [tagsIn, tagsIn, List.flatMap_map, List.map_flatMap]
  exact congrArg List.flatten (List.map_congr_left fun p _ => tagsFrom_moved n p.place p.text)

lemma gapTags_moved (n place : Nat) (t : List Char) :
    gapTags (n + place) t = (gapTags place t).map (.moved n) := by
  rw [gapTags, outsideComments_moved n 0 place (Nat.zero_le _), tagsIn_moved, gapTags]

lemma rowTags_moved (n place : Nat) (bs : List Block) (tail : List Char) :
    rowTags (n + place) bs tail = (rowTags place bs tail).map (.moved n) := by
  induction bs generalizing place with
  | nil => rw [rowTags_nil, rowTags_nil, gapTags_moved]
  | cons b bs ih =>
    rw [rowTags_cons, rowTags_cons, gapTags_moved, Nat.add_assoc, ih, List.map_append]

lemma rowTags_append (place : Nat) (as bs : List Block) (t : List Char) :
    rowTags place (as ++ bs) t =
      rowTags place as [] ++ rowTags (place + width (textOf as [])) bs t := by
  induction as generalizing place with
  | nil =>
    have hnil : gapTags place [] = [] := rfl
    rw [List.nil_append, rowTags_nil, hnil, List.nil_append, textOf_nil, width_nil, Nat.add_zero]
  | cons a as ih =>
    rw [List.cons_append, rowTags_cons, ih, rowTags_cons, textOf_eq, width_append, Nat.add_assoc,
      List.append_assoc]

/-! ### A row with a text in front -/

/-- The first gap of a row, which is the tail if there are no blocks. -/
def firstGap : List Block → (tail : List Char) → List Char
  | [], t => t
  | b :: _, _ => b.gap

/-- The tags behind the first gap of a row; `place` is where that gap ends. -/
def laterTags : (place : Nat) → List Block → (tail : List Char) → List ComponentTag
  | _, [], _ => []
  | place, b :: bs, t => rowTags (place + width b.element) bs t

variable {a t : List Char}

lemma rowTags_behind (a : List Char) (place : Nat) (bs : List Block) (t : List Char) :
    rowTags place (behind a bs t).1 (behind a bs t).2 =
      gapTags place (a ++ firstGap bs t) ++ laterTags (place + width (a ++ firstGap bs t)) bs t := by
  cases bs with
  | nil => rw [behind, rowTags_nil, firstGap, laterTags, List.append_nil]
  | cons b bs =>
    have hwidth : width (Block.text { b with gap := a ++ b.gap }) =
        width (a ++ b.gap) + width b.element := width_append _ _
    rw [behind, rowTags_cons, hwidth, ← Nat.add_assoc]
    rfl

lemma rowTags_eq (place : Nat) (bs : List Block) (t : List Char) :
    rowTags place bs t = gapTags place (firstGap bs t) ++ laterTags (place + width (firstGap bs t)) bs t := by
  have h := rowTags_behind [] place bs t
  cases bs <;> exact h

/-- The tags of a source with a text in front of which nothing is completed. -/
lemma LaidOut.componentTags_behind (h : LaidOut bs t) (ha : Passes a (textOf bs t)) :
    componentTags (a ++ textOf bs t) =
      gapTags 0 (a ++ firstGap bs t) ++ laterTags (width (a ++ firstGap bs t)) bs t := by
  have htags := (h.behind ha).componentTags_eq
  rwa [textOf_behind, rowTags_behind, Nat.zero_add] at htags

/-! ### Behind a `>` -/

/-- An opening tag lies in a text, or its name begins there and ends behind it. -/
lemma Opens.split {k : Kind} {s r : List Char} (h : Opens k (s ++ r)) :
    Opens k s ∨ ∃ y c x, r = y ++ c :: x ∧ IsName k.opening (s ++ y) ∧ endsName c = true := by
  obtain ⟨m, c, x, hm, hname, hc⟩ := h
  rcases List.append_eq_append_iff.1 hm with ⟨y, rfl, hr⟩ | ⟨y, rfl, hr⟩
  · exact .inr ⟨y, c, x, hr, hname, hc⟩
  · cases y with
    | nil => exact .inr ⟨[], c, x, hr.symm, by rwa [List.append_nil, List.append_nil], hc⟩
    | cons d y =>
      cases hr
      exact .inl ⟨m, c, y, rfl, hname, hc⟩

/-- A character that is in no name is in no text that is one. -/
lemma notMem_of_isName {k : Kind} {m : List Char} {c : Char} (hm : IsName k.opening m)
    (hc : c.toLower ∉ k.opening) : c ∉ m :=
  fun h => hc (hm ▸ List.mem_map_of_mem (f := Char.toLower) h)

/-- The text is empty or ends with a `>`. -/
def EndsTag (t : List Char) : Prop := ∀ c, t.getLast? = some c → c = '>'

lemma EndsTag.suffix {t s : List Char} (h : EndsTag t) (hs : s <:+ t) : EndsTag s := by
  obtain ⟨a, rfl⟩ := hs
  intro c hc
  exact h c (by rw [List.getLast?_append, hc]; rfl)

lemma EndsTag.append {a b : List Char} (ha : EndsTag a) (hb : EndsTag b) : EndsTag (a ++ b) := by
  intro c hc
  rw [List.getLast?_append] at hc
  rcases Option.or_eq_some_iff.1 hc with hc | ⟨-, hc⟩
  · exact hb c hc
  · exact ha c hc

lemma passes_of_endsTag {a : List Char} (hq : Quiet a) (he : EndsTag a) (r : List Char) :
    Passes a r := by
  intro s hs hne k hk
  rcases hk.split with hk | ⟨y, c, x, -, hname, -⟩
  · exact hq s hs k hk
  · have hlast : s.getLast hne = '>' := he.suffix hs _ (List.getLast?_eq_some_getLast hne)
    refine notMem_of_isName hname (c := '>') (by cases k <;> decide) ?_
    exact List.mem_append_left _ (hlast ▸ List.getLast_mem hne)

/-! ### Rows that are shut -/

/-- All elements of the row are closed, and nothing opens behind them. -/
structure ShutRow (bs : List Block) (tail : List Char) : Prop where
  closed : ∀ b ∈ bs, b.Begins ∧ Closes b.kind b.close
  quiet : Quiet tail

/-- All elements that open in the text are closed in it. -/
def Shut (t : List Char) : Prop := ∃ bs tail, ShutRow bs tail ∧ textOf bs tail = t

lemma ShutRow.laidOut (h : ShutRow bs tail) : LaidOut bs tail := by
  have hlaid := LaidOut.append h.closed (.tail (.quiet h.quiet))
  rwa [List.append_nil] at hlaid

/-- The elements of a text that is shut are found before those behind it. -/
lemma ShutRow.elementsFrom_append (h : ShutRow bs tail) {r : List Char} (hr : Passes tail r)
    (place : Nat) : elementsFrom 0 place (textOf bs tail ++ r) =
      places place bs ++ elementsFrom 0 (place + width (textOf bs tail)) r := by
  obtain ⟨hclosed, -⟩ := h
  induction bs generalizing place with
  | nil => exact elementsFrom_pass hr place
  | cons b bs ih =>
    obtain ⟨⟨hb, hc⟩, hclosed⟩ := List.forall_mem_cons.1 hclosed
    have hwidth := width_text b
    rw [textOf_cons]
    simp only [List.append_assoc]
    rw [elementsFrom_quiet hb.gap (hb.startsTag _), elementsFrom_block hb (.inl hc), ih _ hclosed,
      places, toElement_stop, List.cons_append]
    simp only [width_append, hwidth, Nat.add_assoc]

lemma textOf_tail (bs : List Block) (t : List Char) : textOf bs t = textOf bs [] ++ t := by
  simp [textOf]

lemma endsTag_textOf (h : ∀ b ∈ bs, b.Begins ∧ Closes b.kind b.close) : EndsTag (textOf bs []) := by
  induction bs with
  | nil =>
    intro c hc
    cases hc
  | cons b bs ih =>
    obtain ⟨⟨-, hb⟩, hbs⟩ := List.forall_mem_cons.1 h
    rw [textOf_eq]
    refine EndsTag.append (fun c hc => ?_) (ih hbs)
    have hlast : b.text.getLast? = some '>' := by
      simp [Block.text, Block.element, List.getLast?_append, getLast?_of_splitTag hb.tag]
    rw [hlast] at hc
    exact (Option.some.inj hc).symm

lemma exists_of_mem_places {place : Nat} {e : Element} (h : e ∈ places place bs) :
    ∃ as b cs, bs = as ++ b :: cs ∧ e = b.toElement (place + width (textOf as [])) := by
  induction bs generalizing place with
  | nil => cases h
  | cons b bs ih =>
    rcases List.mem_cons.1 h with rfl | h
    · exact ⟨[], b, bs, rfl, rfl⟩
    · obtain ⟨as, c, cs, rfl, rfl⟩ := ih h
      refine ⟨b :: as, c, cs, rfl, ?_⟩
      rw [toElement_stop, textOf_eq, width_append, Nat.add_assoc]

lemma LaidOut.closed_of_append {as cs : List Block} {b : Block} (h : LaidOut (as ++ b :: cs) t) :
    ∀ a ∈ as, a.Begins ∧ Closes a.kind a.close := by
  induction as with
  | nil => exact List.forall_mem_nil _
  | cons a as ih =>
    generalize hbs : a :: as ++ b :: cs = bs at h
    cases h with
    | tail => cases hbs
    | closed ha hc h =>
      cases hbs
      exact List.forall_mem_cons.2 ⟨⟨ha, hc⟩, ih h⟩
    | broken => simp at hbs

/-- If an element is found directly behind a text, then the text is shut. -/
lemma shut_of_mem {place : Nat} {r : List Char} {e : Element}
    (he : e ∈ elementsFrom 0 place (a ++ r)) (hplace : e.openTag.first = place + width a) : Shut a := by
  obtain ⟨bs, tail, h, htext⟩ := exists_laidOut (a ++ r)
  rw [← htext, h.elementsFrom] at he
  obtain ⟨as, b, cs, rfl, rfl⟩ := exists_of_mem_places he
  have hbefore := textOf_tail as b.gap
  have hwidth : width (textOf as b.gap) = width a := by
    have hfirst : place + width (textOf as []) + width b.gap = place + width a := hplace
    rw [hbefore, width_append]
    omega
  have hsplit : textOf as b.gap ++ (b.tag ++ (b.content ++ (b.close ++ textOf cs tail))) = a ++ r := by
    rw [← htext, textOf_append, textOf_cons, textOf_tail as (b.gap ++ _), hbefore, List.append_assoc]
  obtain ⟨k, hk, -⟩ := exists_append_of_width_le hsplit hwidth.le
  obtain rfl : k = [] := by
    rw [hk, width_append] at hwidth
    exact width_eq_zero (by omega)
  rw [List.append_nil] at hk
  exact ⟨as, b.gap, ⟨h.closed_of_append, (h.begins b (by simp)).gap⟩, hk.symm⟩

end Mender.Markup
