import Mender.Proofs.Markup.Parts
import Mender.Proofs.Text.Search

/-!
The stretches of a source: markup, comments and elements.

They stand one behind the other, from the start of the source to its end, so each character belongs to one
of them. Elements are found first, and comments are cut out of what lies between them; a component tag is
a `<` in the markup with a capital letter behind it. A closing tag is known by how it begins.
-/

namespace Mender.Markup

open Mender.Text

inductive Nature | markup | comment | element
  deriving DecidableEq

/-- A part of a source with what it is. -/
structure Stretch where
  nature : Nature
  text : List Char

/-- The text of a row of stretches. -/
def rowText (row : List Stretch) : List Char := row.flatMap (·.text)

/-- The stretches of one nature in a row that starts at a place. -/
def pieces (n : Nature) : (place : Nat) → List Stretch → List Piece
  | _, [] => []
  | p, s :: row => (if s.nature = n then [⟨p, s.text⟩] else []) ++ pieces n (p + width s.text) row

/-- A comment with the first mark that can close it at its end. -/
structure IsComment (t : List Char) : Prop where
  opens : commentOpen <+: t
  closes : commentClose <:+ t
  first : ¬ commentClose <:+: t.dropLast

/-- No stretch of markup stands at the start of a row. -/
def NoMarkup (row : List Stretch) : Prop := ∀ s, row.head? = some s → s.nature ≠ .markup

/-- A row of stretches, each of which is what it is said to be and as long as it can be. A comment that is
not closed goes on up to the next element. -/
inductive Parted : List Stretch → Prop
  | nil : Parted []
  | markup {t : List Char} {row : List Stretch} (hne : t ≠ []) (hno : ¬ commentOpen <:+: t)
      (hnext : NoMarkup row) (h : Parted row) : Parted (⟨.markup, t⟩ :: row)
  | comment {t : List Char} {row : List Stretch} (hc : IsComment t) (h : Parted row) :
    Parted (⟨.comment, t⟩ :: row)
  | openComment {t : List Char} {row : List Stretch} (ho : commentOpen <+: t)
      (hc : ¬ commentClose <:+: t) (hnext : ∀ s, row.head? = some s → s.nature = .element)
      (h : Parted row) : Parted (⟨.comment, t⟩ :: row)
  | element {t : List Char} {row : List Stretch} {k : Kind} (ho : Opens k t) (h : Parted row) :
    Parted (⟨.element, t⟩ :: row)

@[simp] lemma rowText_nil : rowText [] = [] := rfl

@[simp] lemma rowText_cons (s : Stretch) (row : List Stretch) :
    rowText (s :: row) = s.text ++ rowText row := rfl

@[simp] lemma rowText_append (r r' : List Stretch) : rowText (r ++ r') = rowText r ++ rowText r' :=
  List.flatMap_append

lemma pieces_append (n : Nature) (p : Nat) (r r' : List Stretch) :
    pieces n p (r ++ r') = pieces n p r ++ pieces n (p + width (rowText r)) r' := by
  induction r generalizing p with
  | nil => simp [pieces]
  | cons s r ih =>
    rw [List.cons_append, pieces, ih, pieces, rowText_cons, width_append, ← Nat.add_assoc,
      List.append_assoc]

/-! ### Comments in a gap -/

lemma commentOpen_ne_nil : commentOpen ≠ [] := by decide

lemma commentClose_ne_nil : commentClose ≠ [] := by decide

lemma outsideComments_skip (n p : Nat) (piece t : List Char) :
    outsideComments n p piece t = outsideComments 0 (p + width (t.take n)) piece (t.drop n) := by
  induction n generalizing p t with
  | zero => simp
  | succ n ih =>
    cases t with
    | nil => simp [outsideComments]
    | cons c t =>
      rw [outsideComments, ih, List.take_succ_cons, List.drop_succ_cons, width_cons, Nat.add_assoc]

/-- What is no comment is added to the current piece. -/
lemma outsideComments_pass {m r : List Char}
    (h : ∀ s, s <:+ m → s ≠ [] → ¬ commentOpen <+: s ++ r) (p : Nat) (piece : List Char) :
    outsideComments 0 p piece (m ++ r) =
      outsideComments 0 (p + width m) (m.reverse ++ piece) r := by
  induction m generalizing p piece with
  | nil => simp
  | cons c m ih =>
    have hhead : startsWith commentOpen (c :: (m ++ r)) = false := by
      rw [Bool.eq_false_iff, ne_eq, startsWith_iff]
      exact h (c :: m) (List.suffix_refl _) (List.cons_ne_nil _ _)
    rw [List.cons_append, outsideComments, hhead, if_neg (by decide),
      ih fun s hs => h s (hs.trans (List.suffix_cons _ _))]
    simp [Nat.add_assoc]

/-- A comment ends the current piece. -/
lemma outsideComments_comment {c r : List Char} (ho : commentOpen <+: c)
    (hlength : commentLength (c ++ r) = c.length) (p : Nat) (piece : List Char) :
    outsideComments 0 p piece (c ++ r) = endPiece p piece :: outsideComments 0 (p + width c) [] r := by
  have hstart : startsWith commentOpen (c ++ r) = true :=
    startsWith_iff.2 (ho.trans (List.prefix_append _ _))
  obtain ⟨d, c, rfl⟩ : ∃ d t, c = d :: t := by
    obtain ⟨x, rfl⟩ := ho
    exact ⟨_, _, rfl⟩
  rw [List.cons_append] at hstart hlength ⊢
  rw [outsideComments, if_pos hstart, hlength, outsideComments_skip]
  simp [Nat.add_assoc]

/-- A comment starts somewhere in a text, or nowhere. -/
lemma exists_commentOpen (t : List Char) : ¬ commentOpen <:+: t ∨
    ∃ m r, t = m ++ r ∧ commentOpen <+: r ∧ ¬ commentOpen <:+: m ∧
      ∀ s, s <:+ m → s ≠ [] → ¬ commentOpen <+: s ++ r := by
  cases hcut : cut? commentOpen t with
  | none => exact .inl (cut?_eq_none_iff.1 hcut)
  | some p =>
    obtain ⟨m, b⟩ := p
    obtain ⟨rfl, hfirst⟩ := (cut?_eq_some_iff commentOpen_ne_nil).1 hcut
    refine .inr ⟨m, commentOpen ++ b, by rw [List.append_assoc], List.prefix_append _ _, ?_, ?_⟩
    · exact fun h => hfirst (h.trans (List.prefix_append _ _).isInfix)
    · intro s hs hne h
      -- a mark that starts in `m` ends before the first one does
      have hlong : commentOpen.length ≤ (s ++ commentOpen.dropLast).length := by
        have := List.length_pos_iff.2 hne
        rw [List.length_append, List.length_dropLast]
        omega
      have hshort : s ++ commentOpen.dropLast <+: s ++ (commentOpen ++ b) :=
        (List.prefix_append_right_inj s).2 ((List.dropLast_prefix _).trans (List.prefix_append _ _))
      have hin : commentOpen <+: s ++ commentOpen.dropLast := List.prefix_of_prefix_length_le h hshort hlong
      obtain ⟨a, rfl⟩ := hs
      refine hfirst (hin.isInfix.trans ?_)
      rw [List.append_assoc]
      exact (List.suffix_append _ _).isInfix

/-- A comment at the start of a text ends in it, or takes all of it. -/
lemma commentLength_cases {t : List Char} (h : commentOpen <+: t) :
    (∃ c r, t = c ++ r ∧ IsComment c ∧ commentLength t = c.length) ∨
      ¬ commentClose <:+: t ∧ commentLength t = t.length := by
  unfold commentLength
  cases hcut : cut? commentClose t with
  | none => exact .inr ⟨cut?_eq_none_iff.1 hcut, rfl⟩
  | some p =>
    obtain ⟨inside, r⟩ := p
    obtain ⟨rfl, hfirst⟩ := (cut?_eq_some_iff commentClose_ne_nil).1 hcut
    refine .inl ⟨inside ++ commentClose, r, rfl, ⟨?_, List.suffix_append _ _, ?_⟩, ?_⟩
    · -- the marks may share hyphens, but neither `<` nor `!`
      refine List.prefix_of_prefix_length_le h (List.prefix_append _ _) ?_
      obtain ⟨x, hx⟩ := h
      have hlong : 2 ≤ inside.length := by
        rcases inside with _ | ⟨a, _ | ⟨b, inside⟩⟩
        · exact absurd (List.cons.inj hx).1 (by decide)
        · exact absurd (List.cons.inj (List.cons.inj hx).2).1 (by decide)
        · simp
      rw [List.length_append, show commentOpen.length = 4 from rfl, show commentClose.length = 3 from rfl]
      omega
    · rwa [List.dropLast_append_of_ne_nil commentClose_ne_nil]
    · exact (List.length_append).symm

/-- The pieces of a scan that are not empty. -/
def filled (ps : List Piece) : List Piece := ps.filter fun p => !p.text.isEmpty

lemma filled_append (ps qs : List Piece) : filled (ps ++ qs) = filled ps ++ filled qs :=
  List.filter_append _ _

lemma filled_cons (q : Piece) (ps : List Piece) : filled (q :: ps) = filled [q] ++ filled ps :=
  filled_append [q] ps

/-- A row for the markup, unless there is none. -/
def markupRow (t : List Char) : List Stretch := if t = [] then [] else [⟨.markup, t⟩]

@[simp] lemma rowText_markupRow (t : List Char) : rowText (markupRow t) = t := by
  unfold markupRow
  split
  · next h => rw [h]; rfl
  · simp

lemma endPiece_reverse (place : Nat) (t : List Char) :
    endPiece (place + width t) t.reverse = ⟨place, t⟩ := by
  rw [endPiece, width_reverse, Nat.add_sub_cancel, List.reverse_reverse]

lemma pieces_markupRow (p : Nat) (t : List Char) :
    filled [endPiece (p + width t) t.reverse] = pieces .markup p (markupRow t) := by
  rw [endPiece_reverse, markupRow]
  split
  · next h => rw [h]; rfl
  · next h => simp [filled, pieces, h]

/-- The row may stand in front of an element or at the end. -/
def Fits (row : List Stretch) : Prop :=
  ∀ rest, (∀ s, rest.head? = some s → s.nature = .element) → Parted rest → Parted (row ++ rest)

lemma fits_markupRow {t : List Char} (h : ¬ commentOpen <:+: t) : Fits (markupRow t) := by
  intro rest hnext hrest
  unfold markupRow
  split
  · exact hrest
  · next hne => exact .markup hne h (fun s hs hm => by simp [hnext s hs] at hm) hrest

/-- Markup without a comment in it stands in front of a comment. -/
lemma Parted.markupRow {t : List Char} {row : List Stretch} (h : Parted row) (hno : ¬ commentOpen <:+: t)
    (hnext : NoMarkup row) : Parted (markupRow t ++ row) := by
  unfold Markup.markupRow
  split
  · exact h
  · next hne => exact .markup hne hno hnext h

lemma noMarkup_comment (t : List Char) (row : List Stretch) : NoMarkup (⟨.comment, t⟩ :: row) := by
  intro s hs
  cases hs
  exact Nature.noConfusion

/-- A gap as a row of markup and comments. -/
structure IsRowOf (gap : List Char) (row : List Stretch) : Prop where
  text : rowText row = gap
  fits : Fits row
  markup : ∀ p, filled (outsideComments 0 p [] gap) = pieces .markup p row
  element : ∀ p, pieces .element p row = []

lemma pieces_element_markupRow (p : Nat) (t : List Char) : pieces .element p (markupRow t) = [] := by
  unfold markupRow
  split
  · rfl
  · simp [pieces]

/-- **Every gap is a row of markup and comments.** -/
lemma exists_isRowOf (gap : List Char) : ∃ row, IsRowOf gap row := by
  induction h : gap.length using Nat.strongRecOn generalizing gap with
  | ind n ih =>
    rcases exists_commentOpen gap with hno | ⟨m, r, rfl, ho, hno, hpass⟩
    · have hpass : ∀ s, s <:+ gap → s ≠ [] → ¬ commentOpen <+: s ++ [] := by
        intro s hs _ hp
        rw [List.append_nil] at hp
        exact hno (hp.isInfix.trans hs.isInfix)
      refine ⟨markupRow gap, rowText_markupRow gap, fits_markupRow hno, fun p => ?_,
        fun p => pieces_element_markupRow p gap⟩
      have hscan := outsideComments_pass hpass p []
      rw [List.append_nil, List.append_nil] at hscan
      rw [hscan, ← pieces_markupRow, outsideComments]
    · have hscan (p : Nat) := outsideComments_pass hpass p []
      simp only [List.append_nil] at hscan
      rcases commentLength_cases ho with ⟨c, r, rfl, hc, hlength⟩ | ⟨hopen, hlength⟩
      · have hshort : r.length < n := by
          have := hc.opens.length_le
          rw [← h]
          simp only [List.length_append, show commentOpen.length = 4 from rfl] at this ⊢
          omega
        obtain ⟨row, hrow⟩ := ih r.length hshort r rfl
        refine ⟨markupRow m ++ ⟨.comment, c⟩ :: row, by simp [hrow.text], ?_, fun p => ?_, fun p => ?_⟩
        · intro rest hnext hrest
          rw [List.append_assoc, List.cons_append]
          exact (Parted.comment hc (hrow.fits rest hnext hrest)).markupRow hno (noMarkup_comment _ _)
        · have hmarkup := hrow.markup (p + width m + width c)
          rw [hscan, outsideComments_comment hc.opens hlength, filled_cons, pieces_markupRow, hmarkup,
            pieces_append, rowText_markupRow, pieces]
          rfl
        · rw [pieces_append, pieces_element_markupRow, rowText_markupRow, pieces, hrow.element]
          rfl
      · refine ⟨markupRow m ++ [⟨.comment, r⟩], by simp, ?_, fun p => ?_, fun p => ?_⟩
        · intro rest hnext hrest
          rw [List.append_assoc, List.singleton_append]
          exact (Parted.openComment ho hopen hnext hrest).markupRow hno (noMarkup_comment _ _)
        · have hcomment := outsideComments_comment (r := []) ho (by rw [List.append_nil, hlength])
            (p + width m) m.reverse
          rw [List.append_nil] at hcomment
          rw [hscan, hcomment, filled_cons, pieces_markupRow, pieces_append, rowText_markupRow]
          rfl
        · rw [pieces_append, pieces_element_markupRow, rowText_markupRow]
          rfl

/-! ### Elements -/

/-- How an element stands in a source: its opening tag ends where its content starts, and the content ends
where the first closing tag of its kind begins, or at the end of the source. -/
structure StandsIn (source : List Char) (e : Element) (before tag content close behind : List Char) :
    Prop where
  text : source = before ++ (tag ++ (content ++ (close ++ behind)))
  openTag_eq : e.openTag = ⟨width before, width before + width tag⟩
  content_eq : e.content = ⟨width before + width tag, width before + width tag + width content⟩
  stop_eq : e.stop = width before + width tag + width content + width close
  opens : Opens e.kind tag
  whole : splitTag none 0 tag = some (tag, [])
  first : Lacks e.kind.closing content
  ends : Closes e.kind close ∨ Breaks e.kind close ∧ behind = []

/-- The stretch of a source that an element takes up. -/
def Element.extent (e : Element) : Span := ⟨e.openTag.first, e.stop⟩

def Piece.extent (p : Piece) : Span := ⟨p.place, p.place + width p.text⟩

/-- A whole source as a row. -/
structure IsRow (bs : List Block) (tail : List Char) (row : List Stretch) : Prop where
  parted : Parted row
  text : rowText row = textOf bs tail
  markup : ∀ p, filled ((gapsOf p bs tail).flatMap fun g => outsideComments 0 g.place [] g.text) =
    pieces .markup p row
  element : ∀ p, (places p bs).map Element.extent = (pieces .element p row).map Piece.extent

/-- **Every source is a row of stretches.** -/
lemma exists_isRow {bs : List Block} (hbs : ∀ b ∈ bs, b.Begins) (tail : List Char) :
    ∃ row, IsRow bs tail row := by
  induction bs with
  | nil =>
    obtain ⟨row, hrow⟩ := exists_isRowOf tail
    have hparted := hrow.fits [] (fun s hs => by cases hs) .nil
    rw [List.append_nil] at hparted
    refine ⟨row, hparted, hrow.text, fun p => ?_, fun p => by rw [hrow.element]; rfl⟩
    rw [← hrow.markup p, gapsOf, List.flatMap_singleton]
  | cons b bs ih =>
    obtain ⟨hb, hbs⟩ := List.forall_mem_cons.1 hbs
    obtain ⟨row, hrow⟩ := ih hbs
    obtain ⟨gap, hgap⟩ := exists_isRowOf b.gap
    have hopens : Opens b.kind b.element := hb.opens.append _
    have hwidth : width b.text = width b.gap + width b.element := width_append _ _
    refine ⟨gap ++ ⟨.element, b.element⟩ :: row, ?_, ?_, fun p => ?_, fun p => ?_⟩
    · refine hgap.fits _ (fun s hs => ?_) (.element hopens hrow.parted)
      cases hs
      rfl
    · rw [rowText_append, rowText_cons, hgap.text, hrow.text, textOf_eq, Block.text, List.append_assoc]
    · rw [gapsOf, List.flatMap_cons, filled_append, hgap.markup, hrow.markup, pieces_append, hgap.text,
        pieces, hwidth, ← Nat.add_assoc]
      rfl
    · have hplace : (b.toElement p).extent = ⟨p + width b.gap, p + width b.gap + width b.element⟩ := by
        rw [Element.extent, toElement_stop, hwidth, ← Nat.add_assoc]
        rfl
      rw [places, List.map_cons, hrow.element, hplace, toElement_stop, hwidth, pieces_append, hgap.element,
        hgap.text, pieces, ← Nat.add_assoc]
      rfl

lemma LaidOut.markupPieces_eq {bs : List Block} {tail : List Char} (h : LaidOut bs tail)
    {row : List Stretch} (hrow : IsRow bs tail row) :
    markupPieces (textOf bs tail) = pieces .markup 0 row := by
  have hgaps := gaps_eq [] bs tail
  rw [markupPieces, h.elements_eq]
  exact (congrArg (fun gs : List Piece => filled (gs.flatMap _)) hgaps).trans (hrow.markup 0)

lemma LaidOut.standsIn {bs : List Block} {tail : List Char} (h : LaidOut bs tail) (a : List Char) :
    ∀ e ∈ places (width a) bs, ∃ before tag content close behind,
      StandsIn (a ++ textOf bs tail) e before tag content close behind := by
  have block {b : Block} {rest : List Char} (a : List Char) (hb : b.Begins)
      (hc : Closes b.kind b.close ∨ Breaks b.kind b.close ∧ rest = []) :
      StandsIn (a ++ (b.gap ++ (b.tag ++ (b.content ++ (b.close ++ rest))))) (b.toElement (width a))
        (a ++ b.gap) b.tag b.content b.close rest := by
    refine ⟨by simp, ?_, ?_, ?_, hb.opens, hb.tag, hb.content, hc⟩
    all_goals rw [width_append]; rfl
  induction h generalizing a with
  | tail h => exact List.forall_mem_nil _
  | @closed b bs t hb hc h ih =>
    refine List.forall_mem_cons.2 ⟨?_, fun e he => ?_⟩
    · rw [textOf_cons]
      exact ⟨_, _, _, _, _, block a hb (.inl hc)⟩
    · rw [toElement_stop, ← width_append] at he
      have hstands := ih (a ++ b.text) e he
      rwa [List.append_assoc, ← textOf_eq] at hstands
  | @broken b hb hc =>
    refine List.forall_mem_cons.2 ⟨?_, List.forall_mem_nil _⟩
    rw [textOf_cons]
    exact ⟨_, _, _, _, _, block a hb (.inr ⟨hc, rfl⟩)⟩

/-- The elements of some blocks stand one behind the other. -/
lemma pairwise_places (place : Nat) (bs : List Block) :
    (∀ e ∈ places place bs, place ≤ e.openTag.first) ∧
      (places place bs).Pairwise (fun e e' => e.stop ≤ e'.openTag.first) := by
  induction bs generalizing place with
  | nil => exact ⟨List.forall_mem_nil _, .nil⟩
  | cons b bs ih =>
    obtain ⟨hfirst, hpairwise⟩ := ih (b.toElement place).stop
    refine ⟨List.forall_mem_cons.2 ⟨Nat.le_add_right _ _, fun e he => ?_⟩, .cons hfirst hpairwise⟩
    have hstop := toElement_stop place b
    have := hfirst e he
    omega

/-! ### Component tags -/

/-- A `<` stands at a place of a source, directly in front of a capital letter. -/
def CapitalAt (source : List Char) (place : Nat) : Prop :=
  ∃ a c r, source = a ++ '<' :: c :: r ∧ width a = place ∧ c.isUpper = true

lemma mem_tagsFrom_iff (p : Nat) (t : List Char) (n : Nat) :
    (∃ tag ∈ tagsFrom p t, tag.place = n) ↔ ∃ m, CapitalAt t m ∧ n = p + m := by
  induction t generalizing p with
  | nil =>
    constructor
    · rintro ⟨tag, h, -⟩
      cases h
    · rintro ⟨m, ⟨a, c, r, h, -⟩, -⟩
      simp at h
  | cons d t ih =>
    have hrest : (∃ tag ∈ tagsFrom (p + d.utf8Size) t, tag.place = n) ↔
        ∃ a c r, t = a ++ '<' :: c :: r ∧ c.isUpper = true ∧ n = p + width (d :: a) := by
      rw [ih]
      constructor
      · rintro ⟨m, ⟨a, c, r, rfl, rfl, hc⟩, rfl⟩
        exact ⟨a, c, r, rfl, hc, by rw [width_cons, Nat.add_assoc]⟩
      · rintro ⟨a, c, r, rfl, hc, rfl⟩
        exact ⟨width a, ⟨a, c, r, rfl, rfl, hc⟩, by rw [width_cons, Nat.add_assoc]⟩
    have hcapital : (∃ m, CapitalAt (d :: t) m ∧ n = p + m) ↔
        (d = '<' ∧ t.head?.any Char.isUpper = true ∧ n = p) ∨
          ∃ a c r, t = a ++ '<' :: c :: r ∧ c.isUpper = true ∧ n = p + width (d :: a) := by
      constructor
      · rintro ⟨m, ⟨a, c, r, h, rfl, hc⟩, rfl⟩
        cases a with
        | nil =>
          cases h
          exact .inl ⟨rfl, hc, rfl⟩
        | cons e a =>
          cases h
          exact .inr ⟨a, c, r, rfl, hc, rfl⟩
      · rintro (⟨rfl, hc, rfl⟩ | ⟨a, c, r, rfl, hc, rfl⟩)
        · obtain ⟨c, r, rfl⟩ : ∃ c r, t = c :: r :=
            List.exists_cons_of_ne_nil fun h => by simp [h] at hc
          exact ⟨0, ⟨[], c, r, rfl, rfl, hc⟩, rfl⟩
        · exact ⟨_, ⟨d :: a, c, r, rfl, rfl, hc⟩, rfl⟩
    rw [hcapital, ← hrest, tagsFrom]
    split
    · next h => simp [h, eq_comm]
    · next h =>
      refine (or_iff_right fun h' => h ⟨h'.1, h'.2.1⟩).symm

lemma pairwise_tagsFrom (p : Nat) (t : List Char) :
    (∀ tag ∈ tagsFrom p t, p ≤ tag.place ∧ tag.place < p + width t) ∧
      (tagsFrom p t).Pairwise (fun tag tag' => tag.place < tag'.place) := by
  induction t generalizing p with
  | nil => exact ⟨List.forall_mem_nil _, .nil⟩
  | cons c t ih =>
    obtain ⟨hplaces, hpairwise⟩ := ih (p + c.utf8Size)
    have hpos := c.utf8Size_pos
    have hrest : ∀ tag ∈ tagsFrom (p + c.utf8Size) t, p < tag.place ∧ tag.place < p + width (c :: t) := by
      intro tag htag
      have := hplaces tag htag
      rw [width_cons]
      omega
    rw [tagsFrom]
    split
    · refine ⟨List.forall_mem_cons.2 ⟨⟨Nat.le_refl _, by rw [width_cons]; dsimp only; omega⟩,
        fun tag h => ⟨(hrest tag h).1.le, (hrest tag h).2⟩⟩, .cons (fun tag h => (hrest tag h).1) hpairwise⟩
    · exact ⟨fun tag h => ⟨(hrest tag h).1.le, (hrest tag h).2⟩, hpairwise⟩

/-- A piece stands in a source, and what follows it begins with a `<`, if anything does. -/
def PieceAt (source : List Char) (p : Piece) : Prop :=
  ∃ a b, source = a ++ (p.text ++ b) ∧ p.place = width a ∧ StartsTag b

lemma Parted.startsTag {row : List Stretch} (h : Parted row) (hno : NoMarkup row) :
    StartsTag (rowText row) := by
  have mark {t : List Char} {row : List Stretch} (ho : commentOpen <+: t) : StartsTag (t ++ rowText row) := by
    obtain ⟨x, rfl⟩ := ho
    exact startsTag_cons _
  cases h with
  | nil => exact startsTag_nil
  | markup => exact absurd rfl (hno _ rfl)
  | comment hc => exact mark hc.opens
  | openComment ho => exact mark ho
  | element ho => exact (ho.append _).startsTag

lemma Parted.pieceAt {row : List Stretch} (h : Parted row) (a : List Char) :
    (∀ p ∈ pieces .markup (width a) row, PieceAt (a ++ rowText row) p ∧ width a ≤ p.place) ∧
      (pieces .markup (width a) row).Pairwise (fun p q => p.place + width p.text ≤ q.place) := by
  have skip {s : Stretch} {row : List Stretch} (hs : s.nature ≠ .markup)
      (ih : ∀ a : List Char,
        (∀ p ∈ pieces .markup (width a) row, PieceAt (a ++ rowText row) p ∧ width a ≤ p.place) ∧
          (pieces .markup (width a) row).Pairwise (fun p q => p.place + width p.text ≤ q.place))
      (a : List Char) :
      (∀ p ∈ pieces .markup (width a) (s :: row),
          PieceAt (a ++ rowText (s :: row)) p ∧ width a ≤ p.place) ∧
        (pieces .markup (width a) (s :: row)).Pairwise (fun p q => p.place + width p.text ≤ q.place) := by
    have hrest := ih (a ++ s.text)
    rw [List.append_assoc, width_append] at hrest
    rw [pieces, if_neg hs, List.nil_append]
    refine ⟨fun p hp => ⟨(hrest.1 p hp).1, ?_⟩, hrest.2⟩
    have := (hrest.1 p hp).2
    omega
  induction h generalizing a with
  | nil => exact ⟨List.forall_mem_nil _, .nil⟩
  | @markup t row hne hno hnext h ih =>
    have hrest := ih (a ++ t)
    rw [List.append_assoc, width_append] at hrest
    rw [pieces, if_pos rfl, List.singleton_append]
    refine ⟨List.forall_mem_cons.2 ⟨⟨⟨a, rowText row, rfl, rfl, h.startsTag hnext⟩, Nat.le_refl _⟩,
      fun p hp => ⟨(hrest.1 p hp).1, ?_⟩⟩, .cons (fun p hp => (hrest.1 p hp).2) hrest.2⟩
    have := (hrest.1 p hp).2
    omega
  | comment _ _ ih => exact skip Nature.noConfusion ih a
  | openComment _ _ _ _ ih => exact skip Nature.noConfusion ih a
  | element _ _ ih => exact skip Nature.noConfusion ih a

/-- In a piece a capital follows a `<` exactly where it does in the source. -/
lemma PieceAt.capitalAt_iff {source : List Char} {p : Piece} (h : PieceAt source p) (n : Nat) :
    (∃ m, CapitalAt p.text m ∧ n = p.place + m) ↔
      p.place ≤ n ∧ n < p.place + width p.text ∧ CapitalAt source n := by
  obtain ⟨a, b, rfl, hplace, hb⟩ := h
  constructor
  · rintro ⟨m, ⟨x, c, r, htext, rfl, hc⟩, rfl⟩
    have hpos := ('<' : Char).utf8Size_pos
    refine ⟨Nat.le_add_right _ _, ?_, a ++ x, c, r ++ b, by simp [htext], ?_, hc⟩
    · rw [htext, width_append, width_cons]
      omega
    · rw [width_append, hplace]
  · rintro ⟨hle, hlt, x, c, r, hsource, rfl, hc⟩
    obtain ⟨k, rfl, hk⟩ := exists_append_of_width_le hsource (hplace ▸ hle)
    rw [hplace, width_append, Nat.add_lt_add_iff_left] at hlt
    obtain ⟨k', hk', hrest⟩ := exists_append_of_width_le hk.symm hlt.le
    refine ⟨width k, ⟨k, c, ?_⟩, by rw [width_append, hplace]⟩
    -- the capital is still in the piece, for what follows the piece is no capital
    rcases k' with _ | ⟨d, _ | ⟨e, k'⟩⟩
    · simp [hk'] at hlt
    · cases hrest
      rw [hb c rfl] at hc
      exact absurd hc (by decide)
    · cases hrest
      exact ⟨k', hk', rfl, hc⟩

/-- **Every source falls into stretches.** Its elements stand one behind the other; the opening tag of each
ends where its content starts, and the content ends where the first closing tag of its kind begins, or at
the end of the source. The pieces of markup, the elements and the comments between them make up the source,
each at its place. The component tags are, in order, the places in the markup where a capital letter follows
a `<`. -/
theorem source_parted (source : List Char) :
    (elements source).Pairwise (fun e e' => e.stop ≤ e'.openTag.first) ∧
      (∀ e ∈ elements source, e.openTag.last = e.content.first ∧
        ∃ before tag content close behind, StandsIn source e before tag content close behind) ∧
      (∃ row, Parted row ∧ rowText row = source ∧ markupPieces source = pieces .markup 0 row ∧
        (elements source).map Element.extent = (pieces .element 0 row).map Piece.extent) ∧
      (∀ p ∈ markupPieces source, PieceAt source p) ∧
      (componentTags source).Pairwise (fun tag tag' => tag.place < tag'.place) ∧
      ∀ n, (∃ tag ∈ componentTags source, tag.place = n) ↔
        ∃ p ∈ markupPieces source, p.place ≤ n ∧ n < p.place + width p.text ∧ CapitalAt source n := by
  obtain ⟨bs, tail, hlaid, rfl⟩ := exists_laidOut source
  obtain ⟨row, hrow⟩ := exists_isRow hlaid.begins tail
  have hmarkup := hlaid.markupPieces_eq hrow
  obtain ⟨hat, hapart⟩ := hrow.parted.pieceAt []
  rw [List.nil_append, hrow.text, width_nil, ← hmarkup] at hat
  rw [width_nil, ← hmarkup] at hapart
  refine ⟨?_, fun e he => ?_, ⟨row, hrow.parted, hrow.text, hmarkup, ?_⟩, fun p hp => (hat p hp).1, ?_,
    fun n => ?_⟩
  · rw [hlaid.elements_eq]
    exact (pairwise_places 0 bs).2
  · rw [hlaid.elements_eq] at he
    obtain ⟨before, tag, content, close, behind, hstands⟩ := hlaid.standsIn [] e he
    exact ⟨by rw [hstands.openTag_eq, hstands.content_eq], _, _, _, _, _, hstands⟩
  · rw [hlaid.elements_eq]
    exact hrow.element 0
  · refine List.pairwise_flatMap.2 ⟨fun p _ => (pairwise_tagsFrom p.place p.text).2, ?_⟩
    refine hapart.imp fun {p q} hpq tag htag tag' htag' => ?_
    have := ((pairwise_tagsFrom p.place p.text).1 tag htag).2
    have := ((pairwise_tagsFrom q.place q.text).1 tag' htag').1
    omega
  · have hpiece (p : Piece) (hp : p ∈ markupPieces (textOf bs tail)) :=
      (mem_tagsFrom_iff p.place p.text n).trans ((hat p hp).1.capitalAt_iff n)
    constructor
    · rintro ⟨tag, htag, hn⟩
      obtain ⟨p, hp, htag⟩ := List.mem_flatMap.1 htag
      exact ⟨p, hp, (hpiece p hp).1 ⟨tag, htag, hn⟩⟩
    · rintro ⟨p, hp, h⟩
      obtain ⟨tag, htag, hn⟩ := (hpiece p hp).2 h
      exact ⟨tag, List.mem_flatMap.2 ⟨p, hp, htag⟩, hn⟩

end Mender.Markup
