import Mathlib.Data.List.TakeWhile
import Mender.Proofs.Markup.Joined

/-!
What a comment hides.

Elements are found before comments are, so a comment hides a tag only if no element in it ends or opens the
stretch that it is cut out of. A comment counts for nothing, whatever follows it, just when it closes the
elements that it opens and has no scripts and no tags.
-/

namespace Mender.Markup

open Mender.Text

/-! ### The marks of a comment -/

lemma commentOpen_eq : commentOpen = ['<', '!', '-', '-'] := rfl

lemma commentClose_eq : commentClose = ['-', '-', '>'] := rfl

/-- A closing mark goes on with no name. -/
lemma passes_commentClose {c : List Char} (hc : Quiet c) (r : List Char) :
    Passes c (commentClose ++ r) := by
  intro s hs hne k hk
  rcases hk.split with hk | ⟨y, d, x, hr, hname, hd⟩
  · exact hc s hs k hk
  · rw [commentClose_eq] at hr
    cases y with
    | nil =>
      obtain rfl : '-' = d := (List.cons.inj hr).1
      exact absurd hd (by decide)
    | cons e y =>
      obtain rfl : '-' = e := (List.cons.inj hr).1
      exact notMem_of_isName hname (c := '-') (by cases k <;> decide) (by simp)

/-- An opening mark is no opening tag. -/
lemma not_opens_commentOpen {k : Kind} {t : List Char} (h : commentOpen <+: t) : ¬ Opens k t := by
  obtain ⟨r, rfl⟩ := h
  intro hk
  have hname : beginsWith k.opening (commentOpen ++ r) = false := by cases k <;> rfl
  exact Bool.eq_false_iff.1 hname hk.beginsWith

lemma passes_commentOpen (r : List Char) : Passes commentOpen r := by
  intro s hs hne k hk
  obtain ⟨x, hx⟩ := startsTag_of_beginsWith (isTagName_opening k) hk.beginsWith
  -- the mark has its `<` at the start only
  have hs' : s = commentOpen := by
    rcases List.suffix_cons_iff.1 (commentOpen_eq ▸ hs) with hs | hs
    · exact hs
    · obtain ⟨c, s, rfl⟩ := List.exists_cons_of_ne_nil hne
      obtain rfl : c = '<' := (List.cons.inj hx).1
      exact absurd (hs.subset List.mem_cons_self) (by decide)
  exact not_opens_commentOpen (hs' ▸ List.prefix_append s r) hk

lemma endsTag_commentClose (t : List Char) : EndsTag (t ++ commentClose) := by
  intro c hc
  rw [List.getLast?_append] at hc
  exact (Option.some.inj hc).symm

/-! ### Tags around a comment -/

/-- No comment is completed by what follows a text without one. -/
lemma no_commentOpen {a r : List Char} (ha : ¬ commentOpen <:+: a)
    (h : StartsTag r ∨ EndsTag a) :
    ∀ s, s <:+ a → s ≠ [] → ¬ commentOpen <+: s ++ r := by
  intro s hs hne hmark
  refine ha (List.IsInfix.trans (List.IsPrefix.isInfix ?_) hs.isInfix)
  rcases h with hr | he
  · -- the mark has its `<` at the start only
    obtain ⟨c, s, rfl⟩ := List.exists_cons_of_ne_nil hne
    rw [commentOpen_eq, List.cons_append, List.cons_prefix_cons] at hmark
    rw [commentOpen_eq, List.cons_prefix_cons]
    refine ⟨hmark.1, ?_⟩
    cases r with
    | nil => simpa using hmark.2
    | cons d r =>
      obtain rfl := hr d rfl
      exact prefix_of_prefix_append_cons (by decide) hmark.2
  · have hlast : s.getLast hne = '>' := he.suffix hs _ (List.getLast?_eq_some_getLast hne)
    rw [← List.dropLast_append_getLast hne, hlast, List.append_assoc, List.singleton_append] at hmark
    exact (prefix_of_prefix_append_cons (by decide) hmark).trans (List.dropLast_prefix s)

/-- Without a comment all tags count. -/
lemma gapTags_of_no_comment {t : List Char} (h : ¬ commentOpen <:+: t) (place : Nat) :
    gapTags place t = tagsFrom place t := by
  have hscan := outsideComments_pass (no_commentOpen h (.inl startsTag_nil)) place []
  rw [List.append_nil, List.append_nil] at hscan
  rw [gapTags, hscan, outsideComments, endPiece_reverse, tagsIn_cons, tagsIn_nil, List.append_nil]

/-- The current piece ends at a comment, and what follows does not depend on it. -/
lemma exists_behind_piece {r : List Char} (hr : commentOpen <+: r) (place : Nat) :
    ∃ ps, ∀ piece, outsideComments 0 place piece r = endPiece place piece :: ps := by
  cases r with
  | nil => exact absurd hr (by decide)
  | cons c r => exact ⟨_, fun piece => by rw [outsideComments, if_pos (startsWith_iff.2 hr)]⟩

/-- A comment ends what stands in front of it. -/
lemma gapTags_front {a r : List Char} (ha : ¬ commentOpen <:+: a) (hr : commentOpen <+: r)
    (place : Nat) : gapTags place (a ++ r) = tagsFrom place a ++ gapTags (place + width a) r := by
  have hstart : StartsTag r := by
    obtain ⟨x, rfl⟩ := hr
    exact startsTag_cons _
  obtain ⟨ps, hps⟩ := exists_behind_piece hr (place + width a)
  rw [gapTags, gapTags, outsideComments_pass (no_commentOpen ha (.inl hstart)), hps, hps,
    List.append_nil, tagsIn_cons, tagsIn_cons, endPiece_reverse]
  rfl

/-- A name does not reach over a `>`. -/
lemma baseName_append {a : List Char} (ha : EndsTag a) (hne : a ≠ []) (r : List Char) :
    baseName (a ++ r) = baseName a := by
  have hlast : a.getLast hne = '>' := ha _ (List.getLast?_eq_some_getLast hne)
  rw [baseName, List.takeWhile_append, if_neg, baseName]
  intro hlength
  have hall : a.takeWhile isTagNameChar = a := (List.takeWhile_prefix _).eq_of_length hlength
  have hmem : a.getLast hne ∈ a.takeWhile isTagNameChar := by
    rw [hall]
    exact List.getLast_mem hne
  rw [hlast] at hmem
  exact absurd (List.mem_takeWhile_imp hmem) (by decide)

/-- A tag does not reach over a `>`. -/
lemma tagsFrom_append {a : List Char} (ha : EndsTag a) (r : List Char) (place : Nat) :
    tagsFrom place (a ++ r) = tagsFrom place a ++ tagsFrom (place + width a) r := by
  induction a generalizing place with
  | nil => simp [tagsFrom]
  | cons c a ih =>
    have ha' : EndsTag a := ha.suffix (List.suffix_cons c a)
    rw [List.cons_append, tagsFrom, tagsFrom, ih ha', width_cons, Nat.add_assoc]
    rcases eq_or_ne a [] with rfl | hne
    · obtain rfl : c = '>' := ha c rfl
      simp
    · rw [List.head?_append_of_ne_nil a hne, baseName_append ha' hne]
      split <;> rfl

/-- What stands up to a `>` in the current piece has its tags for itself. -/
lemma tagsIn_outsideComments {z : List Char} (hz : EndsTag z) (start : Nat) (piece r : List Char) :
    tagsIn (outsideComments 0 (start + width z + width piece) (piece ++ z.reverse) r) =
      tagsFrom start z ++ tagsIn (outsideComments 0 (start + width z + width piece) piece r) := by
  have hend (piece : List Char) (ps : List Piece) :
      tagsIn (endPiece (start + width z + width piece) (piece ++ z.reverse) :: ps) =
        tagsFrom start z ++ tagsIn (endPiece (start + width z + width piece) piece :: ps) := by
    have hlong := endPiece_reverse start (z ++ piece.reverse)
    have hshort := endPiece_reverse (start + width z) piece.reverse
    rw [width_append, width_reverse, ← Nat.add_assoc, List.reverse_append, List.reverse_reverse] at hlong
    rw [width_reverse, List.reverse_reverse] at hshort
    rw [tagsIn_cons, tagsIn_cons, hlong, hshort, tagsFrom_append hz, List.append_assoc]
  induction r generalizing piece with
  | nil => exact hend piece []
  | cons c r ih =>
    rw [outsideComments, outsideComments]
    split
    · exact hend piece _
    · have hnext := ih (c :: piece)
      rw [width_cons, Nat.add_comm c.utf8Size, ← Nat.add_assoc] at hnext
      exact hnext

/-- A comment with the first mark that can close it has no tags. -/
lemma gapTags_comment {x : List Char} (ho : commentOpen <+: x ++ commentClose)
    (hx : ¬ commentClose <:+: x) (place : Nat) (r : List Char) :
    gapTags place (x ++ commentClose ++ r) = gapTags (place + width (x ++ commentClose)) r := by
  have hcut := cut?_of_first (a := x) commentClose_ne_nil
    (not_infix_append_dropLast (by decide) commentClose_ne_nil hx) r
  have hlength : commentLength (x ++ commentClose ++ r) = (x ++ commentClose).length := by
    rw [commentLength, hcut]
    exact List.length_append.symm
  rw [gapTags, outsideComments_comment ho hlength, tagsIn_cons]
  rfl

/-- Up to a closing mark that is the first one, the tags do not depend on what follows. -/
lemma gapTags_closed {y : List Char} (hy : ¬ commentClose <:+: y) (place : Nat) (r : List Char) :
    gapTags place (y ++ commentClose ++ r) =
      gapTags place (y ++ commentClose) ++ gapTags (place + width (y ++ commentClose)) r := by
  have hends := endsTag_commentClose y
  generalize hz : y ++ commentClose = z at hends
  rcases exists_commentOpen z with hno | ⟨m, c, rfl, ho, hno, -⟩
  · rw [gapTags_of_no_comment hno, gapTags,
      outsideComments_pass (no_commentOpen hno (.inr hends)) place [], List.append_nil]
    exact tagsIn_outsideComments hends place [] r
  · -- the comment goes on to the closing mark
    obtain ⟨x, hx, rfl⟩ : ∃ x, y = m ++ x ∧ c = x ++ commentClose := by
      rcases List.append_eq_append_iff.1 hz with ⟨x, -, hc⟩ | ⟨x, hy, hc⟩
      · -- a closing mark has no room for an opening one
        have hroom := ho.length_le.trans ((List.suffix_append x c).length_le)
        rw [← hc] at hroom
        exact absurd hroom (by decide)
      · exact ⟨x, hy, hc⟩
    have hclose : ¬ commentClose <:+: x := fun h => hy (hx ▸ h.trans (List.suffix_append m x).isInfix)
    have hscan (r : List Char) := gapTags_comment ho hclose (place + width m) r
    have hnil := hscan []
    rw [List.append_nil] at hnil
    rw [List.append_assoc, gapTags_front hno (ho.trans (List.prefix_append _ _)), hscan,
      gapTags_front hno ho, hnil, width_append, Nat.add_assoc]
    simp [gapTags, outsideComments, tagsFrom, endPiece]

/-! ### A source with a comment in it -/

def comment (c : List Char) : List Char := commentOpen ++ c ++ commentClose

/-- A text in which no script, no style and no comment begins. -/
structure OpensNone (p : List Char) : Prop where
  scriptless : Lacks Kind.script.opening p
  styleless : Lacks Kind.style.opening p
  commentless : ¬ commentOpen <:+: p

/-- A text that a comment may have between its marks. -/
structure IsInside (c : List Char) : Prop where
  unclosed : ¬ commentClose <:+: c
  not_gt : ¬ ['>'] <+: c
  not_dash_gt : ¬ ['-', '>'] <+: c

/-- A comment that counts for nothing: all that opens in it is closed in it, and no script and no
component tag is found in it. -/
structure Inert (c : List Char) : Prop where
  shut : Shut (comment c)
  scriptless : scripts (comment c) = []
  tagless : componentTags (comment c) = []

variable {p c tail : List Char} {bs : List Block}

lemma OpensNone.quiet (hp : OpensNone p) : Quiet p := by
  intro s hs k hk
  have hlacks : Lacks k.opening p := by
    cases k
    · exact hp.scriptless
    · exact hp.styleless
  exact Bool.eq_false_iff.1 (hlacks s hs) hk.beginsWith

/-- The marks of a comment share no hyphens. -/
lemma IsInside.first (hc : IsInside c) : ¬ commentClose <:+: commentOpen ++ c := by
  rw [List.infix_append_iff]
  rintro (h | h | ⟨x, y, hmark, hx, hy⟩)
  · exact absurd h (by decide)
  · exact hc.unclosed h
  · rw [commentClose_eq] at hmark
    rcases x with _ | ⟨_, _ | ⟨_, _ | ⟨_, x⟩⟩⟩
    · exact hc.unclosed (by rw [commentClose_eq, hmark]; exact hy.isInfix)
    · cases hmark
      exact hc.not_dash_gt hy
    · cases hmark
      exact hc.not_gt hy
    · obtain rfl := (List.cons.inj (List.cons.inj (List.cons.inj hmark).2).2).1
      exact absurd (hx.subset (by simp)) (by decide : '>' ∉ commentOpen)

/-! ### In front of a comment -/

/-- The tags in front of a comment and those from the comment on. -/
lemma componentTags_front (hp : OpensNone p) (x : List Char) :
    componentTags (p ++ (commentOpen ++ x)) =
      tagsFrom 0 p ++ (componentTags (commentOpen ++ x)).map (.moved (width p)) := by
  obtain ⟨bs, tail, h, rfl⟩ := exists_laidOut x
  have hmark : Passes commentOpen (textOf bs tail) := passes_commentOpen _
  have hpass : Passes (p ++ commentOpen) (textOf bs tail) := by
    refine Passes.append (fun s hs hne k hk => ?_) hmark
    have hstart : StartsTag (commentOpen ++ textOf bs tail) := startsTag_cons _
    exact hp.quiet s hs k (hk.of_append hne hstart)
  have hlater (n : Nat) : laterTags (width p + n) bs tail = (laterTags n bs tail).map (.moved (width p)) := by
    cases bs with
    | nil => rfl
    | cons b bs => rw [laterTags, laterTags, Nat.add_assoc, rowTags_moved]
  rw [← List.append_assoc, h.componentTags_behind hpass, h.componentTags_behind hmark, List.append_assoc,
    gapTags_front hp.commentless (List.prefix_append _ _), Nat.zero_add, width_append (s := p), hlater,
    List.map_append, List.append_assoc]
  have hmoved := gapTags_moved (width p) 0 (commentOpen ++ firstGap bs tail)
  rw [Nat.add_zero] at hmoved
  rw [hmoved]

lemma componentTags_plain (hp : OpensNone p) : componentTags p = tagsFrom 0 p := by
  have h : LaidOut [] p := .tail (.quiet hp.quiet)
  have htags := h.componentTags_eq
  rwa [textOf_nil, rowTags_nil, gapTags_of_no_comment hp.commentless] at htags

/-! ### Behind a comment -/

lemma endsTag_tail (htext : textOf bs tail = comment c) : EndsTag tail := by
  refine (endsTag_commentClose (commentOpen ++ c)).suffix ?_
  rw [← comment, ← htext, textOf_tail]
  exact List.suffix_append _ tail

/-- Behind the elements of a comment there is nothing, or its closing mark. -/
lemma tail_cases (hc : IsInside c) (h : ShutRow bs tail) (htext : textOf bs tail = comment c) :
    tail = [] ∨ ∃ y, tail = y ++ commentClose ∧ ¬ commentClose <:+: y := by
  have hsplit : textOf bs [] ++ tail = commentOpen ++ c ++ commentClose := by
    rw [← textOf_tail, htext, comment]
  rcases List.append_eq_append_iff.1 hsplit with ⟨y, hy, rfl⟩ | ⟨x, hx, hmark⟩
  · exact .inr ⟨y, rfl, fun h => hc.first (h.trans (hy ▸ List.suffix_append _ y).isInfix)⟩
  · -- an element ends with a `>`, and the mark has that at its end only
    have hends : EndsTag x := (endsTag_textOf h.closed).suffix (hx ▸ List.suffix_append _ x)
    rw [commentClose_eq] at hmark
    rcases x with _ | ⟨_, _ | ⟨_, _ | ⟨_, x⟩⟩⟩
    · exact .inr ⟨[], hmark.symm, by decide⟩
    · cases hmark
      exact absurd (hends _ rfl) (by decide)
    · cases hmark
      exact absurd (hends _ rfl) (by decide)
    · have hnil := (List.cons.inj (List.cons.inj (List.cons.inj hmark).2).2).2
      exact .inl (List.append_eq_nil_iff.1 hnil.symm).2

/-- The tags of a comment and those behind it. -/
lemma componentTags_comment (hc : IsInside c) (hs : Shut (comment c)) (q : List Char) :
    componentTags (comment c ++ q) =
      componentTags (comment c) ++ (componentTags q).map (.moved (width (comment c))) := by
  obtain ⟨bs, tail, hrow, htext⟩ := hs
  obtain ⟨bs', tail', h, rfl⟩ := exists_laidOut q
  have hlaid := (h.behind (passes_of_endsTag hrow.quiet (endsTag_tail htext) _)).append hrow.closed
  have hgap (n : Nat) (r : List Char) : gapTags n (tail ++ r) =
      gapTags n tail ++ gapTags (n + width tail) r := by
    rcases tail_cases hc hrow htext with rfl | ⟨y, rfl, hy⟩
    · rfl
    · exact gapTags_closed hy n r
  have hwidth : width (comment c) = width (textOf bs []) + width tail := by
    rw [← htext, textOf_tail, width_append]
  have hwhole : comment c ++ textOf bs' tail' =
      textOf (bs ++ (behind tail bs' tail').1) (behind tail bs' tail').2 := by
    rw [textOf_append, textOf_behind, ← htext, textOf_tail bs tail, textOf_tail bs (tail ++ _),
      List.append_assoc]
  have hcomment : componentTags (comment c) =
      rowTags 0 bs [] ++ gapTags (width (textOf bs [])) tail := by
    have happend := rowTags_append 0 bs [] tail
    rwa [List.append_nil, rowTags_nil, Nat.zero_add, ← hrow.laidOut.componentTags_eq, htext] at happend
  have hbehind : (componentTags (textOf bs' tail')).map (.moved (width (comment c))) =
      gapTags (width (textOf bs []) + width tail) (firstGap bs' tail') ++
        laterTags (width (textOf bs []) + width (tail ++ firstGap bs' tail')) bs' tail' := by
    have hmoved := rowTags_moved (width (comment c)) 0 bs' tail'
    rw [Nat.add_zero, rowTags_eq, hwidth] at hmoved
    rw [h.componentTags_eq, hwidth, ← hmoved, width_append, Nat.add_assoc]
  rw [hwhole, hlaid.componentTags_eq, rowTags_append, rowTags_behind, Nat.zero_add, hgap, hcomment,
    hbehind, List.append_assoc, List.append_assoc]

/-! ### What a comment does to a source -/

/-- The elements of a source with a comment all of whose elements are closed. -/
lemma elements_comment (hp : OpensNone p) (hs : Shut (comment c)) (q : List Char) :
    elements (p ++ comment c ++ q) = (elements (comment c)).map (.moved (width p)) ++
      (elements q).map (.moved (width (p ++ comment c))) := by
  have hstart : StartsTag (comment c ++ q) := startsTag_cons _
  have hmoved (n : Nat) (t : List Char) : elementsFrom 0 n t = (elements t).map (.moved n) :=
    elementsFrom_moved n 0 0 t
  obtain ⟨bs, tail, hrow, htext⟩ := hs
  have hsplit := hrow.elementsFrom_append (passes_of_endsTag hrow.quiet (endsTag_tail htext) q) (width p)
  rw [← hrow.laidOut.elementsFrom, htext, hmoved, hmoved, hmoved, ← width_append] at hsplit
  rw [List.append_assoc, elements, elementsFrom_quiet hp.quiet hstart, Nat.zero_add, hmoved, hsplit]

/-- **An inert comment counts for nothing.** -/
lemma Inert.scripts_eq (h : Inert c) (hp : OpensNone p) (q : List Char) :
    scripts (p ++ comment c ++ q) = (scripts q).map (.moved (width (p ++ comment c))) := by
  have hnone : (elements (comment c)).filter (·.kind == .script) = [] := h.scriptless
  rw [scripts, elements_comment hp h.shut, List.filter_append, filter_map_moved, hnone, List.map_nil,
    List.nil_append, filter_map_moved]
  rfl

lemma Inert.componentTags_eq (h : Inert c) (hp : OpensNone p) (hc : IsInside c) (q : List Char) :
    componentTags (p ++ comment c ++ q) =
      componentTags p ++ (componentTags q).map (.moved (width (p ++ comment c))) := by
  have hcomment : comment c ++ q = commentOpen ++ (c ++ commentClose ++ q) := by simp [comment]
  have htwice : (fun t => ComponentTag.moved (width p) (ComponentTag.moved (width (comment c)) t)) =
      .moved (width (p ++ comment c)) := by
    funext t
    rw [width_append, ComponentTag.moved, ComponentTag.moved, ComponentTag.moved, Nat.add_assoc]
  rw [List.append_assoc, hcomment, componentTags_front hp, ← hcomment, componentTags_comment hc h.shut,
    h.tagless, List.nil_append, List.map_map, componentTags_plain hp]
  exact congrArg (fun f => _ ++ List.map f _) htwice

/-- The same number of spaces as a text has bytes. -/
def blanked (c : List Char) : List Char := List.replicate (width c) ' '

/-- The same scripts and component tags, at the same places. -/
structure SameParts (s t : List Char) : Prop where
  scripts_eq : scripts s = scripts t
  instanceScript_eq : instanceScript? s = instanceScript? t
  componentTags_eq : componentTags s = componentTags t

lemma width_blanked (c : List Char) : width (blanked c) = width c := by
  rw [blanked]
  generalize width c = n
  induction n with
  | zero => rfl
  | succ n ih =>
    rw [List.replicate_succ, width_cons, ih, Nat.add_comm]
    rfl

lemma width_comment (p c : List Char) : width (p ++ comment (blanked c)) = width (p ++ comment c) := by
  simp only [comment, width_append, width_blanked]

/-- Where nothing opens, a comment is inert. -/
lemma inert_of_quiet (hc : IsInside c) (hq : Quiet c) : Inert c := by
  have hquiet : Quiet (comment c) := by
    have hclose : Quiet commentClose := by
      intro s hs k hk
      obtain ⟨x, rfl⟩ := startsTag_of_beginsWith (isTagName_opening k) hk.beginsWith
      exact absurd (hs.subset List.mem_cons_self) (by decide)
    rw [comment, List.append_assoc]
    refine passes_nil_iff.1 (Passes.append (passes_commentOpen _) (Passes.append ?_ ?_))
    · exact passes_commentClose hq []
    · exact passes_nil_iff.2 hclose
  have hrow : ShutRow [] (comment c) := ⟨List.forall_mem_nil _, hquiet⟩
  have htags : componentTags (comment c) = [] := by
    have hmark : commentOpen <+: comment c := by
      rw [comment, List.append_assoc]
      exact List.prefix_append _ _
    have hscan := gapTags_comment hmark hc.first 0 []
    have hrowTags := hrow.laidOut.componentTags_eq
    rw [List.append_nil] at hscan
    rw [textOf_nil, rowTags_nil, comment, hscan] at hrowTags
    exact hrowTags
  refine ⟨⟨[], comment c, hrow, rfl⟩, ?_, htags⟩
  have helements := hrow.laidOut.elements_eq
  rw [textOf_nil] at helements
  rw [scripts, helements]
  rfl

lemma isInside_blanked (c : List Char) : IsInside (blanked c) := by
  have spaces {d : Char} (hd : d ∈ blanked c) : d = ' ' := List.eq_of_mem_replicate hd
  refine ⟨fun h => ?_, fun h => ?_, fun h => ?_⟩
  · exact absurd (spaces (h.subset (by decide : '-' ∈ commentClose))) (by decide)
  · exact absurd (spaces (h.subset List.mem_cons_self)) (by decide)
  · exact absurd (spaces (h.subset List.mem_cons_self)) (by decide)

lemma inert_blanked (c : List Char) : Inert (blanked c) := by
  refine inert_of_quiet (isInside_blanked c) fun s hs k hk => ?_
  obtain ⟨x, rfl⟩ := startsTag_of_beginsWith (isTagName_opening k) hk.beginsWith
  exact absurd (List.eq_of_mem_replicate (hs.subset List.mem_cons_self)) (by decide)

lemma Inert.instanceScript_eq (h : Inert c) (hp : OpensNone p) (q : List Char) :
    instanceScript? (p ++ comment c ++ q) =
      (instanceScript? q).map (.moved (width (p ++ comment c))) := by
  rw [instanceScript?, h.scripts_eq hp, List.find?_map]
  rfl

/-- An inert comment may as well be blank. -/
lemma Inert.sameParts (h : Inert c) (hp : OpensNone p) (hc : IsInside c) (q : List Char) :
    SameParts (p ++ comment c ++ q) (p ++ comment (blanked c) ++ q) := by
  have hblank := inert_blanked c
  constructor
  · rw [h.scripts_eq hp, hblank.scripts_eq hp, width_comment]
  · rw [h.instanceScript_eq hp, hblank.instanceScript_eq hp, width_comment]
  · rw [h.componentTags_eq hp hc, hblank.componentTags_eq hp (isInside_blanked c), width_comment]

/-- A comment that may as well be blank is inert. What opens in it is closed in it, for else it would hide
a script behind it. -/
lemma inert_of_sameParts (hp : OpensNone p)
    (h : ∀ q, SameParts (p ++ comment c ++ q) (p ++ comment (blanked c) ++ q)) : Inert c := by
  have hblank := inert_blanked c
  have hshut : Shut (comment c) := by
    let script : Element := ⟨.script, ⟨0, 8⟩, ⟨8, 8⟩, 8, false⟩
    have hscript : scripts "<script>".toList = [script] := by decide
    have hmem : script.moved (width (p ++ comment c)) ∈ scripts (p ++ comment c ++ "<script>".toList) := by
      rw [(h _).scripts_eq, hblank.scripts_eq hp, width_comment, hscript]
      exact List.mem_singleton_self _
    have helement := (List.mem_filter.1 hmem).1
    have hstart : StartsTag (comment c ++ "<script>".toList) := startsTag_cons _
    rw [List.append_assoc, elements, elementsFrom_quiet hp.quiet hstart] at helement
    refine shut_of_mem helement ?_
    rw [width_append]
    exact (Nat.add_zero _).trans (congrArg (· + width (comment c)) (Nat.zero_add _).symm)
  refine ⟨hshut, ?_, ?_⟩
  · have hscripts := (h []).scripts_eq
    rw [hblank.scripts_eq hp, scripts, elements_comment hp hshut, List.filter_append, filter_map_moved,
      filter_map_moved] at hscripts
    exact List.map_eq_nil_iff.1 (List.append_eq_nil_iff.1 hscripts).1
  · have htags := (h []).componentTags_eq
    have hcomment : p ++ comment c = p ++ (commentOpen ++ (c ++ commentClose)) := by simp [comment]
    rw [hblank.componentTags_eq hp (isInside_blanked c), List.append_nil, hcomment, componentTags_front hp,
      componentTags_plain hp] at htags
    have hnil := List.append_cancel_left htags
    rw [← List.append_assoc, ← comment] at hnil
    exact List.map_eq_nil_iff.1 hnil

end Mender.Markup
