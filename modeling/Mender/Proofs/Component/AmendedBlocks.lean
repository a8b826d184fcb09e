import Mender.Proofs.Component.Filled
import Mender.Proofs.Component.TagEnds

/-!
The blocks of an amended source.

Each part of a block is amended by itself and stays what it is: an attribute is no part of a name, and
its two quotes leave the search for the end of a tag where it was. So the amended source has the blocks
of the source, one for one.
-/

namespace Mender.Component

open Mender.Text Mender.Markup Mender.Module

/-! ### Names -/

lemma isBlank_toLower {c : Char} (h : isBlank c = true) : isBlank c.toLower = true := by
  rcases toLower_cases c with hc | ⟨hlow, hhigh, -⟩
  · rwa [hc]
  · simp only [isBlank, Bool.or_eq_true, Bool.and_eq_true, decide_eq_true_eq, beq_iff_eq] at h
    omega

instance : DecidablePred EndsTag
  | [] => .isFalse id
  | _ :: r =>
    have : Decidable (∀ d ∈ r.head?, isBlank d = true ∨ d = '>') := Option.decidableForallMem _
    inferInstanceAs (Decidable (_ ∨ _ ∨ _ ∧ _))

lemma EndsTag.map_toLower {t : List Char} (h : EndsTag t) : EndsTag (t.map Char.toLower) := by
  have hgt : '>'.toLower = '>' := by decide
  have hclose {c : Char} (hc : isBlank c = true ∨ c = '>') :
      isBlank c.toLower = true ∨ c.toLower = '>' := by
    refine hc.imp isBlank_toLower ?_
    rintro rfl
    exact hgt
  cases t with
  | nil => exact h
  | cons c r =>
    rcases h with h | h | ⟨rfl, h⟩
    · exact .inl (isBlank_toLower h)
    · exact .inr (.inl (h ▸ hgt))
    · refine .inr (.inr ⟨by decide, fun d hd => ?_⟩)
      rw [List.head?_map] at hd
      obtain ⟨e, he, rfl⟩ := Option.map_eq_some_iff.1 hd
      exact hclose (h e he)

/-- No attribute is put into the name, and none can be taken for a part of it. -/
structure IsWhole (name : List Char) : Prop extends IsTagName name where
  spaceless : ' ' ∉ name
  endless : ∀ v ∈ name.tails, v ≠ [] → ¬ EndsTag v

lemma isWhole_opening (k : Kind) : IsWhole k.opening := by
  refine ⟨isTagName_opening k, ?_, ?_⟩ <;> cases k <;> decide

lemma isWhole_closing (k : Kind) : IsWhole k.closing := by
  refine ⟨isTagName_closing k, ?_, ?_⟩ <;> cases k <;> decide

lemma IsWhole.not_endsTag {name m u v : List Char} (hn : IsWhole name) (hm : IsName name m)
    (hv : m = u ++ v) (hne : v ≠ []) (r : List Char) : ¬ EndsTag (v ++ r) := by
  intro h
  obtain ⟨c, v, rfl⟩ := List.exists_cons_of_ne_nil hne
  have hlower := (EndsTag.of_append h).map_toLower
  refine hn.endless _ ?_ (by simp) hlower
  rw [List.mem_tails, ← hm, hv, List.map_append]
  exact List.suffix_append _ _

lemma IsWhole.space_notMem {name m : List Char} (hn : IsWhole name) (hm : IsName name m) :
    ' ' ∉ m := by
  intro hs
  refine hn.spaceless ?_
  rw [← hm]
  exact List.mem_map_of_mem (f := Char.toLower) hs

namespace Amends

variable {a x y z m : List Char} {l : List (Nat × List Char)} {name : List Char} {k : Kind}

lemma interspersed (h : Amends a x l y) : Interspersed IsExtra EndsTag x y := by
  induction h with
  | nil => exact .nil
  | keep c h ih => exact .keep c ih
  | put he hc hno h ih => exact .put he hc ih

lemma eq_nil (h : Amends a [] l y) : y = [] := h.interspersed.eq_nil

/-- A name in the amended text is one in the text. -/
lemma of_append (h : Amends a x l (m ++ z)) (hm : ' ' ∉ m) :
    ∃ r, x = m ++ r ∧ Amends (a ++ m) r l z := by
  induction m generalizing a x with
  | nil => exact ⟨x, rfl, by rwa [List.append_nil]⟩
  | cons c m ih =>
    obtain ⟨hc, hm⟩ := not_or.1 (mt List.mem_cons.2 hm)
    generalize hy : c :: m ++ z = y at h
    cases h with
    | nil => cases hy
    | keep d h =>
      obtain ⟨rfl, rfl⟩ := List.cons.inj hy
      obtain ⟨r, rfl, hr⟩ := ih h hm
      exact ⟨r, rfl, by rwa [List.append_assoc] at hr⟩
    | put he =>
      cases he
      exact absurd (List.cons.inj hy).1.symm hc

/-- A name in the text is one in the amended text. -/
lemma append (h : Amends a (m ++ x) l z)
    (hm : ∀ u v, m = u ++ v → v ≠ [] → ¬ EndsTag (v ++ x)) :
    ∃ y, z = m ++ y ∧ Amends (a ++ m) x l y := by
  induction m generalizing a z with
  | nil => exact ⟨z, rfl, by rwa [List.append_nil]⟩
  | cons c m ih =>
    generalize hx : c :: m ++ x = t at h
    cases h with
    | nil => cases hx
    | keep d h =>
      obtain ⟨rfl, rfl⟩ := List.cons.inj hx
      obtain ⟨y, rfl, hy⟩ := ih h fun u v hv => hm (c :: u) v (congrArg (c :: ·) hv)
      exact ⟨y, rfl, by rwa [List.append_assoc] at hy⟩
    | put _ hc =>
      obtain ⟨rfl, rfl⟩ := List.cons.inj hx
      exact absurd hc (hm [] _ rfl (List.cons_ne_nil _ _))

lemma beginsWith_iff (h : Amends a x l y) (hn : IsWhole name) :
    beginsWith name y = true ↔ beginsWith name x = true := by
  rw [Markup.beginsWith_iff, Markup.beginsWith_iff]
  constructor
  · rintro ⟨m, r, rfl, hm⟩
    obtain ⟨r', rfl, -⟩ := h.of_append (hn.space_notMem hm)
    exact ⟨m, r', rfl, hm⟩
  · rintro ⟨m, r, rfl, hm⟩
    obtain ⟨y, rfl, -⟩ := h.append fun u v hv hne => hn.not_endsTag hm hv hne r
    exact ⟨m, y, rfl, hm⟩

lemma opens_iff (h : Amends a x l y) : Opens k y ↔ Opens k x := by
  have hn := isWhole_opening k
  constructor
  · rintro ⟨m, c, r, rfl, hm, hc⟩
    obtain ⟨x, rfl, hx⟩ := h.of_append (hn.space_notMem hm)
    generalize hy : c :: r = y at hx
    cases hx with
    | nil => cases hy
    | keep d hx =>
      obtain ⟨rfl, -⟩ := List.cons.inj hy
      exact ⟨m, c, _, rfl, hm, hc⟩
    | put he hd hno hx => exact ⟨m, _, _, rfl, hm, endsName_of_completes hm hno⟩
  · rintro ⟨m, c, r, rfl, hm, hc⟩
    obtain ⟨y, rfl, hy⟩ := h.append fun u v hv hne => hn.not_endsTag hm hv hne (c :: r)
    cases hy with
    | keep d hy => exact ⟨m, c, _, rfl, hm, hc⟩
    | put he hd hno hy =>
      cases he
      exact ⟨m, ' ', _, rfl, hm, by decide⟩

/-- What starts with a `<` in the amended text does so in the text. -/
lemma exists_suffix (h : Amends a x l y) (hz : '<' :: z <:+ y) :
    ∃ b s l', s <:+ x ∧ Amends b s l' ('<' :: z) := by
  induction h with
  | nil => exact absurd (List.suffix_nil.1 hz) (List.cons_ne_nil _ _)
  | @keep a x l y c h ih =>
    rcases List.suffix_cons_iff.1 hz with heq | hz
    · exact ⟨a, c :: x, l, List.suffix_refl _, heq ▸ .keep c h⟩
    · obtain ⟨b, s, l', hs, h'⟩ := ih hz
      exact ⟨b, s, l', hs.trans (List.suffix_cons _ _), h'⟩
  | @put a x l y extra c he hc hno h ih =>
    rcases List.suffix_cons_iff.1 (suffix_of_notMem he.notMem hz) with heq | hz
    · exact ⟨a, c :: x, l, List.suffix_refl _, heq ▸ .keep c h⟩
    · obtain ⟨b, s, l', hs, h'⟩ := ih hz
      exact ⟨b, s, l', hs.trans (List.suffix_cons _ _), h'⟩

lemma quiet (h : Amends a x l y) (hx : Quiet x) : Quiet y := by
  intro s hs k hk
  obtain ⟨r, rfl⟩ := startsTag_of_beginsWith (isTagName_opening k) hk.beginsWith
  obtain ⟨b, s, l', hs, h'⟩ := h.exists_suffix hs
  exact hx s hs k (h'.opens_iff.1 hk)

lemma lacks (h : Amends a x l y) (hn : IsWhole name) (hx : Lacks name x) : Lacks name y := by
  intro s hs
  rw [Bool.eq_false_iff]
  intro hb
  obtain ⟨r, rfl⟩ := startsTag_of_beginsWith hn.toIsTagName hb
  obtain ⟨b, s, l', hs, h'⟩ := h.exists_suffix hs
  exact Bool.eq_false_iff.1 (hx s hs) ((h'.beginsWith_iff hn).1 hb)

lemma closes (h : Amends a x l y) (hx : Closes k x) : Closes k y where
  name := (h.beginsWith_iff (isWhole_closing k)).2 hx.name
  tag := h.interspersed.splitTag_self (fun _ => id) quoted_none hx.tag

lemma breaks (h : Amends a x l y) (hx : Breaks k x) : Breaks k y where
  name := by
    rcases hx.name with rfl | hname
    · exact .inl h.eq_nil
    · exact .inr ((h.beginsWith_iff (isWhole_closing k)).2 hname)
  tag := h.interspersed.splitTag_none (fun _ => id) quoted_none hx.tag

lemma bare (h : Amends a x l y) (hx : Bare x) : Bare y := by
  cases hx with
  | quiet hx => exact .quiet (h.quiet hx)
  | unclosed hg ho ht =>
    obtain ⟨l₁, l₂, z₁, z₂, -, rfl, h₁, h₂⟩ := h.split
    exact .unclosed (h₁.quiet hg) (h₂.opens_iff.2 ho) (h₂.interspersed.splitTag_none (fun _ => id) quoted_none ht)

end Amends

/-! ### Blocks -/

/-- A piece of a source with the additions that lie in it. -/
def pieceWith (l : List (Nat × List Char)) (p : Nat × List Char) : List Char :=
  withAdditions p.2 ((l.filter fun e => p.1 ≤ e.1 && e.1 < p.1 + width p.2).map fun e =>
    (e.1 - p.1, e.2))

variable {a x y z : List Char} {l : List (Nat × List Char)}

/-- A piece has the additions that were made when it was amended. -/
lemma Amends.pieceWith_eq (h : Amends a x l y) : pieceWith l (width a, x) = y := by
  have hfilter : (l.filter fun e => width a ≤ e.1 && e.1 < width a + width x) = l := by
    refine List.filter_eq_self.2 fun e he => ?_
    simpa using h.place_mem he
  have hshift : insertions l = (insertions (l.map fun e => (e.1 - width a, e.2))).map
      fun e => (⟨width a + e.1.first, width a + e.1.last⟩, e.2) := by
    simp only [insertions, List.map_map]
    refine List.map_congr_left fun e he => ?_
    have hplace : width a + (e.1 - width a) = e.1 := Nat.add_sub_cancel' (h.place_mem he).1
    simp [hplace]
  have hspliced := h.splice_eq
  rw [hshift] at hspliced
  rw [pieceWith, hfilter]
  exact (splice_shift a x 0 _).symm.trans hspliced

/-- Additions before and behind a piece are none of its own. -/
lemma pieceWith_append {l₁ l₃ : List (Nat × List Char)} (l₂ : List (Nat × List Char))
    (p : Nat × List Char) (h₁ : ∀ e ∈ l₁, e.1 < p.1) (h₃ : ∀ e ∈ l₃, p.1 + width p.2 ≤ e.1) :
    pieceWith (l₁ ++ (l₂ ++ l₃)) p = pieceWith l₂ p := by
  have hbefore : (l₁.filter fun e => p.1 ≤ e.1 && e.1 < p.1 + width p.2) = [] := by
    refine List.filter_eq_nil_iff.2 fun e he => ?_
    have := h₁ e he
    simp
    omega
  have hbehind : (l₃.filter fun e => p.1 ≤ e.1 && e.1 < p.1 + width p.2) = [] := by
    refine List.filter_eq_nil_iff.2 fun e he => ?_
    have := h₃ e he
    simp
    omega
  rw [pieceWith, pieceWith, List.filter_append, List.filter_append, hbefore, hbehind,
    List.nil_append, List.append_nil]

lemma le_of_mem_scriptTexts {place : Nat} {bs : List Block} {p : Nat × List Char}
    (h : p ∈ scriptTexts place bs) : place ≤ p.1 := by
  induction bs generalizing place with
  | nil => cases h
  | cons b bs ih =>
    rw [scriptTexts, List.mem_append] at h
    rcases h with h | h
    · split at h
      · rw [List.mem_singleton.1 h]
        dsimp only
        omega
      · cases h
    · have := ih h
      omega

/-- A block whose parts were amended one after the other. -/
structure AmendedBlock (a : List Char) (b : Block) (l : List (Nat × List Char)) (b' : Block) where
  inGap : List (Nat × List Char)
  inTag : List (Nat × List Char)
  inContent : List (Nat × List Char)
  inClose : List (Nat × List Char)
  all : l = inGap ++ (inTag ++ (inContent ++ inClose))
  kind : b'.kind = b.kind
  gap : Amends a b.gap inGap b'.gap
  tag : Amends (a ++ b.gap) b.tag inTag b'.tag
  content : Amends (a ++ b.gap ++ b.tag) b.content inContent b'.content
  close : Amends (a ++ b.gap ++ b.tag ++ b.content) b.close inClose b'.close

lemma exists_amendedBlock {b : Block} {rest : List Char}
    (h : Amends a (b.gap ++ (b.tag ++ (b.content ++ (b.close ++ rest)))) l z) :
    ∃ b' l₁ l₂ z', Nonempty (AmendedBlock a b l₁ b') ∧ l = l₁ ++ l₂ ∧
      z = b'.gap ++ (b'.tag ++ (b'.content ++ (b'.close ++ z'))) ∧
      Amends (a ++ b.text) rest l₂ z' := by
  obtain ⟨lg, l, zg, z, rfl, rfl, hg, h⟩ := h.split
  obtain ⟨lt, l, zt, z, rfl, rfl, ht, h⟩ := h.split
  obtain ⟨lc, l, zc, z, rfl, rfl, hc, h⟩ := h.split
  obtain ⟨le, l, ze, z, rfl, rfl, he, h⟩ := h.split
  refine ⟨⟨zg, b.kind, zt, zc, ze⟩, lg ++ (lt ++ (lc ++ le)), l, z,
    ⟨⟨lg, lt, lc, le, rfl, rfl, hg, ht, hc, he⟩⟩, by simp, rfl, ?_⟩
  simpa [Block.text, Block.element] using h

namespace AmendedBlock

variable {b b' : Block}

lemma begins (h : AmendedBlock a b l b') (hb : b.Begins) : b'.Begins where
  gap := h.gap.quiet hb.gap
  opens := h.kind ▸ h.tag.opens_iff.2 hb.opens
  tag := h.tag.interspersed.splitTag_self (fun _ => id) quoted_none hb.tag
  content := h.kind ▸ h.content.lacks (isWhole_closing _) hb.content

lemma before_rest (h : AmendedBlock a b l b') {e : Nat × List Char} (he : e ∈ l) :
    e.1 < width a + width b.text := by
  rw [h.all] at he
  simp only [List.mem_append] at he
  rw [width_text]
  rcases he with he | he | he | he
  · have := h.gap.place_mem he
    omega
  · have := h.tag.place_mem he
    simp only [width_append] at this
    omega
  · have := h.content.place_mem he
    simp only [width_append] at this
    omega
  · have := h.close.place_mem he
    simp only [width_append] at this
    omega

/-- The content has the additions that lie in it. -/
lemma content_eq (h : AmendedBlock a b l b') {l' : List (Nat × List Char)}
    (hl' : ∀ e ∈ l', width a + width b.text ≤ e.1) :
    pieceWith (l ++ l') (width a + width b.gap + width b.tag, b.content) = b'.content := by
  have happ : l ++ l' = (h.inGap ++ h.inTag) ++ (h.inContent ++ (h.inClose ++ l')) := by
    conv_lhs => rw [h.all]
    simp
  rw [happ, pieceWith_append]
  · have hcontent := h.content.pieceWith_eq
    rwa [width_append, width_append] at hcontent
  · intro e he
    rcases List.mem_append.1 he with he | he
    · have := h.gap.place_mem he
      dsimp only
      omega
    · have := h.tag.place_mem he
      simp only [width_append] at this
      dsimp only
      omega
  · intro e he
    rcases List.mem_append.1 he with he | he
    · have := h.close.place_mem he
      simp only [width_append] at this
      exact this.1
    · have := hl' e he
      rw [width_text] at this
      dsimp only
      omega

end AmendedBlock

/-- **An amended source has the blocks of the source**, and the content of a script has the additions
that lie in it, and no others. -/
theorem Amends.laidOut {bs : List Block} {t : List Char} (h : Amends a (textOf bs t) l z)
    (hl : LaidOut bs t) : ∃ bs' t', LaidOut bs' t' ∧ z = textOf bs' t' ∧
      scriptContents bs' = (scriptTexts (width a) bs).map (pieceWith l) := by
  have step {b b' : Block} {bs bs' : List Block} {a l₁ l₂ x z'} (hb : AmendedBlock a b l₁ b')
      (hrest : Amends (a ++ b.text) x l₂ z')
      (ih : scriptContents bs' = (scriptTexts (width (a ++ b.text)) bs).map (pieceWith l₂)) :
      scriptContents (b' :: bs') = (scriptTexts (width a) (b :: bs)).map (pieceWith (l₁ ++ l₂)) := by
    have hbehind : ∀ e ∈ l₂, width a + width b.text ≤ e.1 := fun e he => by
      rw [← width_append]
      exact (hrest.place_mem he).1
    have hmore : (scriptTexts (width a + width b.text) bs).map (pieceWith (l₁ ++ l₂)) =
        (scriptTexts (width a + width b.text) bs).map (pieceWith l₂) := by
      refine List.map_congr_left fun p hp => ?_
      have hle := le_of_mem_scriptTexts hp
      have happ : pieceWith (l₁ ++ (l₂ ++ [])) p = pieceWith l₂ p := pieceWith_append l₂ p
        (fun e he => Nat.lt_of_lt_of_le (hb.before_rest he) hle) (fun e he => nomatch he)
      rwa [List.append_nil] at happ
    rw [width_append] at ih
    rw [scriptTexts, List.map_append, hmore, ← ih, scriptContents, scriptContents,
      List.filter_cons, hb.kind]
    cases b.kind with
    | script => exact congrArg (· :: _) (hb.content_eq hbehind).symm
    | style => rfl
  induction hl generalizing a l z with
  | tail ht => exact ⟨[], z, .tail (h.bare ht), rfl, rfl⟩
  | closed hb hc hl ih =>
    rw [textOf_cons] at h
    obtain ⟨b', l₁, l₂, z', ⟨hb'⟩, rfl, rfl, hrest⟩ := exists_amendedBlock h
    obtain ⟨bs', t', hl', rfl, hcontents⟩ := ih hrest
    exact ⟨b' :: bs', t', .closed (hb'.begins hb) (hb'.kind ▸ hb'.close.closes hc) hl',
      (textOf_cons _ _ _).symm, step hb' hrest hcontents⟩
  | broken hb hc =>
    rw [textOf_cons, textOf_nil] at h
    obtain ⟨b', l₁, l₂, z', ⟨hb'⟩, rfl, rfl, hrest⟩ := exists_amendedBlock h
    obtain rfl := hrest.eq_nil
    exact ⟨[b'], [], .broken (hb'.begins hb) (hb'.kind ▸ hb'.close.breaks hc),
      by rw [textOf_cons, textOf_nil], step hb' hrest rfl⟩

/-! ### Scripts -/

/-- The contents of the scripts of a source. -/
def contentsOf (source : List Char) : List (List Char) :=
  (scripts source).map fun e => e.content.of source

/-- The content of an element with the additions that lie in it. -/
def contentWith (source : List Char) (l : List (Nat × List Char)) (e : Element) : List Char :=
  pieceWith l (e.content.first, e.content.of source)

lemma contentsOf_textOf {bs : List Block} {t : List Char} (h : LaidOut bs t) :
    contentsOf (textOf bs t) = scriptContents bs := by
  have hcontents := congrArg (List.map Prod.snd) h.scripts_eq
  rwa [List.map_map, map_snd_scriptTexts] at hcontents

/-- **The scripts of an amended source.** -/
theorem Amends.contentsOf_eq {source : List Char} (h : Amends [] source l z) :
    contentsOf z = (scripts source).map (contentWith source l) := by
  obtain ⟨bs, t, hl, rfl⟩ := exists_laidOut source
  obtain ⟨bs', t', hl', rfl, hcontents⟩ := h.laidOut hl
  have hscripts := congrArg (List.map (pieceWith l)) hl.scripts_eq
  rw [contentsOf_textOf hl', hcontents, width_nil, ← hscripts, List.map_map]
  rfl

end Mender.Component
