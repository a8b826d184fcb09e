import Mender.Proofs.Component.Again
import Mender.Proofs.Component.AttributeNames

/-!
Texts that are read tag by tag.

Where each tag that opens is closed and nothing opens inside of it, a text is a row of signs and tags, and
it is the same row for both passes. A pass changes the tags of its name one by one and leaves the row a
row.
-/

namespace Mender.Component

open Mender.Text Mender.Markup

variable {j k : Fix} {body t u x y rest : List Char} {P : Fix → List Char → Prop}

/-! ### The tags of a text -/

instance {opening : List Char} : Decidable (Opened opening t) := decidable_of_iff _ opened_iff

/-- What stands behind the name of the tag that a text begins with, up to its end. -/
def Fix.bodyOf? (k : Fix) (t : List Char) : Option (List Char) :=
  (splitTag none 0 t).map fun p => p.1.drop k.opening.length

/-- Each tag that opens in the text is closed, and its body is as `P` says. -/
def EachTag (P : Fix → List Char → Prop) (t : List Char) : Prop :=
  ∀ s, s <:+ t → ∀ k : Fix, Opened k.opening s → ∃ body ∈ k.bodyOf? s, P k body

instance [∀ k, DecidablePred (P k)] : Decidable (EachTag P t) :=
  decidable_of_iff (∀ s ∈ t.tails, ∀ k : Fix, Opened k.opening s → ∃ body ∈ k.bodyOf? s, P k body)
    (by simp only [EachTag, List.mem_tails])

/-- No tag opens in the text, and no name of an element stands in it. -/
structure Clear (t : List Char) : Prop where
  tags : ∀ s, s <:+ t → ∀ k : Fix, ¬ Opened k.opening s
  names : ∀ k : Kind, Lacks k.opening t

instance : Decidable (Clear t) :=
  decidable_of_iff (∀ s ∈ t.tails, (∀ k : Fix, ¬ Opened k.opening s) ∧
      ∀ k ∈ [Kind.script, Kind.style], beginsWith k.opening s = false) <| by
    simp only [List.mem_tails]
    refine ⟨fun h => ⟨fun s hs => (h s hs).1, fun k s hs => (h s hs).2 k (by cases k <;> simp)⟩,
      fun h s hs => ⟨h.tags s hs, fun k _ => h.names k s hs⟩⟩

/-- Each tag is closed, and nothing opens inside of it. -/
abbrev Untangled (t : List Char) : Prop := EachTag (fun _ => Clear) t

lemma Fix.isTagName (k : Fix) : IsTagName k.opening := by
  cases k <;> exact ⟨rfl, by decide⟩

lemma Fix.lettered (k : Fix) : Lettered k.opening := by
  cases k <;> rfl

lemma Fix.adds (k : Fix) : ∀ s e, k.extra s = some e → IsAddition e := by
  cases k
  · exact IsAddition.of_image
  · exact IsAddition.of_link

lemma Opened.eq (hj : Opened j.opening t) (hk : Opened k.opening t) : j = k := by
  obtain ⟨c, r, rfl, -⟩ := hj
  obtain ⟨d, s, h, -⟩ := hk
  cases j <;> cases k
  · rfl
  · cases (List.cons.inj (List.cons.inj h).2).1
  · cases (List.cons.inj (List.cons.inj h).2).1
  · rfl

lemma Opened.startsTag (h : Opened k.opening t) : ∃ r, t = '<' :: r := by
  obtain ⟨c, r, rfl, -⟩ := h
  obtain ⟨m, hm⟩ := k.isOpening.exists_cons
  exact ⟨m ++ c :: r, by rw [hm]; rfl⟩

lemma IsTag.bodyOf? (h : IsTag k.opening body) (rest : List Char) :
    k.bodyOf? (k.opening ++ (body ++ rest)) = some body := by
  rw [Fix.bodyOf?, h.splitTag, Option.map_some, List.drop_left]

lemma exists_of_bodyOf? (ho : Opened k.opening t) (h : k.bodyOf? t = some body) :
    ∃ rest, t = k.opening ++ (body ++ rest) ∧ IsTag k.opening body := by
  obtain ⟨⟨tag, rest⟩, hp, rfl⟩ := Option.map_eq_some_iff.1 h
  obtain ⟨body, rfl, rfl, hbody⟩ := exists_isTag k.isOpening ho hp
  rw [List.drop_left]
  exact ⟨rest, rfl, hbody⟩

/-- A tag ends with a `>`. -/
lemma IsTag.loose {opening : List Char} (h : IsTag opening body) : Loose body := by
  have hlast := getLast?_of_splitTag h.ends
  refine Loose.of_append (x := opening) fun c hc => ?_
  rw [hlast, Option.mem_some_iff] at hc
  exact hc ▸ ⟨by decide, by decide⟩

/-! ### Texts that meet -/

/-- A tag that opens in the first text does so without the second. -/
def Meets (x y : List Char) : Prop := StartsTag y ∨ Loose x

lemma Meets.of_append (h : Meets (x ++ u) y) : Meets u y := h.imp_right Loose.of_append

lemma opened_append_iff (hne : x ≠ []) (h : Meets x y) : Opened k.opening (x ++ y) ↔ Opened k.opening x := by
  constructor
  · rintro ⟨c, r, hr, hc⟩
    have hlt : c ≠ '<' := by
      rintro rfl
      exact absurd hc (by decide)
    rcases List.append_eq_append_iff.1 hr with ⟨m, hm, rfl⟩ | ⟨m, rfl, hm⟩
    · rcases h with h | h
      · obtain ⟨d, x, rfl⟩ := List.exists_cons_of_ne_nil hne
        cases m with
        | nil => exact absurd (h c rfl) hlt
        | cons e m =>
          obtain rfl := h e rfl
          exact absurd (hm ▸ by simp : '<' ∈ k.opening.tail) k.isTagName.tail
      · exact absurd hm (k.lettered.getLast_notMem h hne)
    · cases m with
      | nil =>
        rw [List.append_nil] at h
        rcases h with h | h
        · obtain rfl : c :: r = y := hm
          exact absurd (h c rfl) hlt
        · exact absurd (List.append_nil _).symm
            (k.lettered.getLast_notMem h (by rw [← List.append_nil k.opening]; exact hne))
      | cons d m =>
        obtain ⟨rfl, -⟩ := List.cons.inj hm
        exact ⟨c, m, rfl, hc⟩
  · rintro ⟨c, r, rfl, hc⟩
    exact ⟨c, r ++ y, by simp, hc⟩

/-- No tag of the name opens in the first text when the second follows. -/
def Skips (k : Fix) (x y : List Char) : Prop := ∀ s, s <:+ x → s ≠ [] → ¬ Opened k.opening (s ++ y)

lemma Skips.tail {c : Char} (h : Skips k (c :: x) y) : Skips k x y :=
  fun s hs => h s (hs.trans (List.suffix_cons c x))

lemma Skips.head {c : Char} (h : Skips k (c :: x) y) : ¬ Opened k.opening (c :: (x ++ y)) :=
  h (c :: x) (List.suffix_refl _) (List.cons_ne_nil _ _)

lemma skips_append (hx : Skips k x (u ++ y)) (hu : Skips k u y) : Skips k (x ++ u) y := by
  induction x with
  | nil => exact hu
  | cons c x ih =>
    intro s hs hne
    rcases List.suffix_cons_iff.1 hs with rfl | hs
    · simpa using hx.head
    · exact ih hx.tail s hs hne

/-- Nothing opens in a body that is clear. -/
lemma Clear.skips (hc : Clear body) (h : IsTag j.opening body) (rest : List Char) : Skips k body rest := by
  intro s hs hne
  have hloose : Loose s := by
    obtain ⟨x, rfl⟩ := hs
    exact h.loose.of_append
  exact mt (opened_append_iff hne (.inr hloose)).1 (hc.tags s hs k)

/-- Nothing opens behind the first sign of a tag. -/
lemma IsTag.skips_tail (h : IsTag j.opening body) (hc : Clear body) (rest : List Char) :
    Skips k (j.opening.tail ++ body) rest := by
  refine skips_append (fun s hs hne ho => ?_) (hc.skips h rest)
  obtain ⟨c, s, rfl⟩ := List.exists_cons_of_ne_nil hne
  obtain ⟨r, hr⟩ := ho.startsTag
  obtain ⟨rfl, -⟩ := List.cons.inj hr
  exact j.isTagName.tail (hs.subset List.mem_cons_self)

/-- No tag of another name opens in a tag. -/
lemma IsTag.skips (h : IsTag j.opening body) (hc : Clear body) (hne : j ≠ k) (rest : List Char) :
    Skips k (j.opening ++ body) rest := by
  have hopened := h.opened rest
  have htail := h.skips_tail (k := k) hc rest
  obtain ⟨m, hm⟩ := j.isOpening.exists_cons
  rw [hm, List.tail_cons] at htail
  intro s hs hs' ho
  rw [hm, List.cons_append] at hs
  rcases List.suffix_cons_iff.1 hs with rfl | hs
  · refine hne (hopened.eq ?_)
    rwa [hm, ← List.append_assoc]
  · exact htail s hs hs' ho

lemma EachTag.congr {Q R : Fix → List Char → Prop} (h : EachTag R t)
    (hpq : ∀ k body, IsTag k.opening body → R k body → (P k body ↔ Q k body)) :
    EachTag P t ↔ EachTag Q t := by
  refine forall₂_congr fun s hs => forall₂_congr fun k ho => ?_
  obtain ⟨body, hbody, hr⟩ := h s hs k ho
  obtain ⟨_, -, htag⟩ := exists_of_bodyOf? ho hbody
  have hiff := hpq k body htag hr
  constructor <;> rintro ⟨b, hb, hp⟩
  · obtain rfl := Option.mem_unique hb hbody
    exact ⟨b, hb, hiff.1 hp⟩
  · obtain rfl := Option.mem_unique hb hbody
    exact ⟨b, hb, hiff.2 hp⟩

/-! ### Rows of signs and tags -/

/-- A sign that no tag opens with, or a tag of a name. -/
inductive Token
  | sign (c : Char)
  | tag (k : Fix) (body : List Char)

def Token.text : Token → List Char
  | sign c => [c]
  | tag k body => k.opening ++ body

/-- The text of a row. -/
def spell (ts : List Token) : List Char := ts.flatMap Token.text

@[simp] lemma spell_nil : spell [] = [] := rfl

@[simp] lemma spell_sign (c : Char) (ts : List Token) : spell (.sign c :: ts) = c :: spell ts := rfl

@[simp] lemma spell_tag (k : Fix) (body : List Char) (ts : List Token) :
    spell (.tag k body :: ts) = k.opening ++ (body ++ spell ts) := List.append_assoc _ _ _

lemma spell_append (xs ys : List Token) : spell (xs ++ ys) = spell xs ++ spell ys := List.flatMap_append

/-- The row is the one that its text is read as. -/
inductive Legible : List Token → Prop
  | nil : Legible []
  | sign {c : Char} {ts : List Token} (h : ∀ k : Fix, ¬ Opened k.opening (c :: spell ts))
    (ht : Legible ts) : Legible (.sign c :: ts)
  | tag {k : Fix} {body : List Char} {ts : List Token} (h : IsTag k.opening body) (hc : Clear body)
    (ht : Legible ts) : Legible (.tag k body :: ts)

lemma eachTag_nil : EachTag P [] := by
  intro s hs k ho
  obtain ⟨r, rfl⟩ := ho.startsTag
  exact absurd (List.suffix_nil.1 hs) (List.cons_ne_nil _ _)

lemma eachTag_cons {c : Char} : EachTag P (c :: t) ↔
    (∀ k : Fix, Opened k.opening (c :: t) → ∃ body ∈ k.bodyOf? (c :: t), P k body) ∧ EachTag P t := by
  constructor
  · exact fun h => ⟨h _ (List.suffix_refl _), fun s hs => h s (hs.trans (List.suffix_cons c t))⟩
  · rintro ⟨h, ht⟩ s hs
    rcases List.suffix_cons_iff.1 hs with rfl | hs
    · exact h
    · exact ht s hs

lemma eachTag_skip (h : ∀ k, Skips k x y) : EachTag P (x ++ y) ↔ EachTag P y := by
  induction x with
  | nil => rfl
  | cons c x ih =>
    rw [List.cons_append, eachTag_cons, ih fun k => (h k).tail]
    exact and_iff_right fun k ho => absurd ho (h k).head

lemma eachTag_tag (h : IsTag k.opening body) (hc : Clear body) :
    EachTag P (k.opening ++ (body ++ t)) ↔ P k body ∧ EachTag P t := by
  have hopened := h.opened t
  have hbody := h.bodyOf? t
  have hname : ∀ j, Skips j (k.opening.tail ++ body) t := fun _ => h.skips_tail hc t
  obtain ⟨m, hm⟩ := k.isOpening.exists_cons
  rw [hm, List.cons_append] at hopened hbody
  rw [hm, List.tail_cons] at hname
  rw [hm, List.cons_append, eachTag_cons, ← List.append_assoc, eachTag_skip hname,
    List.append_assoc]
  refine and_congr_left fun _ => ⟨fun hall => ?_, fun hp j hj => ?_⟩
  · obtain ⟨b, hb, hp⟩ := hall k (hm ▸ hopened)
    rw [hbody, Option.mem_some_iff] at hb
    exact hb ▸ hp
  · obtain rfl := hj.eq (hm ▸ hopened : Opened k.opening _)
    exact ⟨body, hbody, hp⟩

/-- **The tags of a row** are those of its text. -/
theorem Legible.eachTag_iff {ts : List Token} (h : Legible ts) :
    EachTag P (spell ts) ↔ ∀ k body, Token.tag k body ∈ ts → P k body := by
  induction h with
  | nil => exact iff_of_true eachTag_nil fun k body h => nomatch h
  | sign h _ ih =>
    rw [spell_sign, eachTag_cons, ih]
    simp only [List.mem_cons, reduceCtorEq, false_or]
    exact and_iff_right fun k ho => absurd ho (h k)
  | @tag k body ts h hc _ ih =>
    rw [spell_tag, eachTag_tag h hc, ih]
    constructor
    · rintro ⟨hp, hts⟩ j b hmem
      rcases List.mem_cons.1 hmem with heq | hmem
      · obtain ⟨rfl, rfl⟩ := Token.tag.inj heq
        exact hp
      · exact hts j b hmem
    · exact fun hall => ⟨hall k body List.mem_cons_self,
        fun j b hmem => hall j b (List.mem_cons_of_mem _ hmem)⟩

lemma Legible.untangled {ts : List Token} (h : Legible ts) : Untangled (spell ts) := by
  refine h.eachTag_iff.2 ?_
  induction h with
  | nil => exact fun k body h => nomatch h
  | sign _ _ ih => exact fun k body hmem => ih k body (by simpa using hmem)
  | tag _ hc _ ih =>
    intro k body hmem
    rcases List.mem_cons.1 hmem with heq | hmem
    · exact (Token.tag.inj heq).2 ▸ hc
    · exact ih k body hmem

/-- **Every text without tangles** is that of a row. -/
theorem exists_legible (h : Untangled t) : ∃ ts, Legible ts ∧ spell ts = t := by
  induction hn : t.length using Nat.strongRecOn generalizing t with
  | ind n ih =>
    by_cases ho : ∃ k : Fix, Opened k.opening t
    · obtain ⟨k, hk⟩ := ho
      obtain ⟨body, hbody, hclear⟩ := h t (List.suffix_refl t) k hk
      obtain ⟨rest, rfl, htag⟩ := exists_of_bodyOf? hk hbody
      obtain ⟨c, r, hcons, -⟩ := htag.named
      obtain ⟨ts, hts, rfl⟩ := ih rest.length (by rw [← hn, hcons]; simp; omega)
        ((eachTag_tag htag hclear).1 h).2 rfl
      exact ⟨.tag k body :: ts, .tag htag hclear hts, spell_tag k body ts⟩
    · cases t with
      | nil => exact ⟨[], .nil, rfl⟩
      | cons c t =>
        obtain ⟨ts, hts, rfl⟩ := ih t.length (by rw [← hn]; simp) (eachTag_cons.1 h).2 rfl
        exact ⟨.sign c :: ts, .sign (not_exists.1 ho) hts, rfl⟩

/-- Rows whose texts meet are one row. -/
lemma Legible.append {xs ys : List Token} (hx : Legible xs) (hy : Legible ys)
    (h : Meets (spell xs) (spell ys)) : Legible (xs ++ ys) := by
  induction hx with
  | nil => exact hy
  | @sign c xs hc _ ih =>
    rw [List.cons_append]
    refine .sign (fun k => ?_) (ih (Meets.of_append (x := [c]) h))
    rw [spell_append, ← List.cons_append]
    exact mt (opened_append_iff (List.cons_ne_nil _ _) h).1 (hc k)
  | @tag k body xs hb hc _ ih =>
    refine .tag hb hc (ih ?_)
    rw [spell_tag, ← List.append_assoc] at h
    exact h.of_append

/-! ### Passes -/

/-- The body of a tag behind a pass. -/
def Fix.amend (k j : Fix) (body : List Char) : List Char :=
  if j = k then amendedBody k.extra body else body

/-- A token behind a pass. -/
def Token.amend (k : Fix) : Token → Token
  | sign c => sign c
  | tag j body => tag j (k.amend j body)

/-- The row behind a pass. -/
def amendRow (k : Fix) (ts : List Token) : List Token := ts.map (Token.amend k)

@[simp] lemma amendRow_nil : amendRow k [] = [] := rfl

@[simp] lemma amendRow_sign (c : Char) (ts : List Token) :
    amendRow k (.sign c :: ts) = .sign c :: amendRow k ts := rfl

lemma amendRow_same (body : List Char) (ts : List Token) :
    amendRow k (.tag k body :: ts) = .tag k (amendedBody k.extra body) :: amendRow k ts := by
  rw [amendRow, List.map_cons, Token.amend, Fix.amend, if_pos rfl]
  rfl

lemma amendRow_other (h : j ≠ k) (body : List Char) (ts : List Token) :
    amendRow k (.tag j body :: ts) = .tag j body :: amendRow k ts := by
  rw [amendRow, List.map_cons, Token.amend, Fix.amend, if_neg h]
  rfl

lemma amendRow_append (xs ys : List Token) : amendRow k (xs ++ ys) = amendRow k xs ++ amendRow k ys :=
  List.map_append

/-- What starts with a `<` in the widened text does so in the text. -/
lemma Widened.exists_suffix {z : List Char} (h : Widened x y) (hz : '<' :: z <:+ y) :
    ∃ s, s <:+ x ∧ Widened s ('<' :: z) := by
  induction h with
  | nil => exact absurd (List.suffix_nil.1 hz) (List.cons_ne_nil _ _)
  | @keep x y c h ih =>
    rcases List.suffix_cons_iff.1 hz with heq | hz
    · exact ⟨c :: x, List.suffix_refl _, heq ▸ .keep c h⟩
    · obtain ⟨s, hs, hw⟩ := ih hz
      exact ⟨s, hs.trans (List.suffix_cons c x), hw⟩
  | @put x y e c he hc h ih =>
    rcases List.suffix_cons_iff.1 (suffix_of_notMem he.isExtra.notMem hz) with heq | hz
    · exact ⟨c :: x, List.suffix_refl _, heq ▸ .keep c h⟩
    · obtain ⟨s, hs, hw⟩ := ih hz
      exact ⟨s, hs.trans (List.suffix_cons c x), hw⟩

/-- The name of an element has no sign that ends the name of a tag. -/
lemma any_endsTagName_of_isName {kind : Kind} {m : List Char} (hm : IsName kind.opening m) :
    m.any endsTagName = false := by
  refine List.any_eq_false.2 fun c hc hends => ?_
  have hlower : endsTagName c.toLower = true := by
    simp only [endsTagName, Bool.or_eq_true, beq_iff_eq] at hends ⊢
    rcases hends with (h | rfl) | rfl
    · exact .inl (.inl (isBlank_toLower h))
    · exact .inl (.inr (by decide))
    · exact .inr (by decide)
  have hmem : c.toLower ∈ kind.opening := hm ▸ List.mem_map_of_mem (f := Char.toLower) hc
  have hnone : kind.opening.any endsTagName = false := by cases kind <;> decide
  exact List.any_eq_false.1 hnone _ hmem hlower

/-- What is added opens nothing. -/
lemma Clear.widened (hx : Clear x) (h : Widened x y) : Clear y where
  tags := by
    intro s hs k ho
    obtain ⟨r, rfl⟩ := ho.startsTag
    obtain ⟨s, hs, hw⟩ := h.exists_suffix hs
    exact hx.tags s hs k ((hw.opened_iff k.isOpening).1 ho)
  names := by
    intro kind s hs
    rw [Bool.eq_false_iff]
    intro hb
    obtain ⟨r, rfl⟩ := startsTag_of_beginsWith (isTagName_opening kind) hb
    obtain ⟨s, hs, hw⟩ := h.exists_suffix hs
    obtain ⟨m, v, hv, hm⟩ := beginsWith_iff.1 hb
    rw [hv] at hw
    obtain ⟨u, rfl, -⟩ := hw.of_name (any_endsTagName_of_isName hm)
    exact Bool.eq_false_iff.1 (hx.names kind _ hs) (beginsWith_iff.2 ⟨m, u, rfl, hm⟩)

namespace Legible

variable {ts : List Token}

lemma widened (h : Legible ts) (k : Fix) : Widened (spell ts) (spell (amendRow k ts)) := by
  induction h with
  | nil => exact .nil
  | sign _ _ ih => exact .keep _ ih
  | @tag j body ts h _ _ ih =>
    by_cases heq : j = k
    · subst heq
      rw [amendRow_same, spell_tag, spell_tag]
      exact .keeps _ (h.widened_append j.adds ih)
    · rw [amendRow_other heq, spell_tag, spell_tag]
      exact .keeps _ (.keeps _ ih)

/-- A pass leaves a row a row. -/
lemma amended (h : Legible ts) (k : Fix) : Legible (amendRow k ts) := by
  induction h with
  | nil => exact .nil
  | @sign c ts hc h ih =>
    have hwidened : Widened (c :: spell ts) (c :: spell (amendRow k ts)) := .keep c (h.widened k)
    exact .sign (fun j => mt (hwidened.opened_iff j.isOpening).1 (hc j)) ih
  | @tag j body ts h hc _ ih =>
    by_cases heq : j = k
    · subst heq
      have hbody := h.widened j.adds
      rw [amendRow_same]
      exact .tag (hbody.isTag h) (hc.widened hbody) ih
    · rw [amendRow_other heq]
      exact .tag h hc ih

end Legible

lemma additions_skips (h : Skips k x y) (place : Nat) :
    additions k.opening k.extra 0 place (x ++ y) = additions k.opening k.extra 0 (place + width x) y := by
  induction x generalizing place with
  | nil => rfl
  | cons c x ih =>
    rw [List.cons_append, additions_char h.head, ih h.tail, width_cons, Nat.add_assoc]

/-- The name of a tag is none of an element. -/
lemma not_isName_append {kind : Kind} (x : List Char) : ¬ IsName kind.opening (k.opening ++ x) := by
  intro h
  have hsecond {c d : Char} {m r : List Char} (h : '<' :: c :: m = '<' :: d :: r) : c = d :=
    (List.cons.inj (List.cons.inj h).2).1
  cases k <;> cases kind <;> exact absurd (hsecond h) (by decide)

/-- A name at the end of a tag's attributes is a part of them. -/
lemma suffix_of_isName {kind : Kind} {a m p : List Char} (hm : IsName kind.opening m)
    (h : a ++ (k.opening ++ x) = p ++ m) : m <:+ x := by
  have htail : '<' ∉ m.tail := by
    intro hmem
    refine (isTagName_opening kind).tail ?_
    rw [← hm, ← List.map_tail]
    exact List.mem_map_of_mem (f := Char.toLower) hmem
  obtain ⟨r, hr⟩ := k.isOpening.exists_cons
  rcases List.append_eq_append_iff.1 h with ⟨q, -, hq⟩ | ⟨q, -, rfl⟩
  · rcases List.append_eq_append_iff.1 hq with ⟨b, -, rfl⟩ | ⟨b, hb, rfl⟩
    · exact ⟨b, rfl⟩
    · cases b with
      | nil => exact List.suffix_refl x
      | cons e b =>
        obtain ⟨s, hs⟩ := startsTag_of_beginsWith (isTagName_opening kind)
          (beginsWith_iff.2 ⟨_, [], (List.append_nil _).symm, hm⟩)
        obtain rfl : e = '<' := (List.cons.inj hs).1
        cases q with
        | nil =>
          have hopening : '<' :: b = k.opening := hb.symm
          exact absurd (hopening ▸ hm) (not_isName_append x)
        | cons d q => exact absurd (by rw [hb]; simp) k.isTagName.tail
  · cases q with
    | nil => exact absurd hm (not_isName_append x)
    | cons d q => exact absurd (by rw [hr]; simp) htail

/-- What is put into a tag whose body is clear completes no name. -/
lemma completes_eq_false {a w : List Char} {d : Char} (hc : Clear (x ++ d :: w)) :
    completes (a ++ (k.opening ++ x)) d = false := by
  by_contra hcompletes
  rw [Bool.not_eq_false, completes, Bool.and_eq_true, List.any_eq_true] at hcompletes
  obtain ⟨-, kind, -, hm⟩ := hcompletes
  obtain ⟨u, hu⟩ := suffix_of_isName (beq_iff_eq.1 hm) (List.take_append_drop _ _).symm
  have hlacks := hc.names kind _ ⟨u, by rw [← List.append_assoc, hu]⟩
  exact Bool.eq_false_iff.1 hlacks (beginsWith_iff.2 ⟨_, d :: w, rfl, beq_iff_eq.1 hm⟩)

/-- A tag with what is added to it, in front of a text that is amended. -/
lemma IsTag.amends {a z : List Char} {l : List (Nat × List Char)} (h : IsTag k.opening body) (hc : Clear body)
    (hrest : Amends (a ++ (k.opening ++ body)) rest l z) :
    Amends a (k.opening ++ (body ++ rest))
      ((k.extra (attributesOf body.dropLast)).toList.map
        (width a + width (k.opening ++ attributesOf body.dropLast), ·) ++ l)
      (k.opening ++ (amendedBody k.extra body ++ z)) := by
  obtain ⟨w, hw, -, hcloses⟩ := h.exists_attributes
  rw [amendedBody_eq hw]
  generalize attributesOf body.dropLast = attributes at hw ⊢
  obtain ⟨d, v, hv⟩ : ∃ d v, w ++ ['>'] = d :: v := List.exists_cons_of_ne_nil (by simp)
  have hends : EndsTag (d :: (v ++ rest)) := by
    have hrow := hcloses rest
    rw [List.append_cons, hv] at hrow
    exact endsTag_of_closesTag (List.cons_ne_nil _ _) hrow
  rw [hv] at hw
  subst hw
  have hkept : Amends (a ++ k.opening ++ attributes ++ [d]) (v ++ rest) l (v ++ z) := by
    refine .keeps v ?_
    simpa using hrest
  rw [hv]
  simp only [List.append_assoc, List.cons_append]
  refine .keeps _ (.keeps _ ?_)
  cases he : k.extra attributes with
  | none => exact .keep d hkept
  | some e =>
    have hno : completes (a ++ k.opening ++ attributes) d = false := by
      rw [List.append_assoc]
      exact completes_eq_false hc
    have hput := Amends.put (k.adds _ _ he).isExtra hends hno hkept
    simpa [width_append, Nat.add_assoc] using hput

/-- **A pass over a row** goes from tag to tag. -/
theorem Legible.amends {ts : List Token} (h : Legible ts) (k : Fix) (a : List Char) :
    Amends a (spell ts) (additions k.opening k.extra 0 (width a) (spell ts)) (spell (amendRow k ts)) := by
  induction h generalizing a with
  | nil => exact .nil a
  | @sign c ts hc _ ih =>
    have hrest := ih (a ++ [c])
    rw [width_append] at hrest
    rw [spell_sign, amendRow_sign, spell_sign, additions_char (hc k)]
    exact .keep c hrest
  | @tag j body ts h hc _ ih =>
    have hrest := ih (a ++ (j.opening ++ body))
    rw [width_append] at hrest
    by_cases heq : j = k
    · subst heq
      rw [amendRow_same, spell_tag, spell_tag, additions_isTag j.isOpening h]
      exact h.amends hc hrest
    · rw [amendRow_other heq, spell_tag, spell_tag, ← List.append_assoc, ← List.append_assoc,
        additions_skips (h.skips hc heq _)]
      exact hrest.keeps _

/-- A pass over a text. -/
def Fix.pass (k : Fix) (t : List Char) : List Char := withAdditions t (additions k.opening k.extra 0 0 t)

lemma Legible.pass_spell {ts : List Token} (h : Legible ts) (k : Fix) :
    k.pass (spell ts) = spell (amendRow k ts) :=
  withAdditions_eq (h.amends k [])

namespace Untangled

lemma widened (h : Untangled t) (k : Fix) : Widened t (k.pass t) := by
  obtain ⟨ts, hts, rfl⟩ := exists_legible h
  rw [hts.pass_spell]
  exact hts.widened k

lemma exists_amends (h : Untangled t) (k : Fix) : ∃ l, Amends [] t l (k.pass t) := by
  obtain ⟨ts, hts, rfl⟩ := exists_legible h
  rw [hts.pass_spell]
  exact ⟨_, hts.amends k []⟩

lemma pass (h : Untangled t) (k : Fix) : Untangled (k.pass t) := by
  obtain ⟨ts, hts, rfl⟩ := exists_legible h
  rw [hts.pass_spell]
  exact (hts.amended k).untangled

/-- Texts that meet are read one after the other. -/
lemma append (hx : Untangled x) (hy : Untangled y) (h : Meets x y) : Untangled (x ++ y) := by
  obtain ⟨xs, hxs, rfl⟩ := exists_legible hx
  obtain ⟨ys, hys, rfl⟩ := exists_legible hy
  rw [← spell_append]
  exact (hxs.append hys h).untangled

lemma pass_append (hx : Untangled x) (hy : Untangled y) (h : Meets x y) (k : Fix) :
    k.pass (x ++ y) = k.pass x ++ k.pass y := by
  obtain ⟨xs, hxs, rfl⟩ := exists_legible hx
  obtain ⟨ys, hys, rfl⟩ := exists_legible hy
  rw [← spell_append, (hxs.append hys h).pass_spell, hxs.pass_spell, hys.pass_spell, amendRow_append,
    spell_append]

/-- **The tags behind a pass** are those of the text, each with what is added to it. -/
theorem eachTag_pass_iff (h : Untangled t) (k : Fix) :
    EachTag P (k.pass t) ↔ EachTag (fun j body => P j (k.amend j body)) t := by
  obtain ⟨ts, hts, rfl⟩ := exists_legible h
  rw [hts.pass_spell, (hts.amended k).eachTag_iff, hts.eachTag_iff]
  constructor
  · exact fun hall j body hmem => hall j _ (List.mem_map_of_mem (f := Token.amend k) hmem)
  · intro hall j body hmem
    obtain ⟨token, htoken, heq⟩ := List.mem_map.1 hmem
    cases token with
    | sign c => cases heq
    | tag i b =>
      obtain ⟨rfl, rfl⟩ := Token.tag.inj heq
      exact hall i b htoken

end Untangled

end Mender.Component
