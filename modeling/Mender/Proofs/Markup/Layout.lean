import Mathlib.Data.List.Infix
import Mathlib.Tactic.Common
import Mathlib.Tactic.Lemma
import Mender.Markup.ComponentTag
import Mender.Proofs.Markup.Tag
import Mender.Proofs.Text.Width

/-!
How a source falls into elements and what lies between them.

A source is a row of blocks, each an element with the text in front of it, and a tail without
elements. Every part of a block has a law of its own, so a block is known again after one of its
parts was changed.
-/

namespace Mender.Markup

open Mender.Text

/-- An element in three parts, with the text in front of it. -/
structure Block where
  gap : List Char
  kind : Kind
  tag : List Char
  content : List Char
  close : List Char

namespace Block

def element (b : Block) : List Char := b.tag ++ (b.content ++ b.close)

def text (b : Block) : List Char := b.gap ++ b.element

/-- The element of a block that starts at `place`. -/
def toElement (place : Nat) (b : Block) : Element where
  kind := b.kind
  openTag := ⟨place + width b.gap, place + width b.gap + width b.tag⟩
  content :=
    ⟨place + width b.gap + width b.tag, place + width b.gap + width b.tag + width b.content⟩
  stop := place + width b.gap + width b.tag + width b.content + width b.close
  isModule := marksModule b.tag

/-- A script that is no module script. -/
def isInstance (b : Block) : Bool := b.kind == .script && !marksModule b.tag

end Block

/-- No element opens in the text. -/
def Quiet (t : List Char) : Prop := ∀ s, s <:+ t → ∀ k, ¬ Opens k s

/-- Nothing opens in the text in front of the other one. -/
def Passes (a r : List Char) : Prop := ∀ s, s <:+ a → s ≠ [] → ∀ k, ¬ Opens k (s ++ r)

/-- A name begins nowhere in the text. -/
def Lacks (name t : List Char) : Prop := ∀ s, s <:+ t → beginsWith name s = false

/-- A closing tag that is whole. -/
structure Closes (k : Kind) (t : List Char) : Prop where
  name : beginsWith k.closing t = true
  tag : splitTag none 0 t = some (t, [])

/-- What stands in the place of a closing tag at the end of a source. -/
structure Breaks (k : Kind) (t : List Char) : Prop where
  name : t = [] ∨ beginsWith k.closing t = true
  tag : splitTag none 0 t = none

namespace Block

/-- The block starts as its element does; how it ends depends on what follows. -/
structure Begins (b : Block) : Prop where
  gap : Quiet b.gap
  opens : Opens b.kind b.tag
  tag : splitTag none 0 b.tag = some (b.tag, [])
  content : Lacks b.kind.closing b.content

end Block

/-- The text of some blocks and a tail. -/
def textOf (bs : List Block) (tail : List Char) : List Char := bs.flatMap Block.text ++ tail

/-- No element is found in the text, though its end may be an opening tag that is not closed. -/
inductive Bare : List Char → Prop
  | quiet {t : List Char} (h : Quiet t) : Bare t
  | unclosed {gap rest : List Char} {k : Kind} (hg : Quiet gap) (ho : Opens k rest)
      (ht : splitTag none 0 rest = none) : Bare (gap ++ rest)

/-- The blocks and the tail are those of their text. -/
inductive LaidOut : List Block → List Char → Prop
  | tail {t : List Char} (h : Bare t) : LaidOut [] t
  | closed {b : Block} {bs : List Block} {t : List Char} (hb : b.Begins) (hc : Closes b.kind b.close)
      (h : LaidOut bs t) : LaidOut (b :: bs) t
  | broken {b : Block} (hb : b.Begins) (hc : Breaks b.kind b.close) : LaidOut [b] []

lemma LaidOut.begins {bs : List Block} {t : List Char} (h : LaidOut bs t) : ∀ b ∈ bs, b.Begins := by
  induction h with
  | tail h => exact fun b hb => nomatch hb
  | closed hb _ _ ih => exact List.forall_mem_cons.2 ⟨hb, ih⟩
  | broken hb _ => exact List.forall_mem_cons.2 ⟨hb, fun b hb => nomatch hb⟩

@[simp] lemma textOf_nil (t : List Char) : textOf [] t = t := rfl

@[simp] lemma textOf_cons (b : Block) (bs : List Block) (t : List Char) :
    textOf (b :: bs) t = b.gap ++ (b.tag ++ (b.content ++ (b.close ++ textOf bs t))) := by
  simp [textOf, Block.text, Block.element]

lemma Lacks.suffix {name s t : List Char} (h : Lacks name t) (hs : s <:+ t) : Lacks name s :=
  fun r hr => h r (hr.trans hs)

/-- A name begins nowhere if it stands nowhere. -/
lemma lacks_iff {name t : List Char} : Lacks name t ↔ ∀ m, IsName name m → ¬ m <:+: t := by
  constructor
  · intro h m hm hi
    obtain ⟨s, hp, hs⟩ := List.infix_iff_prefix_suffix.1 hi
    obtain ⟨r, rfl⟩ := hp
    exact Bool.eq_false_iff.1 (h _ hs) (beginsWith_iff.2 ⟨m, r, rfl, hm⟩)
  · intro h s hs
    rw [Bool.eq_false_iff]
    intro hb
    obtain ⟨m, r, rfl, hm⟩ := beginsWith_iff.1 hb
    exact h m hm ((List.prefix_append m r).isInfix.trans hs.isInfix)

lemma quiet_nil : Quiet [] := by
  intro s hs k hk
  obtain ⟨m, c, r, hm, -⟩ := hk
  rw [List.suffix_nil.1 hs] at hm
  simp at hm

lemma passes_nil_iff {a : List Char} : Passes a [] ↔ Quiet a := by
  constructor
  · intro h s hs k hk
    have hne : s ≠ [] := by
      rintro rfl
      exact quiet_nil [] (List.suffix_refl _) k hk
    exact h s hs hne k (by rwa [List.append_nil])
  · intro h s hs _ k hk
    rw [List.append_nil] at hk
    exact h s hs k hk

lemma Passes.append {a b r : List Char} (ha : Passes a (b ++ r)) (hb : Passes b r) :
    Passes (a ++ b) r := by
  intro s hs hne k
  rcases List.suffix_or_suffix_of_suffix hs (List.suffix_append a b) with h | ⟨s', rfl⟩
  · exact hb s h hne k
  · rw [List.append_assoc]
    rcases eq_or_ne s' [] with rfl | hne'
    · rcases eq_or_ne b [] with rfl | hb'
      · exact absurd rfl hne
      · exact hb b (List.suffix_refl _) hb' k
    · obtain ⟨x, hx⟩ := hs
      rw [← List.append_assoc] at hx
      exact ha s' ⟨x, List.append_cancel_right hx⟩ hne' k

/-- An opening tag needs no other tag behind it. -/
lemma Quiet.passes {a r : List Char} (ha : Quiet a) (hr : StartsTag r) : Passes a r :=
  fun s hs hne k hk => ha s hs k ((opens_append_iff hne hr).1 hk)

/-! ### Reading the elements of a row of blocks -/

/-- The content ends where the closing tag begins. -/
lemma splitBefore_content {name content rest : List Char} (hn : IsTagName name)
    (hc : Lacks name content) (hr : rest = [] ∨ beginsWith name rest = true) :
    splitBefore name (content ++ rest) = (content, rest) := by
  induction content with
  | nil =>
    rcases hr with rfl | hr
    · rfl
    · obtain ⟨r, rfl⟩ := startsTag_of_beginsWith hn hr
      rw [List.nil_append, splitBefore, if_pos hr]
  | cons c content ih =>
    have hstart : StartsTag rest := by
      rcases hr with rfl | hr
      · exact startsTag_nil
      · obtain ⟨r, rfl⟩ := startsTag_of_beginsWith hn hr
        exact startsTag_cons r
    have hhead : beginsWith name (c :: (content ++ rest)) = false := by
      rw [← List.cons_append, beginsWith_tag_append hn (List.cons_ne_nil _ _) hstart]
      exact hc _ (List.suffix_refl _)
    have hrest := ih fun s hs => hc s (hs.trans (List.suffix_cons _ _))
    rw [List.cons_append, splitBefore, hhead, hrest]
    rfl

lemma elementsFrom_skip (n place : Nat) (t : List Char) :
    elementsFrom n place t = elementsFrom 0 (place + width (t.take n)) (t.drop n) := by
  induction n generalizing place t with
  | zero => simp
  | succ n ih =>
    cases t with
    | nil => simp [elementsFrom]
    | cons c t =>
      rw [elementsFrom, ih, List.take_succ_cons, List.drop_succ_cons, width_cons, Nat.add_assoc]

/-- Nothing is found in a text that the rest does not complete. -/
lemma elementsFrom_pass {a r : List Char} (h : Passes a r) (place : Nat) :
    elementsFrom 0 place (a ++ r) = elementsFrom 0 (place + width a) r := by
  induction a generalizing place with
  | nil => simp
  | cons c a ih =>
    have hnone : opens? (c :: (a ++ r)) = none :=
      opens?_eq_none_iff.2 (h (c :: a) (List.suffix_refl _) (List.cons_ne_nil _ _))
    have hpass : Passes a r := fun s hs => h s (hs.trans (List.suffix_cons _ _))
    rw [List.cons_append, elementsFrom, hnone]
    simp only [ih hpass, width_cons, Nat.add_assoc]

/-- Nothing is found in a quiet text. -/
lemma elementsFrom_quiet {gap rest : List Char} (hg : Quiet gap) (hr : StartsTag rest) (place : Nat) :
    elementsFrom 0 place (gap ++ rest) = elementsFrom 0 (place + width gap) rest :=
  elementsFrom_pass (hg.passes hr) place

lemma Opens.startsTag {k : Kind} {t : List Char} (h : Opens k t) : StartsTag t := by
  obtain ⟨r, rfl⟩ := startsTag_of_beginsWith (isTagName_opening k) h.beginsWith
  exact startsTag_cons r

lemma Block.Begins.startsTag {b : Block} (hb : b.Begins) (r : List Char) : StartsTag (b.tag ++ r) :=
  (hb.opens.append r).startsTag

/-- What follows the content of a block. -/
def Ends (k : Kind) (close rest : List Char) : Prop :=
  Closes k close ∨ Breaks k close ∧ rest = []

lemma splitElement_block {b : Block} (hb : b.Begins) {rest : List Char}
    (hc : Ends b.kind b.close rest) :
    splitElement? b.kind (b.tag ++ (b.content ++ (b.close ++ rest))) =
      some (b.tag, b.content, b.close) := by
  have hclose : b.close ++ rest = [] ∨ beginsWith b.kind.closing (b.close ++ rest) = true := by
    rcases hc with hc | ⟨hc, rfl⟩
    · exact .inr (beginsWith_append hc.name rest)
    · rw [List.append_nil]
      exact hc.name
  have hstop : ((splitTag none 0 (b.close ++ rest)).map (·.1)).getD (b.close ++ rest) = b.close := by
    rcases hc with hc | ⟨hc, rfl⟩
    · rw [splitTag_append hc.tag]
      rfl
    · rw [List.append_nil, hc.tag]
      rfl
  rw [splitElement?, splitTag_append hb.tag, List.nil_append, Option.map_some]
  simp only [splitBefore_content (isTagName_closing b.kind) hb.content hclose, hstop]

/-- An element is found where it opens. -/
lemma elementsFrom_block {b : Block} (hb : b.Begins) {rest : List Char}
    (hc : Ends b.kind b.close rest) (place : Nat) :
    elementsFrom 0 (place + width b.gap) (b.tag ++ (b.content ++ (b.close ++ rest))) =
      b.toElement place :: elementsFrom 0 (b.toElement place).stop rest := by
  have hsplit := splitElement_block hb hc
  have hopens := opens?_eq_some_iff.2 (hb.opens.append (b.content ++ (b.close ++ rest)))
  obtain ⟨c, tag, htag⟩ : ∃ c tag, b.tag = c :: tag := by
    obtain ⟨m, d, r, hm, -⟩ := hb.opens
    exact List.exists_cons_of_ne_nil (by rw [hm]; simp)
  have hskip := elementsFrom_skip (tag ++ b.content ++ b.close).length
    (place + width b.gap + c.utf8Size) (tag ++ b.content ++ b.close ++ rest)
  rw [List.take_left, List.drop_left] at hskip
  rw [htag, List.cons_append] at hopens hsplit ⊢
  rw [elementsFrom, hopens]
  simp only [hsplit]
  have hlength : (c :: tag).length + b.content.length + b.close.length - 1 =
      (tag ++ b.content ++ b.close).length := by
    simp only [List.length_append, List.length_cons]
    omega
  have hstop : (b.toElement place).stop =
      place + width b.gap + c.utf8Size + width (tag ++ b.content ++ b.close) := by
    simp only [Block.toElement, htag, width_append, width_cons]
    omega
  rw [hlength, ← List.append_assoc b.content, ← List.append_assoc tag, ← List.append_assoc tag,
    hskip, hstop]
  simp only [Block.toElement, htag]

/-- The elements of some blocks, the first of which starts at `place`. -/
def places : (place : Nat) → List Block → List Element
  | _, [] => []
  | place, b :: bs => b.toElement place :: places (b.toElement place).stop bs

lemma elementsFrom_nil (n place : Nat) : elementsFrom n place [] = [] := by
  cases n <;> rfl

lemma elementsFrom_bare {t : List Char} (h : Bare t) (place : Nat) :
    elementsFrom 0 place t = [] := by
  cases h with
  | quiet h =>
    have := elementsFrom_quiet h startsTag_nil place
    rwa [List.append_nil, elementsFrom_nil] at this
  | @unclosed gap rest k hg ho ht =>
    rw [elementsFrom_quiet hg ho.startsTag]
    obtain ⟨r, rfl⟩ := startsTag_of_beginsWith (isTagName_opening k) ho.beginsWith
    rw [elementsFrom, opens?_eq_some_iff.2 ho]
    simp only [splitElement?, ht, Option.map_none]

lemma LaidOut.elementsFrom {bs : List Block} {t : List Char} (h : LaidOut bs t) (place : Nat) :
    Markup.elementsFrom 0 place (textOf bs t) = places place bs := by
  induction h generalizing place with
  | tail h => exact elementsFrom_bare h place
  | closed hb hc _ ih =>
    rw [textOf_cons, elementsFrom_quiet hb.gap (hb.startsTag _), elementsFrom_block hb (.inl hc), ih,
      places]
  | broken hb hc =>
    rw [textOf_cons, textOf_nil, elementsFrom_quiet hb.gap (hb.startsTag _),
      elementsFrom_block hb (.inr ⟨hc, rfl⟩), elementsFrom_nil]
    rfl

/-- **The elements of a row of blocks** are those of the blocks. -/
theorem LaidOut.elements_eq {bs : List Block} {t : List Char} (h : LaidOut bs t) :
    elements (textOf bs t) = places 0 bs :=
  h.elementsFrom 0

/-! ### Every source falls into blocks -/

lemma quiet_cons {c : Char} {t : List Char} (hc : ∀ k, ¬ Opens k (c :: t)) (ht : Quiet t) :
    Quiet (c :: t) := by
  intro s hs k hk
  rcases List.suffix_cons_iff.1 hs with rfl | hs
  · exact hc k hk
  · exact ht s hs k hk

/-- Either nothing opens in a text, or something opens behind a quiet part. -/
lemma quiet_or_opens (t : List Char) :
    Quiet t ∨ ∃ gap rest k, t = gap ++ rest ∧ Quiet gap ∧ Opens k rest := by
  induction t with
  | nil => exact .inl quiet_nil
  | cons c t ih =>
    by_cases ho : ∃ k, Opens k (c :: t)
    · obtain ⟨k, hk⟩ := ho
      exact .inr ⟨[], c :: t, k, rfl, quiet_nil, hk⟩
    · have hno : ∀ k, ¬ Opens k (c :: t) := not_exists.1 ho
      rcases ih with ih | ⟨gap, rest, k, rfl, hg, hk⟩
      · exact .inl (quiet_cons hno ih)
      · exact .inr ⟨c :: gap, rest, k, rfl, quiet_cons (fun l hl => hno l (hl.append rest)) hg, hk⟩

lemma splitBefore_spec (name t : List Char) :
    ∃ a b, splitBefore name t = (a, b) ∧ t = a ++ b ∧ (b = [] ∨ beginsWith name b = true) ∧
      ∀ s, s <:+ a → s ≠ [] → beginsWith name (s ++ b) = false := by
  induction t with
  | nil => exact ⟨[], [], rfl, rfl, .inl rfl, fun s hs hne => absurd (List.suffix_nil.1 hs) hne⟩
  | cons c t ih =>
    rw [splitBefore]
    split
    · next h =>
      exact ⟨[], c :: t, rfl, rfl, .inr h, fun s hs hne => absurd (List.suffix_nil.1 hs) hne⟩
    · next h =>
      obtain ⟨a, b, hab, rfl, hb, ha⟩ := ih
      rw [hab]
      refine ⟨c :: a, b, rfl, rfl, hb, fun s hs hne => ?_⟩
      rcases List.suffix_cons_iff.1 hs with rfl | hs
      · exact Bool.eq_false_iff.2 h
      · exact ha s hs hne

lemma lacks_of_splitBefore {name a b : List Char} (hn : IsTagName name)
    (h : ∀ s, s <:+ a → s ≠ [] → beginsWith name (s ++ b) = false) : Lacks name a := by
  intro s hs
  by_cases hne : s = []
  · rw [Bool.eq_false_iff, hne]
    intro hnil
    obtain ⟨r, hr⟩ := startsTag_of_beginsWith hn hnil
    cases hr
  · rw [Bool.eq_false_iff]
    intro hb
    exact absurd (beginsWith_append hb b) (Bool.eq_false_iff.1 (h s hs hne))

/-- **Every source falls into blocks.** -/
theorem exists_laidOut (t : List Char) : ∃ bs tail, LaidOut bs tail ∧ textOf bs tail = t := by
  induction h : t.length using Nat.strongRecOn generalizing t with
  | ind n ih =>
    rcases quiet_or_opens t with hq | ⟨gap, rest, k, rfl, hg, ho⟩
    · exact ⟨[], t, .tail (.quiet hq), rfl⟩
    · cases ht : splitTag none 0 rest with
      | none => exact ⟨[], gap ++ rest, .tail (.unclosed hg ho ht), rfl⟩
      | some p =>
        obtain ⟨tag, r⟩ := p
        obtain ⟨content, c, -, rfl, hc, hlacks⟩ := splitBefore_spec k.closing r
        obtain rfl := append_of_splitTag ht
        have hopens : Opens k tag := by
          obtain ⟨m, d, x, hx, hm, hd⟩ := ho
          rw [hx] at ht
          obtain ⟨y, rfl, hy⟩ := exists_of_splitTag_name (by cases k <;> decide) hm ht
          obtain ⟨e, y, rfl⟩ := List.exists_cons_of_ne_nil hy
          rw [List.append_assoc] at hx
          cases List.append_cancel_left hx
          exact ⟨m, _, y, rfl, hm, hd⟩
        have begins (close : List Char) : Block.Begins ⟨gap, k, tag, content, close⟩ :=
          ⟨hg, hopens, splitTag_self ht, lacks_of_splitBefore (isTagName_closing k) hlacks⟩
        cases hclose : splitTag none 0 c with
        | none => exact ⟨[⟨gap, k, tag, content, c⟩], [], .broken (begins c) ⟨hc, hclose⟩, by simp⟩
        | some p =>
          obtain ⟨close, r⟩ := p
          obtain rfl := append_of_splitTag hclose
          have hname : beginsWith k.closing close = true := by
            rcases hc with hc | hc
            · rw [hc] at hclose
              cases hclose
            · obtain ⟨m, x, hx, hm⟩ := beginsWith_iff.1 hc
              rw [hx] at hclose
              obtain ⟨y, rfl, -⟩ := exists_of_splitTag_name (by cases k <;> decide) hm hclose
              exact beginsWith_iff.2 ⟨m, y, rfl, hm⟩
          have hshort : r.length < n := by
            obtain ⟨m, d, x, rfl, -⟩ := hopens
            rw [← h]
            simp only [List.length_append, List.length_cons]
            omega
          obtain ⟨bs, tail, hl, rfl⟩ := ih r.length hshort r rfl
          exact ⟨⟨gap, k, tag, content, close⟩ :: bs, tail,
            .closed (begins close) ⟨hname, splitTag_self hclose⟩ hl, by simp⟩

/-! ### Rows behind one another -/

/-- The blocks and the tail of a row with a text in front. -/
def behind (a : List Char) : List Block → (tail : List Char) → List Block × List Char
  | [], t => ([], a ++ t)
  | b :: bs, t => ({ b with gap := a ++ b.gap } :: bs, t)

lemma textOf_behind (a : List Char) (bs : List Block) (t : List Char) :
    textOf (behind a bs t).1 (behind a bs t).2 = a ++ textOf bs t := by
  cases bs <;> simp [behind]

lemma LaidOut.behind {a t : List Char} {bs : List Block} (h : LaidOut bs t)
    (ha : Passes a (textOf bs t)) :
    LaidOut (Markup.behind a bs t).1 (Markup.behind a bs t).2 := by
  -- what passes into a row is quiet together with the first gap
  have quiet {g r : List Char} (hg : Quiet g) (ha : Passes a (g ++ r)) : Quiet (a ++ g) := by
    refine passes_nil_iff.1 (Passes.append (fun s hs hne k hk => ?_) (passes_nil_iff.2 hg))
    rw [List.append_nil] at hk
    exact ha s hs hne k (by rw [← List.append_assoc]; exact hk.append r)
  have begins {b : Block} {r : List Char} (hb : b.Begins) (ha : Passes a (b.gap ++ r)) :
      Block.Begins { b with gap := a ++ b.gap } := ⟨quiet hb.gap ha, hb.opens, hb.tag, hb.content⟩
  cases h with
  | tail h =>
    cases h with
    | quiet h => exact .tail (.quiet (quiet (r := []) h (by rwa [List.append_nil])))
    | unclosed hg ho ht =>
      rw [Markup.behind, ← List.append_assoc]
      exact .tail (.unclosed (quiet hg ha) ho ht)
  | closed hb hc h =>
    rw [textOf_cons] at ha
    exact .closed (begins hb ha) hc h
  | broken hb hc =>
    rw [textOf_cons] at ha
    exact .broken (begins hb ha) hc

lemma textOf_append (as bs : List Block) (t : List Char) :
    textOf (as ++ bs) t = textOf as (textOf bs t) := by
  simp [textOf]

lemma LaidOut.append {as bs : List Block} {t : List Char}
    (has : ∀ b ∈ as, b.Begins ∧ Closes b.kind b.close)
    (h : LaidOut bs t) : LaidOut (as ++ bs) t := by
  induction as with
  | nil => exact h
  | cons a as ih =>
    obtain ⟨⟨hbegins, hcloses⟩, has⟩ := List.forall_mem_cons.1 has
    exact .closed hbegins hcloses (ih has)

end Mender.Markup
