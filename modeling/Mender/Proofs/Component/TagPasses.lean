import Mender.Digest
import Mender.Proofs.Component.Settled
import Mender.Proofs.Text.Search

/-!
The passes over the tags, place by place.

A pass looks for a name, follows the bytes of the tag to its end and copies the text in parts. Every byte
that a tag is read by is a character of its own, so each of these parts begins and ends between two
characters. Both passes put nothing in but the two attributes, and after them neither finds more to do.
-/

namespace Mender.Component

open Mender.Text Mender.Markup Mender.Module

variable {opening t x y : List Char} {extra : List Char → Option (List Char)}

/-! ### Texts with attributes put in -/

/-- The second text is the first one with attributes put in anywhere. -/
inductive Inserted : (x y : List Char) → Prop
  | nil : Inserted [] []
  | keep {x y : List Char} (c : Char) (h : Inserted x y) : Inserted (c :: x) (c :: y)
  | put {x y e : List Char} (he : IsAddition e) (h : Inserted x y) : Inserted x (e ++ y)

/-- No end of an attribute is what is left of a tag. -/
lemma IsAddition.not_closesTag {e u v : List Char} (h : IsAddition e) (he : e = u ++ v) (hv : v ≠ [])
    (r : List Char) : ¬ closesTag false (v ++ r) = true := by
  have hall : e.tails.all (fun v => v.isEmpty || !closesTag false v) = true := by
    cases h <;> decide
  intro hcloses
  have hv' := List.all_eq_true.1 hall v ((List.mem_tails v e).2 ⟨u, he.symm⟩)
  rw [closesTag_of_append hcloses] at hv'
  exact hv (List.isEmpty_iff.1 (by simpa using hv'))

/-- **Two passes** put in attributes only. -/
lemma Inserted.of_widened {s : List Char} (h : Widened s x) (h' : Widened x y) : Inserted s y := by
  induction h generalizing y with
  | nil => exact h'.eq_nil ▸ .nil
  | keep c h ih =>
    cases h' with
    | keep _ h' => exact .keep c (ih h')
    | put he _ h' => exact .put he (.keep c (ih h'))
  | @put _ _ _ c he _ h ih =>
    -- the second pass puts nothing into what the first one put in
    obtain ⟨y, rfl, hy⟩ := h'.append fun u v hv hne => he.not_closesTag hv hne _
    refine .put he ?_
    cases hy with
    | keep _ hy => exact .keep c (ih hy)
    | put he' _ hy => exact .put he' (.keep c (ih hy))

/-! ### The bytes of a tag -/

lemma utf8_append (a b : List Char) : utf8 (a ++ b) = utf8 a ++ utf8 b := List.flatMap_append

lemma length_utf8 (t : List Char) : (utf8 t).length = width t := by
  induction t with
  | nil => rfl
  | cons c t ih =>
    rw [← List.singleton_append, utf8_append, List.length_append, ih, width_append]
    simp [utf8]

lemma drop_utf8 (a b : List Char) : (utf8 (a ++ b)).drop (width a) = utf8 b := by
  rw [utf8_append, ← length_utf8, List.drop_left]

/-- A character is a byte of its own, or none of its bytes is a character. -/
lemma utf8EncodeChar_cases (c : Char) :
    c.toNat < 128 ∧ String.utf8EncodeChar c = [c.toUInt8] ∨
      128 ≤ c.toNat ∧ ∀ b ∈ String.utf8EncodeChar c, 128 ≤ b.toNat := by
  have hval : c.val.toNat = c.toNat := rfl
  by_cases h : c.toNat < 128
  · refine .inl ⟨h, ?_⟩
    have hle : c.val.toNat ≤ 127 := by omega
    simp only [String.utf8EncodeChar, if_pos hle]
    rfl
  · refine .inr ⟨by omega, ?_⟩
    have hle : ¬ c.val.toNat ≤ 127 := by omega
    simp only [String.utf8EncodeChar, if_neg hle]
    -- two, three or four bytes
    split
    · simp only [List.forall_mem_cons, List.not_mem_nil, false_imp_iff, implies_true, and_true,
        UInt8.toNat_ofNat']
      omega
    · split
      · simp only [List.forall_mem_cons, List.not_mem_nil, false_imp_iff, implies_true, and_true,
          UInt8.toNat_ofNat']
        omega
      · simp only [List.forall_mem_cons, List.not_mem_nil, false_imp_iff, implies_true, and_true,
          UInt8.toNat_ofNat']
        omega

def isQuoteByte (b : UInt8) : Bool := b == '"'.toUInt8 || b == '\''.toUInt8 || b == '\x60'.toUInt8

/-- The place behind a tag whose bytes begin at a place; `quote` is the open quote, `depth` the number of
open braces. -/
def byteEnd? : (quote : Option UInt8) → (depth place : Nat) → List UInt8 → Option Nat
  | _, _, _, [] => none
  | some q, depth, place, b :: bs => byteEnd? (if b = q then none else some q) depth (place + 1) bs
  | none, depth, place, b :: bs =>
    if isQuoteByte b then byteEnd? (some b) depth (place + 1) bs
    else if b = '{'.toUInt8 then byteEnd? none (depth + 1) (place + 1) bs
    else if b = '}'.toUInt8 then byteEnd? none (depth - 1) (place + 1) bs
    else if b = '>'.toUInt8 ∧ depth = 0 then some (place + 1)
    else byteEnd? none depth (place + 1) bs

lemma toNat_toUInt8 {c : Char} (hc : c.toNat < 128) : c.toUInt8.toNat = c.toNat := by
  have hval : c.toUInt8.toNat = c.toNat % 256 := UInt32.toNat_toUInt8 c.val
  omega

lemma toUInt8_inj {c d : Char} (hc : c.toNat < 128) (hd : d.toNat < 128) :
    c.toUInt8 = d.toUInt8 ↔ c = d := by
  refine ⟨fun h => Char.toNat_inj.1 ?_, congrArg _⟩
  rw [← toNat_toUInt8 hc, ← toNat_toUInt8 hd, h]

lemma toNat_lt_of_isQuote {c : Char} (h : isQuote c = true) : c.toNat < 128 := by
  simp only [isQuote, Bool.or_eq_true, beq_iff_eq] at h
  rcases h with (rfl | rfl) | rfl <;> decide

lemma isQuoteByte_toUInt8 {c : Char} (hc : c.toNat < 128) : isQuoteByte c.toUInt8 = isQuote c := by
  have hbeq (d : Char) (hd : d.toNat < 128) : (c.toUInt8 == d.toUInt8) = (c == d) := by
    rw [Bool.eq_iff_iff, beq_iff_eq, beq_iff_eq, toUInt8_inj hc hd]
  rw [isQuoteByte, hbeq _ (by decide), hbeq _ (by decide), hbeq _ (by decide), isQuote]

/-- The bytes of a character outside of ASCII say nothing to the search for the end of a tag. -/
lemma byteEnd?_high {q : Option Char} (hq : Quoted q) (d place : Nat) {bs : List UInt8}
    (hbs : ∀ b ∈ bs, 128 ≤ b.toNat) (r : List UInt8) :
    byteEnd? (q.map Char.toUInt8) d place (bs ++ r) =
      byteEnd? (q.map Char.toUInt8) d (place + bs.length) r := by
  induction bs generalizing place with
  | nil => rfl
  | cons b bs ih =>
    obtain ⟨hb, hbs⟩ := List.forall_mem_cons.1 hbs
    have hne (c : Char) (hc : c.toNat < 128) : b ≠ c.toUInt8 := by
      rintro rfl
      rw [toNat_toUInt8 hc] at hb
      omega
    have hone : byteEnd? (q.map Char.toUInt8) d place (b :: (bs ++ r)) =
        byteEnd? (q.map Char.toUInt8) d (place + 1) (bs ++ r) := by
      cases q with
      | some q => simp [byteEnd?, hne q (toNat_lt_of_isQuote (hq q rfl))]
      | none =>
        simp [byteEnd?, isQuoteByte, hne '"' (by decide), hne '\'' (by decide), hne '\x60' (by decide),
          hne '{' (by decide), hne '}' (by decide), hne '>' (by decide)]
    rw [List.cons_append, hone, ih _ hbs, List.length_cons, Nat.add_assoc, Nat.add_comm 1]

lemma isInert_of_high {c : Char} (hc : 128 ≤ c.toNat) : isInert c = true := by
  have hne (d : Char) (hd : d.toNat < 128) : (c == d) = false := by
    rw [beq_eq_false_iff_ne]
    rintro rfl
    omega
  simp [isInert, isQuote, hne '"' (by decide), hne '\'' (by decide), hne '\x60' (by decide),
    hne '{' (by decide), hne '}' (by decide), hne '<' (by decide), hne '>' (by decide)]

/-- The bytes of a character close the tag or change what is open, and so does the character. -/
lemma byteEnd?_step {q : Option Char} (hq : Quoted q) (d place : Nat) (c : Char) :
    ((∀ r, splitTag q d (c :: r) = some ([c], r)) ∧
        ∀ bs, byteEnd? (q.map Char.toUInt8) d place (String.utf8EncodeChar c ++ bs) =
          some (place + c.utf8Size)) ∨
      ∃ q' d', Quoted q' ∧ (∀ r, splitTag q d (c :: r) = (splitTag q' d' r).map (splitTag.put c)) ∧
        ∀ bs, byteEnd? (q.map Char.toUInt8) d place (String.utf8EncodeChar c ++ bs) =
          byteEnd? (q'.map Char.toUInt8) d' (place + c.utf8Size) bs := by
  rcases utf8EncodeChar_cases c with ⟨hc, hone⟩ | ⟨hc, hhigh⟩
  · have hsize : c.utf8Size = 1 := by rw [← String.length_utf8EncodeChar, hone, List.length_singleton]
    rw [hone, hsize]
    cases q with
    | some q =>
      have hend : c.toUInt8 = q.toUInt8 ↔ c = q := toUInt8_inj hc (toNat_lt_of_isQuote (hq q rfl))
      simp only [List.singleton_append, Option.map_some, splitTag, byteEnd?, hend]
      split
      · exact .inr ⟨none, d, quoted_none, fun _ => rfl, fun _ => rfl⟩
      · exact .inr ⟨some q, d, hq, fun _ => rfl, fun _ => rfl⟩
    | none =>
      have hopen : c.toUInt8 = '{'.toUInt8 ↔ c = '{' := toUInt8_inj hc (by decide)
      have hclose : c.toUInt8 = '}'.toUInt8 ↔ c = '}' := toUInt8_inj hc (by decide)
      have hgt : c.toUInt8 = '>'.toUInt8 ↔ c = '>' := toUInt8_inj hc (by decide)
      simp only [List.singleton_append, Option.map_none, splitTag, byteEnd?, isQuoteByte_toUInt8 hc,
        hopen, hclose, hgt]
      split
      · next h => exact .inr ⟨some c, d, quoted_some h, fun _ => rfl, fun _ => rfl⟩
      · split
        · exact .inr ⟨none, d + 1, quoted_none, fun _ => rfl, fun _ => rfl⟩
        · split
          · exact .inr ⟨none, d - 1, quoted_none, fun _ => rfl, fun _ => rfl⟩
          · split
            · exact .inl ⟨fun _ => rfl, fun _ => rfl⟩
            · exact .inr ⟨none, d, quoted_none, fun _ => rfl, fun _ => rfl⟩
  · refine .inr ⟨q, d, hq, fun r => ?_, fun bs => ?_⟩
    · exact splitTag_inert hq d (List.forall_mem_singleton.2 (isInert_of_high hc)) r
    · rw [byteEnd?_high hq d place hhigh, String.length_utf8EncodeChar]

/-- **The end of a tag** is found in the bytes where it is found in the text. -/
theorem byteEnd?_utf8 {q : Option Char} (hq : Quoted q) (d place : Nat) (t : List Char) :
    byteEnd? (q.map Char.toUInt8) d place (utf8 t) =
      (splitTag q d t).map fun p => place + width p.1 := by
  induction t generalizing q d place with
  | nil => cases q <;> rfl
  | cons c t ih =>
    have hcons : utf8 (c :: t) = String.utf8EncodeChar c ++ utf8 t := List.flatMap_cons
    rw [hcons]
    rcases byteEnd?_step hq d place c with ⟨hsplit, hend⟩ | ⟨q', d', hq', hsplit, hend⟩
    · rw [hsplit, hend]
      rfl
    · rw [hsplit, hend, ih hq', Option.map_map]
      refine congrArg (Option.map · _) (funext fun p => ?_)
      simp [splitTag.put, Nat.add_assoc]

/-! ### Where nothing is added -/

lemma IsOpening.length_pos (hop : IsOpening opening) : 0 < opening.length :=
  List.length_pos_iff.2 fun h => by simpa [h] using hop.head

lemma Opened.isPrefix (h : Opened opening t) : opening <+: t := by
  obtain ⟨c, r, rfl, -⟩ := h
  exact List.prefix_append opening (c :: r)

/-- Nothing is added in front of the first occurrence of the name. -/
lemma additions_before {a b : List Char} (h : cut? opening t = some (a, b)) (place : Nat) :
    additions opening extra 0 place t = additions opening extra 0 (place + width a) (opening ++ b) := by
  induction t generalizing a place with
  | nil =>
    have ht := cut?_eq_some h
    rw [List.append_assoc] at ht
    obtain ⟨rfl, hnil⟩ := List.append_eq_nil_iff.1 ht.symm
    rw [hnil]
    rfl
  | cons c t ih =>
    have ht := cut?_eq_some h
    rw [cut?] at h
    split at h
    · cases h
      rw [ht, List.nil_append, width_nil, Nat.add_zero]
    · next hhead =>
      obtain ⟨⟨a, b⟩, hp, he⟩ := Option.map_eq_some_iff.1 h
      cases he
      have hnot : ¬ Opened opening (c :: t) := fun ho => after?_eq_none_iff.1 hhead ho.isPrefix
      rw [additions_char hnot, ih hp, width_cons, Nat.add_assoc]

lemma additions_eq_nil (h : cut? opening t = none) (place : Nat) :
    additions opening extra 0 place t = [] := by
  induction t generalizing place with
  | nil => rfl
  | cons c t ih =>
    rw [cut?_eq_none_iff, List.infix_cons_iff, not_or] at h
    rw [additions_char (mt Opened.isPrefix h.1), ih (cut?_eq_none_iff.2 h.2)]

lemma additions_of_notMem (hop : IsTagName opening) {m : List Char} (hm : '<' ∉ m) (place : Nat) :
    additions opening extra 0 place (m ++ t) = additions opening extra 0 (place + width m) t := by
  induction m generalizing place with
  | nil => rfl
  | cons c m ih =>
    obtain ⟨hc, hm⟩ := not_or.1 (mt List.mem_cons.2 hm)
    have hnot : ¬ Opened opening (c :: (m ++ t)) := by
      intro ho
      obtain ⟨name, rfl⟩ := List.head?_eq_some_iff.1 hop.head
      exact hc (List.cons_prefix_cons.1 ho.isPrefix).1
    rw [List.cons_append, additions_char hnot, ih hm, width_cons, Nat.add_assoc]

/-- Where a name goes on no tag opens, and none opens in the name. -/
lemma additions_name (hop : IsTagName opening) (h : ¬ Opened opening (opening ++ t)) (place : Nat) :
    additions opening extra 0 place (opening ++ t) =
      additions opening extra 0 (place + width opening) t := by
  obtain ⟨name, hname⟩ := List.head?_eq_some_iff.1 hop.head
  have htail : '<' ∉ name := by
    have htail := hop.tail
    rwa [hname, List.tail_cons] at htail
  have hcons : opening ++ t = '<' :: (name ++ t) := by rw [hname, List.cons_append]
  rw [hcons] at h ⊢
  rw [additions_char h, additions_of_notMem hop htail, hname, width_cons, Nat.add_assoc]

lemma opened_name_iff : t.head?.any endsTagName = true ↔ Opened opening (opening ++ t) := by
  rw [← opened_iff, after?_eq_some_iff.2 rfl, Option.bind_some]

/-! ### A pass in parts -/

/-- What a round of a pass comes to: the last part of the new text, or some text that is put out, the place
up to which the old text is copied then, and the place where the search goes on. -/
inductive Round where
  | done (rest : List Char)
  | next (out : List Char) (copied place : Nat)

section

variable (opening : List Char) (extra : List Char → Option (List Char)) (t : List Char)

/-- What is done about a name that is found. Every part that is looked at or copied must be one of whole
characters. -/
def atName (copied start : Nat) : Option Round := do
  let first := start + width opening
  let behind ← slice? first (width t) t
  if behind.head?.any endsTagName then
    match byteEnd? none 0 start ((utf8 t).drop start) with
    | none => return .done (← slice? copied (width t) t)
    | some stop =>
      let attributes := attributesOf (← slice? first (stop - 1) t)
      match extra attributes with
      | none => return .next [] copied stop
      | some e =>
        let kept ← slice? copied (first + width attributes) t
        return .next (kept ++ e) (first + width attributes) stop
  else return .next [] copied first

/-- One round: what is done about the next name. -/
def round (copied place : Nat) : Option Round := do
  let rest ← slice? place (width t) t
  match cut? opening rest with
  | none => return .done (← slice? copied (width t) t)
  | some (before, _) => atName opening extra t copied (place + width before)

def passFrom : (rounds copied place : Nat) → Option (List Char)
  | 0, _, _ => none
  | rounds + 1, copied, place => do
    match ← round opening extra t copied place with
    | .done rest => return rest
    | .next out copied place => return out ++ (← passFrom rounds copied place)

/-- A whole pass. Each round goes on behind a name, so there are no more of them than characters and one. -/
def passInParts : Option (List Char) := passFrom opening extra t (t.length + 1) 0 0

/-- What a pass makes of a text from one place on when the search goes on at another one. -/
def amendedFrom (copied place : Nat) (rest : List Char) : List Char :=
  splice t copied ((additions opening extra 0 place rest).map fun a => (⟨a.1, a.1⟩, a.2))

end

section

variable {a m y body rest : List Char}

lemma width_behind (a m x : List Char) : width (a ++ m) + width x = width (a ++ (m ++ x)) := by
  simp only [width_append, Nat.add_assoc]

lemma slice?_behind (ht : a ++ (m ++ (opening ++ y)) = t) :
    slice? (width (a ++ (m ++ opening))) (width t) t = some y :=
  slice?_rest (by simp only [← ht, List.append_assoc])

lemma byteEnd?_eq (ht : a ++ (m ++ (opening ++ y)) = t) :
    byteEnd? none 0 (width (a ++ m)) ((utf8 t).drop (width (a ++ m))) =
      (splitTag none 0 (opening ++ y)).map fun p => width (a ++ m) + width p.1 := by
  rw [← ht, ← List.append_assoc, drop_utf8]
  exact byteEnd?_utf8 quoted_none 0 _ _

lemma atName_other (ht : a ++ (m ++ (opening ++ y)) = t) (hno : ¬ Opened opening (opening ++ y)) :
    atName opening extra t (width a) (width (a ++ m)) =
      some (.next [] (width a) (width (a ++ (m ++ opening)))) := by
  rw [atName, width_behind, slice?_behind ht]
  dsimp only [Option.bind_eq_bind, Option.bind_some]
  rw [if_neg (mt opened_name_iff.1 hno)]
  rfl

lemma atName_unclosed (ht : a ++ (m ++ (opening ++ y)) = t) (ho : Opened opening (opening ++ y))
    (hs : splitTag none 0 (opening ++ y) = none) :
    atName opening extra t (width a) (width (a ++ m)) = some (.done (m ++ (opening ++ y))) := by
  rw [atName, width_behind, slice?_behind ht]
  dsimp only [Option.bind_eq_bind, Option.bind_some]
  rw [if_pos (opened_name_iff.2 ho), byteEnd?_eq ht, hs, Option.map_none, slice?_rest ht]
  rfl

lemma IsTag.dropLast_append (h : IsTag opening body) : body.dropLast ++ ['>'] = body := by
  obtain ⟨w, hw, -, -⟩ := h.exists_attributes
  refine List.dropLast_append_getLast? _ ?_
  rw [hw, ← List.append_assoc]
  exact List.getLast?_concat

/-- What stands in a tag behind its name ends in front of the `>`, which is one byte. -/
lemma IsTag.slice?_inner (h : IsTag opening body)
    (ht : a ++ (m ++ (opening ++ (body ++ rest))) = t) :
    slice? (width (a ++ (m ++ opening))) (width (a ++ (m ++ (opening ++ body))) - 1) t =
      some body.dropLast := by
  have hgt : width ['>'] = 1 := rfl
  have hlast : width (a ++ (m ++ (opening ++ body))) - 1 =
      width (a ++ (m ++ opening) ++ body.dropLast) := by
    conv_lhs => rw [← h.dropLast_append]
    simp only [width_append, hgt]
    omega
  rw [hlast]
  refine slice?_between (b := '>' :: rest) ?_
  rw [← ht, ← List.singleton_append, ← List.append_assoc body.dropLast, h.dropLast_append]
  simp only [List.append_assoc]

lemma atName_tag (ht : a ++ (m ++ (opening ++ (body ++ rest))) = t) (h : IsTag opening body) :
    atName opening extra t (width a) (width (a ++ m)) = some
      (match extra (attributesOf body.dropLast) with
      | none => .next [] (width a) (width (a ++ (m ++ (opening ++ body))))
      | some e => .next (m ++ (opening ++ attributesOf body.dropLast) ++ e)
          (width (a ++ (m ++ (opening ++ attributesOf body.dropLast))))
          (width (a ++ (m ++ (opening ++ body))))) := by
  rw [atName, width_behind, slice?_behind ht]
  dsimp only [Option.bind_eq_bind, Option.bind_some]
  rw [if_pos (opened_name_iff.2 (h.opened rest)), byteEnd?_eq ht, h.splitTag rest, Option.map_some]
  dsimp only
  rw [width_behind, h.slice?_inner ht]
  dsimp only [Option.bind_some]
  obtain ⟨w, hw, -, -⟩ := h.exists_attributes
  generalize attributesOf body.dropLast = attributes at hw ⊢
  cases extra attributes with
  | none => rfl
  | some e =>
    have hcopied : a ++ ((m ++ (opening ++ attributes)) ++ (w ++ ['>'] ++ rest)) = t := by
      rw [← ht, hw]
      simp only [List.append_assoc]
    dsimp only
    rw [width_behind, List.append_assoc, slice?_between hcopied]
    rfl

lemma round_of_none {b : List Char} (ht : a ++ (m ++ b) = t) (h : cut? opening b = none) :
    round opening extra t (width a) (width (a ++ m)) = some (.done (m ++ b)) := by
  rw [round, slice?_rest (a := a ++ m) (by rw [← ht, List.append_assoc]), slice?_rest ht]
  dsimp only [Option.bind_eq_bind, Option.bind_some]
  rw [h]
  rfl

lemma round_of_some {b x : List Char} (ht : a ++ (m ++ b) = t) (h : cut? opening b = some (x, y)) :
    round opening extra t (width a) (width (a ++ m)) =
      atName opening extra t (width a) (width (a ++ (m ++ x))) := by
  rw [round, slice?_rest (a := a ++ m) (by rw [← ht, List.append_assoc])]
  dsimp only [Option.bind_eq_bind, Option.bind_some]
  rw [h, ← width_behind]

lemma amendedFrom_of_nil {place : Nat} {b c : List Char} (hc : a ++ c = t)
    (h : additions opening extra 0 place b = []) :
    amendedFrom opening extra t (width a) place b = c := by
  rw [amendedFrom, h, List.map_nil, splice, ← hc, dropWidth_width]

lemma amendedFrom_tag (hop : IsOpening opening) (ht : a ++ (m ++ (opening ++ (body ++ rest))) = t)
    (h : IsTag opening body) :
    amendedFrom opening extra t (width a) (width (a ++ m)) (opening ++ (body ++ rest)) =
      match extra (attributesOf body.dropLast) with
      | none => amendedFrom opening extra t (width a) (width (a ++ (m ++ (opening ++ body)))) rest
      | some e => m ++ (opening ++ attributesOf body.dropLast) ++ e ++
          amendedFrom opening extra t (width (a ++ (m ++ (opening ++ attributesOf body.dropLast))))
            (width (a ++ (m ++ (opening ++ body)))) rest := by
  obtain ⟨w, hw, -, -⟩ := h.exists_attributes
  rw [amendedFrom, additions_isTag hop h, width_behind, width_behind]
  generalize attributesOf body.dropLast = attributes at hw ⊢
  cases extra attributes with
  | none => rfl
  | some e =>
    have hcopied : a ++ (m ++ (opening ++ attributes) ++ (w ++ ['>'] ++ rest)) = t := by
      rw [← ht, hw]
      simp only [List.append_assoc]
    rw [Option.toList_some, List.map_singleton, List.singleton_append, List.map_cons, splice,
      slice_of_slice? (slice?_between hcopied)]
    rfl

/-- A round gets on: it ends the pass, or the pass goes on where less is left and what the round puts out
belongs in front of what is made of the rest. -/
def GetsOn (opening : List Char) (extra : List Char → Option (List Char)) (t a m b : List Char)
    (r : Option Round) : Prop :=
  r = some (.done (amendedFrom opening extra t (width a) (width (a ++ m)) b)) ∨
    ∃ out a' m' b', r = some (.next out (width a') (width (a' ++ m'))) ∧
      a' ++ (m' ++ b') = t ∧ b'.length < b.length ∧
      amendedFrom opening extra t (width a) (width (a ++ m)) b =
        out ++ amendedFrom opening extra t (width a') (width (a' ++ m')) b'

lemma getsOn_tag (hop : IsOpening opening) (ht : a ++ (m ++ (opening ++ (body ++ rest))) = t)
    (h : IsTag opening body) :
    GetsOn opening extra t a m (opening ++ (body ++ rest))
      (atName opening extra t (width a) (width (a ++ m))) := by
  have hshorter : rest.length < (opening ++ (body ++ rest)).length := by
    have hpos := hop.length_pos
    simp only [List.length_append]
    omega
  have hbehind : a ++ (m ++ (opening ++ body) ++ rest) = t := by
    rw [← ht]
    simp only [List.append_assoc]
  rw [GetsOn, atName_tag ht h, amendedFrom_tag hop ht h]
  obtain ⟨w, hw, -, -⟩ := h.exists_attributes
  generalize attributesOf body.dropLast = attributes at hw ⊢
  cases extra attributes with
  | none => exact .inr ⟨[], a, m ++ (opening ++ body), rest, rfl, hbehind, hshorter, rfl⟩
  | some e =>
    -- the old text is copied up to what is left of the tag
    have hends : a ++ (m ++ (opening ++ attributes)) ++ (w ++ ['>']) = a ++ (m ++ (opening ++ body)) := by
      rw [hw]
      simp only [List.append_assoc]
    refine .inr ⟨_, a ++ (m ++ (opening ++ attributes)), w ++ ['>'], rest, by rw [hends], ?_, hshorter,
      by rw [hends]⟩
    rw [← List.append_assoc, hends, List.append_assoc a, hbehind]

lemma getsOn_atName (hop : IsOpening opening) (hname : IsTagName opening)
    (ht : a ++ (m ++ (opening ++ y)) = t) :
    GetsOn opening extra t a m (opening ++ y) (atName opening extra t (width a) (width (a ++ m))) := by
  by_cases ho : Opened opening (opening ++ y)
  · cases hs : splitTag none 0 (opening ++ y) with
    | none =>
      refine .inl ?_
      rw [atName_unclosed ht ho hs, amendedFrom_of_nil ht (additions_unclosed ho hs _)]
    | some p =>
      obtain ⟨tag, rest⟩ := p
      obtain ⟨body, hbody, rfl, htag⟩ := exists_isTag hop ho hs
      obtain rfl : y = body ++ rest := List.append_cancel_left hbody
      exact getsOn_tag hop ht htag
  · refine .inr ⟨[], a, m ++ opening, y, atName_other ht ho, ?_, ?_, ?_⟩
    · rw [← ht, List.append_assoc m]
    · have hpos := hop.length_pos
      simp only [List.length_append]
      omega
    · rw [amendedFrom, additions_name hname ho, width_behind, List.nil_append, amendedFrom]

/-- **A round** takes parts of whole characters only, and it gets on. -/
theorem getsOn_round (hop : IsOpening opening) (hname : IsTagName opening) {b : List Char}
    (ht : a ++ (m ++ b) = t) :
    GetsOn opening extra t a m b (round opening extra t (width a) (width (a ++ m))) := by
  cases hcut : cut? opening b with
  | none =>
    refine .inl ?_
    rw [round_of_none ht hcut, amendedFrom_of_nil ht (additions_eq_nil hcut _)]
  | some p =>
    obtain ⟨x, y⟩ := p
    have hbefore : amendedFrom opening extra t (width a) (width (a ++ m)) b =
        amendedFrom opening extra t (width a) (width (a ++ (m ++ x))) (opening ++ y) := by
      rw [amendedFrom, additions_before hcut, width_behind, amendedFrom]
    have hb : b = x ++ (opening ++ y) := by rw [cut?_eq_some hcut, List.append_assoc]
    have hx : a ++ (m ++ x ++ (opening ++ y)) = t := by rw [← ht, hb, List.append_assoc m]
    rw [round_of_some ht hcut, GetsOn, hbefore]
    refine (getsOn_atName hop hname hx).imp_right ?_
    rintro ⟨out, a', m', b', hnext, ht', hlt, hout⟩
    have hlen : b.length = x.length + (opening ++ y).length := by rw [hb, List.length_append]
    exact ⟨out, a', m', b', hnext, ht', by omega, hout⟩

/-- **A pass in parts** has a result, and it is the text with what the pass adds. -/
theorem passFrom_eq (hop : IsOpening opening) (hname : IsTagName opening) {rounds : Nat} {b : List Char}
    (hrounds : b.length < rounds) (ht : a ++ (m ++ b) = t) :
    passFrom opening extra t rounds (width a) (width (a ++ m)) =
      some (amendedFrom opening extra t (width a) (width (a ++ m)) b) := by
  induction rounds generalizing a m b with
  | zero => exact absurd hrounds (Nat.not_lt_zero _)
  | succ rounds ih =>
    have hround : GetsOn opening extra t a m b _ := getsOn_round hop hname ht
    rw [passFrom]
    rcases hround with hdone | ⟨out, a', m', b', hnext, ht', hlt, hout⟩
    · rw [hdone]
      rfl
    · rw [hnext, hout]
      dsimp only [Option.bind_eq_bind, Option.bind_some]
      rw [ih (by omega) ht']
      rfl

end

lemma passInParts_images (t : List Char) : passInParts "<img".toList imageExtra t = some (amendImages t) :=
  passFrom_eq (a := []) (m := []) isOpening_image ⟨rfl, by decide⟩ (Nat.lt_succ_self _) rfl

lemma passInParts_links (t : List Char) : passInParts "<a".toList linkExtra t = some (amendLinks t) :=
  passFrom_eq (a := []) (m := []) isOpening_link ⟨rfl, by decide⟩ (Nat.lt_succ_self _) rfl

/-- **The two passes** together reach a text that neither of them changes, and it is the old one with
attributes put in. Each of them copies any text in parts of whole characters. -/
theorem tag_passes_settle (s : List Char) :
    (amendImages (amendLinks (amendImages s)) = amendLinks (amendImages s) ∧
        amendLinks (amendLinks (amendImages s)) = amendLinks (amendImages s)) ∧
      Inserted s (amendLinks (amendImages s)) ∧
      passInParts "<img".toList imageExtra s = some (amendImages s) ∧
      passInParts "<a".toList linkExtra s = some (amendLinks s) :=
  ⟨amend_settles s, .of_widened (isPass_images.widened s) (isPass_links.widened _),
    passInParts_images s, passInParts_links s⟩

end Mender.Component
