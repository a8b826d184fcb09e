import Mathlib.Data.List.Infix
import Mathlib.Tactic.Common
import Mathlib.Tactic.Lemma
import Mender.Markup.Element

/-!
Tags and names at the start of a text.

What a text begins with does not depend on what follows. A name in a tag has its `<` at the start
only, so it never reaches from a text into one that begins with `<`.
-/

namespace Mender.Markup

open Mender.Text

/-! ### Tags -/

/-- A character either closes the tag or changes what is open, whatever follows it. -/
lemma splitTag_cons (q : Option Char) (d : Nat) (c : Char) :
    (∀ r, splitTag q d (c :: r) = some ([c], r)) ∨
      ∃ q' d', ∀ r, splitTag q d (c :: r) = (splitTag q' d' r).map (splitTag.put c) := by
  cases q with
  | some q => exact .inr ⟨_, _, fun r => rfl⟩
  | none =>
    simp only [splitTag]
    split
    · exact .inr ⟨_, _, fun r => rfl⟩
    · split
      · exact .inr ⟨_, _, fun r => rfl⟩
      · split
        · exact .inr ⟨_, _, fun r => rfl⟩
        · split
          · exact .inl fun r => rfl
          · exact .inr ⟨_, _, fun r => rfl⟩

lemma splitTag_append {q : Option Char} {d : Nat} {t a b : List Char}
    (h : splitTag q d t = some (a, b)) (r : List Char) :
    splitTag q d (t ++ r) = some (a, b ++ r) := by
  induction t generalizing q d a with
  | nil => simp [splitTag] at h
  | cons c t ih =>
    rw [List.cons_append]
    rcases splitTag_cons q d c with hc | ⟨q', d', hc⟩
    · rw [hc] at h ⊢
      cases h
      rfl
    · rw [hc] at h ⊢
      obtain ⟨p, hp, he⟩ := Option.map_eq_some_iff.1 h
      cases he
      rw [ih hp]
      rfl

lemma getLast?_of_splitTag {q : Option Char} {d : Nat} {t a b : List Char}
    (h : splitTag q d t = some (a, b)) : a.getLast? = some '>' := by
  induction t generalizing q d a with
  | nil => simp [splitTag] at h
  | cons c t ih =>
    have step {q' : Option Char} {d' : Nat}
        (h : (splitTag q' d' t).map (splitTag.put c) = some (a, b)) : a.getLast? = some '>' := by
      obtain ⟨p, hp, he⟩ := Option.map_eq_some_iff.1 h
      cases he
      exact List.getLast?_cons.trans (by rw [ih hp]; rfl)
    cases q with
    | some q => exact step h
    | none =>
      simp only [splitTag] at h
      split at h
      · exact step h
      · split at h
        · exact step h
        · split at h
          · exact step h
          · split at h
            · next hc =>
              cases h
              rw [hc.1]
              rfl
            · exact step h

/-- A tag is a tag by itself. -/
lemma splitTag_self {q : Option Char} {d : Nat} {t a b : List Char}
    (h : splitTag q d t = some (a, b)) : splitTag q d a = some (a, []) := by
  induction t generalizing q d a with
  | nil => simp [splitTag] at h
  | cons c t ih =>
    rcases splitTag_cons q d c with hc | ⟨q', d', hc⟩
    · rw [hc] at h
      cases h
      exact hc []
    · rw [hc] at h
      obtain ⟨p, hp, he⟩ := Option.map_eq_some_iff.1 h
      cases he
      simp only [splitTag.put, hc, ih hp, Option.map_some]

/-! ### Names -/

/-- A capital letter gets another letter, and all else stays. -/
lemma toLower_cases (c : Char) :
    c.toLower = c ∨ 65 ≤ c.toNat ∧ c.toNat ≤ 90 ∧ c.toLower.toNat = c.toNat + 32 := by
  unfold Char.toLower
  split
  · next h =>
    have hlow : 65 ≤ c.toNat := UInt32.le_iff_toNat_le.1 h.1
    have hhigh : c.toNat ≤ 90 := UInt32.le_iff_toNat_le.1 h.2
    refine .inr ⟨hlow, hhigh, ?_⟩
    have : (c.toNat + 32) % 4294967296 = c.toNat + 32 := Nat.mod_eq_of_lt (by omega)
    simpa using this
  · exact .inl rfl

/-- Only letters are lowered. -/
lemma eq_of_toLower {c d : Char} (hd : d.toNat < 97) (h : c.toLower = d) : c = d := by
  rcases toLower_cases c with he | ⟨hlow, -, he⟩
  · exact he.symm.trans h
  · rw [h] at he
    omega

/-- A text is a name in small letters, up to ASCII case. -/
def IsName (name m : List Char) : Prop := m.map Char.toLower = name

lemma beginsWith_iff {name t : List Char} :
    beginsWith name t = true ↔ ∃ m r, t = m ++ r ∧ IsName name m := by
  induction name generalizing t with
  | nil => exact iff_of_true (by cases t <;> rfl) ⟨[], t, rfl, rfl⟩
  | cons n ns ih =>
    cases t with
    | nil =>
      refine iff_of_false (by simp [beginsWith]) ?_
      rintro ⟨m, r, hm, hn⟩
      rw [(List.append_eq_nil_iff.1 hm.symm).1] at hn
      cases hn
    | cons c t =>
      rw [beginsWith, Bool.and_eq_true, beq_iff_eq, ih]
      constructor
      · rintro ⟨rfl, m, r, rfl, rfl⟩
        exact ⟨c :: m, r, rfl, rfl⟩
      · rintro ⟨m, r, hm, hn⟩
        cases m with
        | nil => cases hn
        | cons d m =>
          cases hm
          cases hn
          exact ⟨rfl, m, r, rfl, rfl⟩

lemma beginsWith_append {name t : List Char} (h : beginsWith name t = true) (r : List Char) :
    beginsWith name (t ++ r) = true := by
  obtain ⟨m, s, rfl, hm⟩ := beginsWith_iff.1 h
  exact beginsWith_iff.2 ⟨m, s ++ r, List.append_assoc _ _ _, hm⟩

/-- The text is empty or begins with a `<`. -/
def StartsTag (t : List Char) : Prop := ∀ c, t.head? = some c → c = '<'

lemma startsTag_nil : StartsTag [] := fun _ h => nomatch h

lemma startsTag_cons (t : List Char) : StartsTag ('<' :: t) := fun _ h => (Option.some.inj h).symm

/-- The name of a tag behind its `<`. -/
structure IsTagName (name : List Char) : Prop where
  head : name.head? = some '<'
  tail : '<' ∉ name.tail

lemma isTagName_opening (k : Kind) : IsTagName k.opening := by
  cases k <;> exact ⟨rfl, by decide⟩

lemma isTagName_closing (k : Kind) : IsTagName k.closing := by
  cases k <;> exact ⟨rfl, by decide⟩

lemma startsTag_of_beginsWith {name t : List Char} (hn : IsTagName name)
    (h : beginsWith name t = true) : ∃ r, t = '<' :: r := by
  obtain ⟨n, ns, rfl⟩ : ∃ n ns, name = n :: ns :=
    List.exists_cons_of_ne_nil fun he => by simpa [he] using hn.head
  cases t with
  | nil => cases h
  | cons c r =>
    have hc : c.toLower = n := beq_iff_eq.1 (Bool.and_eq_true_iff.1 h).1
    rw [Option.some.inj hn.head] at hc
    exact ⟨r, by rw [eq_of_toLower (by decide) hc]⟩

/-- What goes on without a `<` does not reach into a text that starts with one. -/
lemma beginsWith_append_of_notMem {name : List Char} (hn : '<' ∉ name) (s : List Char)
    {r : List Char} (hr : StartsTag r) : beginsWith name (s ++ r) = beginsWith name s := by
  induction name generalizing s with
  | nil => cases s <;> cases r <;> rfl
  | cons n ns ih =>
    obtain ⟨hn, hns⟩ := not_or.1 (mt List.mem_cons.2 hn)
    cases s with
    | nil =>
      cases r with
      | nil => rfl
      | cons c r =>
        obtain rfl : c = '<' := hr c rfl
        exact Bool.and_eq_false_imp.2 fun he => absurd (beq_iff_eq.1 he) hn
    | cons c s => rw [List.cons_append, beginsWith, beginsWith, ih hns]

lemma beginsWith_tag_append {name : List Char} (hn : IsTagName name) {s : List Char} (hs : s ≠ [])
    {r : List Char} (hr : StartsTag r) : beginsWith name (s ++ r) = beginsWith name s := by
  obtain ⟨n, ns, rfl⟩ : ∃ n ns, name = n :: ns :=
    List.exists_cons_of_ne_nil fun he => by simpa [he] using hn.head
  obtain ⟨c, s, rfl⟩ := List.exists_cons_of_ne_nil hs
  have htail : '<' ∉ ns := hn.tail
  rw [List.cons_append, beginsWith, beginsWith, beginsWith_append_of_notMem htail s hr]

/-- A name at the start of a text lies in the tag that starts there, and something follows it. -/
lemma exists_of_splitTag_name {name m x a b : List Char} (hn : '>' ∉ name) (hm : IsName name m)
    (h : splitTag none 0 (m ++ x) = some (a, b)) : ∃ y, a = m ++ y ∧ y ≠ [] := by
  have hlast := getLast?_of_splitTag h
  have hmem : '>' ∉ m := by
    intro hgt
    refine hn ?_
    rw [← hm]
    exact List.mem_map_of_mem (f := Char.toLower) hgt
  rcases List.append_eq_append_iff.1 (append_of_splitTag h) with ⟨y, rfl, hy⟩ | ⟨y, rfl, -⟩
  · refine ⟨y, rfl, ?_⟩
    rintro rfl
    rw [List.append_nil] at hlast
    exact hmem (List.mem_of_getLast? hlast)
  · exact absurd (List.mem_append_left _ (List.mem_of_getLast? hlast)) hmem

/-! ### What opens an element -/

/-- An opening tag of a kind starts here. -/
def Opens (k : Kind) (t : List Char) : Prop :=
  ∃ m c r, t = m ++ c :: r ∧ IsName k.opening m ∧ endsName c = true

lemma opens_iff {k : Kind} {t : List Char} :
    (beginsWith k.opening t && (t.drop k.opening.length).head?.any endsName) = true ↔ Opens k t := by
  rw [Bool.and_eq_true, beginsWith_iff]
  constructor
  · rintro ⟨⟨m, r, rfl, hm⟩, he⟩
    have hlength : k.opening.length = m.length := by rw [← hm, List.length_map]
    rw [hlength, List.drop_left] at he
    cases r with
    | nil => cases he
    | cons c r => exact ⟨m, c, r, rfl, hm, he⟩
  · rintro ⟨m, c, r, rfl, hm, he⟩
    have hlength : k.opening.length = m.length := by rw [← hm, List.length_map]
    refine ⟨⟨m, c :: r, rfl, hm⟩, ?_⟩
    rw [hlength, List.drop_left]
    exact he

lemma Opens.beginsWith {k : Kind} {t : List Char} (h : Opens k t) :
    Markup.beginsWith k.opening t = true := by
  obtain ⟨m, c, r, rfl, hm, -⟩ := h
  exact beginsWith_iff.2 ⟨m, c :: r, rfl, hm⟩

lemma Opens.append {k : Kind} {t : List Char} (h : Opens k t) (r : List Char) : Opens k (t ++ r) := by
  obtain ⟨m, c, s, rfl, hm, hc⟩ := h
  exact ⟨m, c, s ++ r, by simp, hm, hc⟩

/-- An opening tag needs no other tag behind it. -/
lemma Opens.of_append {k : Kind} {s r : List Char} (hs : s ≠ []) (hr : StartsTag r)
    (h : Opens k (s ++ r)) : Opens k s := by
  have hname : Markup.beginsWith k.opening s = true := by
    rw [← beginsWith_tag_append (isTagName_opening k) hs hr]
    exact h.beginsWith
  obtain ⟨m, s, rfl, hm⟩ := beginsWith_iff.1 hname
  obtain ⟨n, c, t, ht, hn, hc⟩ := h
  rw [List.append_assoc] at ht
  obtain ⟨rfl, hrest⟩ := List.append_inj ht (by
    rw [← List.length_map Char.toLower, hm, ← hn, List.length_map])
  cases s with
  | nil =>
    -- the name would be followed by the `<` of the next tag
    rw [List.nil_append] at hrest
    have : c = '<' := hr c (by rw [hrest]; rfl)
    rw [this] at hc
    cases hc
  | cons d s =>
    obtain ⟨rfl, -⟩ := List.cons.inj hrest
    exact ⟨m, d, s, rfl, hm, hc⟩

lemma opens_append_iff {k : Kind} {s r : List Char} (hs : s ≠ []) (hr : StartsTag r) :
    Opens k (s ++ r) ↔ Opens k s :=
  ⟨Opens.of_append hs hr, fun h => h.append r⟩

/-- The kinds have different names. -/
lemma Opens.kind_eq {k l : Kind} {t : List Char} (hk : Opens k t) (hl : Opens l t) : k = l := by
  obtain ⟨m, c, r, rfl, hm, -⟩ := hk
  obtain ⟨n, d, s, hn, hn', -⟩ := hl
  have htake : (m.map Char.toLower).take 3 = (n.map Char.toLower).take 3 := by
    have hlength : ∀ (k : Kind) {m : List Char}, IsName k.opening m → 3 ≤ m.length := by
      intro k m h
      rw [← List.length_map (f := Char.toLower), h]
      cases k <;> decide
    have := congrArg (List.take 3) hn
    rw [List.take_append_of_le_length (hlength _ hm),
      List.take_append_of_le_length (hlength _ hn')] at this
    rw [← List.map_take, ← List.map_take, this]
  rw [hm, hn'] at htake
  cases k <;> cases l <;> first | rfl | exact absurd htake (by decide)

lemma opens?_eq_some_iff {k : Kind} {t : List Char} : opens? t = some k ↔ Opens k t := by
  let p (k : Kind) : Bool :=
    Markup.beginsWith k.opening t && (t.drop k.opening.length).head?.any endsName
  have hfind : opens? t = [Kind.script, Kind.style].find? p := rfl
  rw [hfind]
  constructor
  · intro h
    have hp : p k = true := List.find?_some h
    exact opens_iff.1 hp
  · intro h
    have hk : k ∈ [Kind.script, Kind.style] := by cases k <;> simp
    have hp : p k = true := opens_iff.2 h
    obtain ⟨l, hl⟩ := Option.isSome_iff_exists.1 (List.find?_isSome.2 ⟨k, hk, hp⟩)
    have hpl : p l = true := List.find?_some hl
    rw [hl, (opens_iff.1 hpl).kind_eq h]

lemma opens?_eq_none_iff {t : List Char} : opens? t = none ↔ ∀ k, ¬ Opens k t := by
  rw [Option.eq_none_iff_forall_ne_some]
  exact forall_congr' fun k => not_congr opens?_eq_some_iff

end Mender.Markup
