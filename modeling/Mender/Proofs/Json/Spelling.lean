import Mathlib.Data.List.TakeWhile
import Mathlib.Tactic.Common
import Mathlib.Tactic.Lemma
import Mender.Json.Reader

/-!
How values are spelled.

A grammar of the texts of values, beside their reader. A number or a string is spelled by what is
read as it whatever follows, a list or an object by the texts of its parts with commas and blanks
between them. Whatever is spelled is read.
-/

namespace Mender.Json

/-- A text of blanks. -/
def Spaces (b : List Char) : Prop := ∀ c ∈ b, isSpace c = true

/-- The text does not go on with a number. -/
def Stops (t : List Char) : Prop :=
  ∀ c ∈ t.head?, c.isDigit = false ∧ c ≠ '.' ∧ c ≠ 'e' ∧ c ≠ 'E'

/-- What a value's text ends with, when that is the same for all values of its kind. -/
def closer : Json → List Char
  | .obj _ => ['}']
  | .arr _ => [']']
  | _ => []

/-- The characters of numbers, signs in front apart. -/
def isNumeric (c : Char) : Bool :=
  c.isDigit || c == '.' || c == 'e' || c == 'E' || c == '+' || c == '-'

/-- A text that `reader` takes for the number `v`, whatever follows. -/
structure Numeral (reader : List Char → Reading Json) (v : Json) (u : List Char) : Prop where
  reads : ∀ r, Stops r → reader (u ++ r) = .ok (v, r)
  kind : closer v = []
  chars : ∀ c ∈ u, isNumeric c = true

/-- The rest of a string literal with its closing quote; `escaped` behind a backslash. -/
inductive Literal : (escaped : Bool) → List Char → Prop
  | close : Literal false ['"']
  | plain {c u} (hquote : c ≠ '"') (hback : c ≠ '\\') (hc : ¬ c.toNat < 32)
      (h : Literal false u) : Literal false (c :: u)
  | backslash {u} (h : Literal true u) : Literal false ('\\' :: u)
  | escape {c u} (hc : ¬ c.toNat < 32) (h : Literal false u) : Literal true (c :: u)

/-- The literal of a string after its opening quote. -/
structure Quoted (s : String) (u : List Char) : Prop where
  reads : ∀ r, string (u ++ r) = .ok (s, r)
  literal : Literal false u

/-- The texts of values that are neither lists nor objects. -/
inductive Scalar : Json → List Char → Prop
  | null : Scalar .null ['n', 'u', 'l', 'l']
  | true : Scalar (.bool true) ['t', 'r', 'u', 'e']
  | false : Scalar (.bool false) ['f', 'a', 'l', 's', 'e']
  | negative {v u} (h : Numeral (number true) v u) : Scalar v ('-' :: u)
  | number {v c u} (hc : c.isDigit = true) (h : Numeral (number false) v (c :: u)) :
      Scalar v (c :: u)
  | string {s u} (h : Quoted s u) : Scalar (.str s) ('"' :: u)

/-- What follows the first part of a container: other parts, each behind a comma. -/
inductive More {α : Type} (P : α → List Char → Prop) : List α → List Char → Prop
  | done {b} (hb : Spaces b) : More P [] b
  | next {b b' x u xs w} (hb : Spaces b) (hb' : Spaces b') (hx : P x u) (h : More P xs w) :
      More P (x :: xs) (b ++ ',' :: (b' ++ (u ++ w)))

/-- What stands between the brackets of a container. -/
inductive Row {α : Type} (P : α → List Char → Prop) : List α → List Char → Prop
  | empty {b} (hb : Spaces b) : Row P [] b
  | parts {b x u xs w} (hb : Spaces b) (hx : P x u) (h : More P xs w) :
      Row P (x :: xs) (b ++ (u ++ w))

/-- The texts of the fields of an object. -/
inductive Field (P : Json → List Char → Prop) : String × Json → List Char → Prop
  | mk {k ks b b' v u} (hk : Quoted k ks) (hb : Spaces b) (hb' : Spaces b') (hv : P v u) :
      Field P (k, v) ('"' :: (ks ++ (b ++ ':' :: (b' ++ u))))

/-- The texts of values whose parts have texts in `P`. -/
inductive Spells (P : Json → List Char → Prop) : Json → List Char → Prop
  | scalar {v u} (h : Scalar v u) : Spells P v u
  | list {xs w} (h : Row P xs w) : Spells P (.arr xs) ('[' :: (w ++ [']']))
  | object {es w} (h : Row (Field P) es w) : Spells P (.ofFields es) ('{' :: (w ++ ['}']))

/-- The texts of a value, with at most `depth` lists and objects open at a time. -/
def Spelled : (depth : Nat) → Json → List Char → Prop
  | 0 => Scalar
  | d + 1 => Spells (Spelled d)

/-! ### Blanks -/

lemma spaces_nil : Spaces [] := List.forall_mem_nil _

lemma Spaces.append {b b' : List Char} (h : Spaces b) (h' : Spaces b') : Spaces (b ++ b') :=
  List.forall_mem_append.2 ⟨h, h'⟩

lemma skipSpace_cons {c : Char} (h : isSpace c = false) (t : List Char) :
    skipSpace (c :: t) = c :: t := by
  rw [skipSpace, List.dropWhile_cons_of_neg (by simp [h])]

lemma skipSpace_append {b : List Char} (h : Spaces b) (t : List Char) :
    skipSpace (b ++ t) = skipSpace t := List.dropWhile_append_of_pos h

lemma skipSpace_behind {b : List Char} (h : Spaces b) {c : Char} (hc : isSpace c = false)
    (t : List Char) : skipSpace (b ++ c :: t) = c :: t := by
  rw [skipSpace_append h, skipSpace_cons hc]

lemma exists_skipSpace (t : List Char) : ∃ b, Spaces b ∧ t = b ++ skipSpace t :=
  ⟨t.takeWhile isSpace, fun _ h => List.mem_takeWhile_imp h,
    List.takeWhile_append_dropWhile.symm⟩

lemma stops_nil : Stops [] := by simp [Stops]

lemma stops_cons {c : Char} (hc : c.isDigit = false ∧ c ≠ '.' ∧ c ≠ 'e' ∧ c ≠ 'E')
    (t : List Char) : Stops (c :: t) := by simpa [Stops] using hc

lemma stops_behind {b : List Char} (hb : Spaces b) {t : List Char} (ht : Stops t) :
    Stops (b ++ t) := by
  cases b with
  | nil => exact ht
  | cons c b =>
    have hc : isSpace c = true := hb c List.mem_cons_self
    refine stops_cons ?_ _
    simp only [isSpace, Bool.or_eq_true, beq_iff_eq] at hc
    rcases hc with ((rfl | rfl) | rfl) | rfl <;> decide

/-! ### How a value begins -/

/-- The text begins with what is neither blank nor the end of a list. -/
def Begins (t : List Char) : Prop := ∃ c r, t = c :: r ∧ isSpace c = false ∧ c ≠ ']'

lemma isSpace_of_isDigit {c : Char} (h : c.isDigit = true) : isSpace c = false := by
  rw [← Bool.not_eq_true]
  intro hs
  simp only [isSpace, Bool.or_eq_true, beq_iff_eq] at hs
  rcases hs with ((rfl | rfl) | rfl) | rfl <;> exact absurd h (by decide)

lemma Scalar.begins {v : Json} {u : List Char} (h : Scalar v u) : Begins u := by
  cases h with
  | number hc => exact ⟨_, _, rfl, isSpace_of_isDigit hc, by rintro rfl; exact absurd hc (by decide)⟩
  | _ => exact ⟨_, _, rfl, by decide, by decide⟩

lemma Spells.begins {P : Json → List Char → Prop} {v : Json} {u : List Char} (h : Spells P v u) :
    Begins u := by
  cases h with
  | scalar h => exact h.begins
  | _ => exact ⟨_, _, rfl, by decide, by decide⟩

lemma Spelled.begins {d : Nat} {v : Json} {u : List Char} (h : Spelled d v u) : Begins u := by
  cases d with
  | zero => exact Scalar.begins h
  | succ d => exact Spells.begins h

lemma Begins.skipSpace {u : List Char} (h : Begins u) {b : List Char} (hb : Spaces b)
    (t : List Char) : skipSpace (b ++ (u ++ t)) = u ++ t := by
  obtain ⟨c, r, rfl, hc, -⟩ := h
  exact skipSpace_behind hb hc _

/-! ### What is spelled is read -/

/-- The reading `item` gives what is spelled. -/
def Gives (item : List Char → Reading Json) (P : Json → List Char → Prop) : Prop :=
  ∀ v u, P v u → ∀ b r, Spaces b → Stops r → item (b ++ (u ++ r)) = .ok (v, r)

variable {item : List Char → Reading Json} {P : Json → List Char → Prop}

lemma Gives.here (hg : Gives item P) {v : Json} {u r : List Char} (h : P v u) (hr : Stops r) :
    item (u ++ r) = .ok (v, r) := hg v u h [] r spaces_nil hr

lemma More.stops {α : Type} {P : α → List Char → Prop} {xs : List α} {w : List Char}
    (h : More P xs w) {c : Char} (hc : c = ']' ∨ c = '}') (r : List Char) :
    Stops (w ++ c :: r) := by
  cases h with
  | done hb =>
    refine stops_behind hb (stops_cons ?_ _)
    rcases hc with rfl | rfl <;> decide
  | next hb =>
    rw [List.append_assoc]
    exact stops_behind hb (stops_cons (by decide) _)

lemma elements_step_comma {t r s : List Char} {c : Char} (ht : skipSpace t = ',' :: r)
    (hs : skipSpace r = c :: s) (hc : c ≠ ']') {i : Nat} (hi : i ≠ 0) (n : Nat) :
    elements item (n + 1) i t = elements.step item n i (item (c :: s)) := by
  simp [elements, ht, hs, hi, hc]

lemma elements_step_first {t s : List Char} {c : Char} (hs : skipSpace t = c :: s) (hc : c ≠ ']')
    (n : Nat) : elements item (n + 1) 0 t = elements.step item n 0 (item (c :: s)) := by
  rw [elements, hs]
  simp

lemma elements_more (hg : Gives item P) (hp : ∀ v u, P v u → Begins u) {xs : List Json}
    {w : List Char} (h : More P xs w) (r : List Char) {n i : Nat} (hn : xs.length < n) (hi : i ≠ 0) :
    elements item n i (w ++ ']' :: r) = .ok (xs, r) := by
  induction h generalizing n i with
  | done hb =>
    obtain ⟨n, rfl⟩ := Nat.exists_eq_add_one_of_ne_zero (Nat.ne_of_gt hn)
    simp [elements, skipSpace_behind hb (show isSpace ']' = false by decide)]
  | @next b b' x u xs w hb hb' hx h ih =>
    obtain ⟨n, rfl⟩ := Nat.exists_eq_add_one_of_ne_zero (Nat.ne_of_gt (Nat.zero_lt_of_lt hn))
    have hcomma : skipSpace (b ++ ',' :: (b' ++ (u ++ w)) ++ ']' :: r) =
        ',' :: (b' ++ (u ++ (w ++ ']' :: r))) := by
      simpa using skipSpace_behind hb (show isSpace ',' = false by decide)
        (b' ++ (u ++ (w ++ ']' :: r)))
    have hpart := (hp x u hx).skipSpace hb' (w ++ ']' :: r)
    have hitem := hg.here hx (h.stops (.inl rfl) r)
    have hstep : elements item (n + 1) i (b ++ ',' :: (b' ++ (u ++ w)) ++ ']' :: r) =
        elements.step item n i (item (u ++ (w ++ ']' :: r))) := by
      obtain ⟨c, s, rfl, -, hc⟩ := hp x u hx
      exact elements_step_comma hcomma hpart hc hi n
    rw [hstep, hitem, elements.step, ih (Nat.lt_of_succ_lt_succ hn) (Nat.succ_ne_zero i)]
    rfl

lemma length_le_more {α : Type} {P : α → List Char → Prop} {xs : List α} {w : List Char}
    (h : More P xs w) : xs.length ≤ w.length := by
  induction h with
  | done => exact Nat.zero_le _
  | next =>
    simp only [List.length_append, List.length_cons]
    omega

lemma elements_row (hg : Gives item P) (hp : ∀ v u, P v u → Begins u) {xs : List Json}
    {w : List Char} (h : Row P xs w) (r : List Char) :
    elements item ((w ++ ']' :: r).length + 1) 0 (w ++ ']' :: r) = .ok (xs, r) := by
  cases h with
  | empty hb => simp [elements, skipSpace_behind hb (show isSpace ']' = false by decide)]
  | @parts b x u xs w hb hx h =>
    have hpart := (hp x u hx).skipSpace hb (w ++ ']' :: r)
    have hitem := hg.here hx (h.stops (.inl rfl) r)
    have hlen : xs.length < (b ++ (u ++ w) ++ ']' :: r).length := by
      have := length_le_more h
      simp only [List.length_append, List.length_cons]
      omega
    have hstep (n : Nat) : elements item (n + 1) 0 (b ++ (u ++ w) ++ ']' :: r) =
        elements.step item n 0 (item (u ++ (w ++ ']' :: r))) := by
      obtain ⟨c, s, rfl, -, hc⟩ := hp x u hx
      rw [List.append_assoc, List.append_assoc]
      exact elements_step_first hpart hc n
    rw [hstep, hitem, elements.step, elements_more hg hp h r hlen (Nat.succ_ne_zero 0)]
    rfl

/-- A key, the colon behind it and its value. -/
lemma member_field (hg : Gives item P) {k : String} {ks b b' u r : List Char} {v : Json}
    (hk : Quoted k ks) (hb : Spaces b) (hb' : Spaces b') (hv : P v u) (hr : Stops r) :
    string (ks ++ (b ++ ':' :: (b' ++ u)) ++ r) = .ok (k, b ++ ':' :: (b' ++ (u ++ r))) ∧
      member item k (b ++ ':' :: (b' ++ (u ++ r))) = .ok (v, r) := by
  constructor
  · simpa using hk.reads (b ++ ':' :: (b' ++ (u ++ r)))
  · have hcolon : colon (b ++ ':' :: (b' ++ (u ++ r))) = .ok (b' ++ (u ++ r)) := by
      simp [colon, skipSpace_behind hb (show isSpace ':' = false by decide)]
    rw [member, hcolon]
    simp only [Except.bind, hg v u hv b' r hb' hr]

/-- A field whose key has been found, and what is read after it. -/
lemma members_step (hg : Gives item P) {k : String} {v : Json} {s r t : List Char}
    (hf : Field P (k, v) ('"' :: s)) (hr : Stops r) {first : Bool}
    (ht : nextKey first t = .ok (some (s ++ r), s ++ r)) (n : Nat) :
    members item (n + 1) first t =
      (members item n false r).map fun p => ((k, v) :: p.1, p.2) := by
  cases hf with
  | mk hk hb hb' hv =>
    obtain ⟨hs, hm⟩ := member_field hg hk hb hb' hv hr
    rw [members, ht]
    simp only [hs, hm]

lemma Field.exists_quote {f : List Char} {e : String × Json} (h : Field P e f) :
    ∃ s, f = '"' :: s := by
  cases h with
  | mk => exact ⟨_, rfl⟩

lemma begins_quote (s : List Char) : Begins ('"' :: s) := ⟨_, _, rfl, by decide, by decide⟩

lemma nextKey_comma {t r s : List Char} (ht : skipSpace t = ',' :: r)
    (hs : skipSpace r = '"' :: s) : nextKey false t = .ok (some s, s) := by
  simp [nextKey, ht, hs]

lemma members_more (hg : Gives item P) {es : List (String × Json)} {w : List Char}
    (h : More (Field P) es w) (r : List Char) {n : Nat} (hn : es.length < n) :
    members item n false (w ++ '}' :: r) = .ok (es, r) := by
  induction h generalizing n with
  | done hb =>
    obtain ⟨n, rfl⟩ := Nat.exists_eq_add_one_of_ne_zero (Nat.ne_of_gt hn)
    simp [members, nextKey, skipSpace_behind hb (show isSpace '}' = false by decide)]
  | @next b b' e f es w hb hb' hf h ih =>
    obtain ⟨n, rfl⟩ := Nat.exists_eq_add_one_of_ne_zero (Nat.ne_of_gt (Nat.zero_lt_of_lt hn))
    have hcomma : skipSpace (b ++ ',' :: (b' ++ (f ++ w)) ++ '}' :: r) =
        ',' :: (b' ++ (f ++ (w ++ '}' :: r))) := by
      simpa using skipSpace_behind hb (show isSpace ',' = false by decide)
        (b' ++ (f ++ (w ++ '}' :: r)))
    obtain ⟨s, rfl⟩ := hf.exists_quote
    have hkey := nextKey_comma hcomma ((begins_quote s).skipSpace hb' (w ++ '}' :: r))
    rw [members_step hg hf (h.stops (.inr rfl) r) hkey, ih (Nat.lt_of_succ_lt_succ hn)]
    rfl

lemma members_row (hg : Gives item P) {es : List (String × Json)} {w : List Char}
    (h : Row (Field P) es w) (r : List Char) :
    members item ((w ++ '}' :: r).length + 1) true (w ++ '}' :: r) = .ok (es, r) := by
  cases h with
  | empty hb => simp [members, nextKey, skipSpace_behind hb (show isSpace '}' = false by decide)]
  | @parts b e f es w hb hf h =>
    obtain ⟨s, rfl⟩ := hf.exists_quote
    have hkey : nextKey true (b ++ ('"' :: s ++ w) ++ '}' :: r) =
        .ok (some (s ++ (w ++ '}' :: r)), s ++ (w ++ '}' :: r)) := by
      rw [List.append_assoc, List.append_assoc, nextKey,
        (begins_quote s).skipSpace hb (w ++ '}' :: r)]
      rfl
    have hlen : es.length < (b ++ ('"' :: s ++ w) ++ '}' :: r).length := by
      have := length_le_more h
      simp only [List.length_append, List.length_cons]
      omega
    rw [members_step hg hf (h.stops (.inr rfl) r) hkey, members_more hg h r hlen]
    rfl

lemma valueWith_digit (inner : Option (List Char → Reading Json)) {t s : List Char} {c : Char}
    (hc : c.isDigit = true) (ht : skipSpace t = c :: s) :
    valueWith inner t = number false (c :: s) := by
  have hne : ∀ d, d.isDigit = false → d ≠ c := by
    rintro d hd rfl
    rw [hc] at hd
    cases hd
  rw [valueWith, ht]
  split
  · next heq => cases heq
  iterate 7 next heq => exact absurd (List.cons.inj heq).1.symm (hne _ (by decide))
  · next heq =>
    cases heq
    exact if_pos hc

lemma valueWith_scalar (inner : Option (List Char → Reading Json)) {v : Json} {u b r : List Char}
    (h : Scalar v u) (hb : Spaces b) (hr : Stops r) :
    valueWith inner (b ++ (u ++ r)) = .ok (v, r) := by
  have hskip := h.begins.skipSpace hb r
  cases h with
  | null | true | false =>
    rw [valueWith, hskip]
    rfl
  | negative h =>
    rw [valueWith, hskip]
    exact h.reads r hr
  | string h =>
    rw [valueWith, hskip]
    exact congrArg (Except.map fun p => (Json.str p.1, p.2)) (h.reads r)
  | number hc h =>
    rw [valueWith_digit inner hc hskip]
    exact h.reads r hr

/-- **What is spelled is read.** -/
theorem gives_valueWith (hg : Gives item P) (hp : ∀ v u, P v u → Begins u) :
    Gives (valueWith (some item)) (Spells P) := by
  intro v u h b r hb hr
  have hskip := h.begins.skipSpace hb r
  cases h with
  | scalar h => exact valueWith_scalar _ h hb hr
  | list h =>
    have hrow := elements_row hg hp h r
    rw [valueWith, hskip]
    simp only [List.cons_append, List.append_assoc, List.nil_append, hrow]
    rfl
  | object h =>
    have hrow := members_row hg h r
    rw [valueWith, hskip]
    simp only [List.cons_append, List.append_assoc, List.nil_append, hrow]
    rfl

theorem gives_value (depth : Nat) : Gives (value depth) (Spelled depth) := by
  induction depth with
  | zero => exact fun v u h b r hb hr => valueWith_scalar none h hb hr
  | succ d ih => exact gives_valueWith ih fun v u h => h.begins

end Mender.Json
