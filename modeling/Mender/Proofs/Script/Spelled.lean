import Mathlib.Tactic.Common
import Mathlib.Tactic.Lemma
import Mender.Proofs.Json.Extent
import Mender.Proofs.Script.Cell
import Mender.Text.Search

/-!
Strings as scripts spell them.

Between its quotes a literal is a row of pieces, characters and escapes, and each stands for some
UTF-16 units. An escape is longer than what it stands for, so a literal that has one is not the
string it means. Read as JSON a literal gives its string exactly if JSON has all its pieces.
-/

namespace Mender.Script

open Mender.Text

/-! ### UTF-16 -/

def codeUnits (n : Nat) : List Nat :=
  if n < 0x10000 then [n] else [0xD800 + (n - 0x10000) / 1024, 0xDC00 + (n - 0x10000) % 1024]

def unitsOf (t : List Char) : List Nat := t.flatMap fun c => codeUnits c.toNat

def IsLead (n : Nat) : Prop := 0xD800 ≤ n ∧ n ≤ 0xDBFF

def IsTrail (n : Nat) : Prop := 0xDC00 ≤ n ∧ n ≤ 0xDFFF

@[simp] lemma unitsOf_nil : unitsOf [] = [] := rfl

@[simp] lemma unitsOf_cons (c : Char) (t : List Char) : unitsOf (c :: t) = codeUnits c.toNat ++ unitsOf t := rfl

@[simp] lemma unitsOf_append (t u : List Char) : unitsOf (t ++ u) = unitsOf t ++ unitsOf u :=
  List.flatMap_append

lemma toNat_valid (c : Char) : c.toNat < 0xD800 ∨ 0xDFFF < c.toNat ∧ c.toNat < 0x110000 := c.valid

/-- A character is one unit that is no surrogate, or a pair of surrogates. -/
lemma codeUnits_cases (c : Char) :
    (codeUnits c.toNat = [c.toNat] ∧ ¬IsLead c.toNat ∧ ¬IsTrail c.toNat) ∨
      ∃ m n, codeUnits c.toNat = [m, n] ∧ IsLead m ∧ IsTrail n ∧
        c.toNat = (m - 0xD800) * 1024 + (n - 0xDC00) + 0x10000 := by
  have hvalid := toNat_valid c
  unfold codeUnits IsLead IsTrail
  by_cases h : c.toNat < 0x10000
  · exact .inl ⟨if_pos h, by omega, by omega⟩
  · exact .inr ⟨_, _, if_neg h, by omega, by omega, by omega⟩

lemma length_codeUnits (n : Nat) : 1 ≤ (codeUnits n).length ∧ (codeUnits n).length ≤ 2 := by
  unfold codeUnits
  split <;> simp

lemma length_le_unitsOf (t : List Char) : t.length ≤ (unitsOf t).length := by
  induction t with
  | nil => exact Nat.le_refl 0
  | cons c t ih =>
    have := (length_codeUnits c.toNat).1
    rw [unitsOf_cons, List.length_append, List.length_cons]
    omega

/-- **A text is known from its units**, character by character. -/
lemma exists_of_units {c : Char} {u : List Nat} {t : List Char} (h : codeUnits c.toNat ++ u = unitsOf t) :
    ∃ r, t = c :: r ∧ u = unitsOf r := by
  cases t with
  | nil =>
    have := (length_codeUnits c.toNat).1
    have hlength := congrArg List.length h
    rw [List.length_append, unitsOf_nil, List.length_nil] at hlength
    omega
  | cons d t =>
    rw [unitsOf_cons] at h
    refine ⟨t, ?_⟩
    rcases codeUnits_cases c with ⟨hc, hlead, -⟩ | ⟨m, n, hc, hlead, -, hpair⟩ <;>
      rcases codeUnits_cases d with ⟨hd, hlead', -⟩ | ⟨m', n', hd, hlead', -, hpair'⟩ <;>
      rw [hc, hd] at h <;> obtain ⟨hfirst, hrest⟩ := List.cons.inj h
    · exact ⟨by rw [Char.toNat_inj.1 hfirst], hrest⟩
    · exact absurd (hfirst ▸ hlead') hlead
    · exact absurd (hfirst ▸ hlead) hlead'
    · obtain ⟨hsecond, hrest⟩ := List.cons.inj hrest
      rw [hfirst, hsecond, ← hpair'] at hpair
      exact ⟨by rw [Char.toNat_inj.1 hpair], hrest⟩

lemma unitsOf_injective {t u : List Char} (h : unitsOf t = unitsOf u) : t = u := by
  induction t generalizing u with
  | nil =>
    have hlength := length_le_unitsOf u
    rw [← h] at hlength
    exact (List.length_eq_zero_iff.1 (Nat.le_zero.1 hlength)).symm
  | cons c t ih =>
    obtain ⟨r, rfl, hr⟩ := exists_of_units h
    rw [ih hr]

/-- The units of a text that begin with a lead have a trail behind it. -/
lemma exists_of_lead {m : Nat} (hm : IsLead m) {u : List Nat} {t : List Char} (h : m :: u = unitsOf t) :
    ∃ c r n, t = c :: r ∧ u = n :: unitsOf r ∧ IsTrail n ∧
      c.toNat = (m - 0xD800) * 1024 + (n - 0xDC00) + 0x10000 := by
  cases t with
  | nil => exact absurd h (List.cons_ne_nil _ _)
  | cons c t =>
    rw [unitsOf_cons] at h
    rcases codeUnits_cases c with ⟨hc, hlead, -⟩ | ⟨m', n, hc, -, htrail, hpair⟩ <;> rw [hc] at h <;>
      obtain ⟨rfl, hrest⟩ := List.cons.inj h
    · exact absurd hm hlead
    · exact ⟨c, t, n, rfl, hrest, htrail, hpair⟩

/-- The units of a text do not begin with a trail. -/
lemma not_trail {n : Nat} {u : List Nat} {t : List Char} (h : n :: u = unitsOf t) : ¬IsTrail n := by
  cases t with
  | nil => exact absurd h (List.cons_ne_nil _ _)
  | cons c t =>
    rw [unitsOf_cons] at h
    rcases codeUnits_cases c with ⟨hc, -, htrail⟩ | ⟨m, n', hc, hlead, -, -⟩ <;> rw [hc] at h <;>
      obtain ⟨rfl, -⟩ := List.cons.inj h
    · exact htrail
    · unfold IsLead IsTrail at *
      omega

/-! ### Pieces of a literal -/

/-- A piece of what stands between the quotes of a literal. -/
inductive Piece
  | plain (c : Char)
  /-- A carriage return in a template, with or without a line feed. -/
  | lineEnd (pair : Bool)
  /-- A backslash with a character. -/
  | mark (c : Char)
  | zero
  | byte (a b : Char)
  | unit (a b c d : Char)
  | point (ds : List Char)
  /-- A backslash at the end of a line. -/
  | joint (t : List Char)
  deriving DecidableEq

def hexNumber (ds : List Char) : Nat := ds.foldl (fun n c => n * 16 + (Json.hexValue? c).getD 0) 0

def IsHexText (ds : List Char) : Prop := ∀ c ∈ ds, (Json.hexValue? c).isSome

instance : DecidablePred IsHexText := fun ds => List.decidableBAll _ ds

/-- The character that a backslash gives a character. -/
def escapedChar (c : Char) : Char :=
  match c with
  | 'b' => '\x08'
  | 'f' => '\x0c'
  | 'n' => '\n'
  | 'r' => '\r'
  | 't' => '\t'
  | 'v' => '\x0b'
  | c => c

def lineEnds : List Char := ['\n', '\r', '\u2028', '\u2029']

namespace Piece

def text : Piece → List Char
  | plain c => [c]
  | lineEnd pair => if pair then ['\r', '\n'] else ['\r']
  | mark c => ['\\', c]
  | zero => ['\\', '0']
  | byte a b => ['\\', 'x', a, b]
  | unit a b c d => ['\\', 'u', a, b, c, d]
  | point ds => '\\' :: 'u' :: '{' :: (ds ++ ['}'])
  | joint t => '\\' :: t

/-- The units that a piece stands for. -/
def units : Piece → List Nat
  | plain c => codeUnits c.toNat
  | lineEnd _ => codeUnits '\n'.toNat
  | mark c => codeUnits (escapedChar c).toNat
  | zero => [0]
  | byte a b => [hexNumber [a, b]]
  | unit a b c d => [hexNumber [a, b, c, d]]
  | point ds => codeUnits (hexNumber ds)
  | joint _ => []

/-- Whether a piece may stand in quotes in front of a text. Only a template may go over several lines,
and nothing may be put into it. -/
def Legal (quote : Char) (rest : List Char) : Piece → Prop
  | plain c => c ≠ '\\' ∧ c ≠ quote ∧ c ≠ '\r' ∧
      if quote = '\x60' then ¬(c = '$' ∧ rest.head? = some '{') else c ≠ '\n'
  | lineEnd pair => quote = '\x60' ∧ (pair = false → rest.head? ≠ some '\n')
  | mark c => c.isDigit = false ∧ c ≠ 'x' ∧ c ≠ 'u' ∧ c ∉ lineEnds
  | zero => ∀ c ∈ rest.head?, c.isDigit = false
  | byte a b => IsHexText [a, b]
  | unit a b c d => IsHexText [a, b, c, d]
  | point ds => ds ≠ [] ∧ IsHexText ds ∧ hexNumber ds < 0x110000
  | joint t => t = ['\r', '\n'] ∨ (∃ c ∈ lineEnds, t = [c] ∧ (c = '\r' → rest.head? ≠ some '\n'))

instance {quote : Char} {rest : List Char} : DecidablePred (Legal quote rest)
  | plain c => inferInstanceAs (Decidable (c ≠ '\\' ∧ c ≠ quote ∧ c ≠ '\r' ∧
      if quote = '\x60' then ¬(c = '$' ∧ rest.head? = some '{') else c ≠ '\n'))
  | lineEnd _ => inferInstanceAs (Decidable (_ ∧ _))
  | mark _ => inferInstanceAs (Decidable (_ ∧ _ ∧ _ ∧ _))
  | zero => Option.decidableForallMem rest.head?
  | byte a b => inferInstanceAs (Decidable (IsHexText [a, b]))
  | unit a b c d => inferInstanceAs (Decidable (IsHexText [a, b, c, d]))
  | point _ => inferInstanceAs (Decidable (_ ∧ _ ∧ _))
  | joint t =>
    have : Decidable (∃ c ∈ lineEnds, t = [c] ∧ (c = '\r' → rest.head? ≠ some '\n')) := List.decidableBEx _ _
    inferInstanceAs (Decidable (_ ∨ _))

/-- The piece stands for itself. -/
def IsPlain (p : Piece) : Prop := ∃ c, p = plain c

/-- The piece means the same in JSON. -/
def InJson : Piece → Prop
  | plain c => 32 ≤ c.toNat
  | mark c => c ∈ "\"\\/bfnrt".toList
  | unit _ _ _ _ => True
  | _ => False

end Piece

/-- The text of some pieces. -/
def spelled (ps : List Piece) : List Char := ps.flatMap Piece.text

/-- The units that some pieces stand for. -/
def meant (ps : List Piece) : List Nat := ps.flatMap Piece.units

/-- Some pieces that may stand between two quotes. -/
def Spelling (quote : Char) : List Piece → Prop
  | [] => True
  | p :: ps => p.Legal quote (spelled ps ++ [quote]) ∧ Spelling quote ps

instance decidableSpelling (quote : Char) : DecidablePred (Spelling quote)
  | [] => inferInstanceAs (Decidable True)
  | _ :: ps =>
    have := decidableSpelling quote ps
    inferInstanceAs (Decidable (_ ∧ _))

/-- A literal with its quotes. -/
def literalText (quote : Char) (ps : List Piece) : List Char := quote :: (spelled ps ++ [quote])

@[simp] lemma spelled_nil : spelled [] = [] := rfl

@[simp] lemma spelled_cons (p : Piece) (ps : List Piece) : spelled (p :: ps) = p.text ++ spelled ps := rfl

@[simp] lemma meant_nil : meant [] = [] := rfl

@[simp] lemma meant_cons (p : Piece) (ps : List Piece) : meant (p :: ps) = p.units ++ meant ps := rfl

/-! ### Escapes are longer than what they stand for -/

lemma length_escapedChar (c : Char) : (codeUnits (escapedChar c).toNat).length ≤ (codeUnits c.toNat).length := by
  fun_cases escapedChar c with
  | case7 => exact Nat.le_refl _
  | _ => exact (length_codeUnits _).1

lemma Piece.units_lt {p : Piece} (h : ¬p.IsPlain) (hend : p ≠ .lineEnd false) :
    p.units.length < (unitsOf p.text).length := by
  cases p with
  | plain c => exact absurd ⟨c, rfl⟩ h
  | lineEnd pair =>
    cases pair with
    | false => exact absurd rfl hend
    | true => decide
  | mark c =>
    have hlength := length_escapedChar c
    have hback : codeUnits '\\'.toNat = [92] := by decide
    rw [text, units, unitsOf_cons, unitsOf_cons, hback, unitsOf_nil, List.append_nil, List.singleton_append,
      List.length_cons]
    omega
  | point ds =>
    have htext : (text (.point ds)).length = ds.length + 4 := by simp [text]
    have hlength := length_le_unitsOf (text (.point ds))
    have htwo : (units (.point ds)).length ≤ 2 := (length_codeUnits (hexNumber ds)).2
    omega
  | zero | byte | unit | joint =>
    refine Nat.lt_of_lt_of_le ?_ (length_le_unitsOf _)
    simp [text, units]

lemma Piece.units_le (p : Piece) : p.units.length ≤ (unitsOf p.text).length := by
  by_cases h : p.IsPlain
  · obtain ⟨c, rfl⟩ := h
    rw [text, units, unitsOf_cons, unitsOf_nil, List.append_nil]
  · by_cases hend : p = .lineEnd false
    · subst hend
      exact Nat.le_refl 1
    · exact Nat.le_of_lt (units_lt h hend)

lemma length_meant (ps : List Piece) : (meant ps).length ≤ (unitsOf (spelled ps)).length := by
  induction ps with
  | nil => exact Nat.le_refl 0
  | cons p ps ih =>
    have := p.units_le
    rw [meant_cons, spelled_cons, unitsOf_append, List.length_append, List.length_append]
    omega

/-- **Only plain pieces stand for themselves.** -/
theorem meant_eq_iff {ps : List Piece} : meant ps = unitsOf (spelled ps) ↔ ∀ p ∈ ps, p.IsPlain := by
  induction ps with
  | nil => exact ⟨fun _ p hp => absurd hp List.not_mem_nil, fun _ => rfl⟩
  | cons p ps ih =>
    have hp := p.units_le
    have hps := length_meant ps
    rw [meant_cons, spelled_cons, unitsOf_append, List.forall_mem_cons, ← ih]
    constructor
    · intro h
      have hlength := congrArg List.length h
      rw [List.length_append, List.length_append] at hlength
      obtain ⟨hunits, hrest⟩ := List.append_inj h (by omega)
      refine ⟨?_, hrest⟩
      -- a piece that is not plain is too short, but for a line end: that one differs by its unit
      by_contra hplain
      by_cases hend : p = .lineEnd false
      · subst hend
        exact absurd hunits (by decide)
      · have hlt := Piece.units_lt hplain hend
        rw [hunits] at hlt
        exact Nat.lt_irrefl _ hlt
    · rintro ⟨⟨c, rfl⟩, h⟩
      rw [h, Piece.text, Piece.units, unitsOf_cons, unitsOf_nil, List.append_nil]

/-! ### Literals read as JSON -/

section

open Json

/-- Reads the four digits of an escape. -/
lemma stringTail_hex {lead : Option Nat} {a b c d : Char} (h : IsHexText [a, b, c, d]) (r : List Char) :
    stringTail (.hex lead 0 0) (a :: b :: c :: d :: r) =
      match finishHex lead (hexNumber [a, b, c, d]) with
      | .error f => failHere f r
      | .ok (s, some c) => stringTail.push c (stringTail s r)
      | .ok (s, none) => stringTail s r := by
  simp only [IsHexText, List.forall_mem_cons, Option.isSome_iff_exists] at h
  obtain ⟨⟨va, ha⟩, ⟨vb, hb⟩, ⟨vc, hc⟩, ⟨vd, hd⟩, -⟩ := h
  have hnumber : hexNumber [a, b, c, d] = ((va * 16 + vb) * 16 + vc) * 16 + vd := by
    simp [hexNumber, ha, hb, hc, hd]
  rw [hnumber]
  simp only [stringTail, ha, hb, hc, hd, Nat.zero_mul, Nat.zero_add]
  rcases finishHex lead (((va * 16 + vb) * 16 + vc) * 16 + vd) with f | ⟨s, _ | e⟩ <;> rfl

/-- The characters that JSON has an escape with. -/
lemma shortEscape?_eq (c : Char) :
    shortEscape? c = if c ∈ "\"\\/bfnrt".toList then some (escapedChar c) else none := by
  fun_cases shortEscape? c with
  | case9 hquote hback hslash hb hf hn hr ht =>
    exact (if_neg (by simp_all)).symm
  | _ => decide

lemma hexValue?_lt {c : Char} {v : Nat} (h : hexValue? c = some v) : v < 16 := by
  have hle {a b : Char} : a ≤ b ↔ a.toNat ≤ b.toNat := Iff.rfl
  unfold hexValue? at h
  split_ifs at h with hdigit hlower hupper <;> cases h
  · have : c.toNat ≤ 57 := hle.1 hdigit.2
    omega
  · have : c.toNat ≤ 102 := hle.1 hlower.2
    omega
  · have : c.toNat ≤ 70 := hle.1 hupper.2
    omega

lemma hexNumber_lt {a b c d : Char} (h : IsHexText [a, b, c, d]) : hexNumber [a, b, c, d] < 0x10000 := by
  simp only [IsHexText, List.forall_mem_cons, Option.isSome_iff_exists] at h
  obtain ⟨⟨va, ha⟩, ⟨vb, hb⟩, ⟨vc, hc⟩, ⟨vd, hd⟩, -⟩ := h
  have := hexValue?_lt ha
  have := hexValue?_lt hb
  have := hexValue?_lt hc
  have := hexValue?_lt hd
  simp only [hexNumber, List.foldl_cons, List.foldl_nil, ha, hb, hc, hd, Option.getD_some]
  omega

/-- How a piece is read: as a character, or as a half of a pair. -/
inductive ReadAs (p : Piece) : Prop
  | char (c : Char) (hunits : p.units = codeUnits c.toNat)
      (hreads : ∀ r, stringTail .plain (p.text ++ r) = stringTail.push c (stringTail .plain r))
  | lead (m : Nat) (hunits : p.units = [m]) (hm : IsLead m)
      (hreads : ∀ r, stringTail .plain (p.text ++ r) = stringTail (.pairBackslash m) r)
  | trail (n : Nat) (hunits : p.units = [n]) (hn : IsTrail n)
      (hreads : ∀ m r, stringTail (.pairBackslash m) (p.text ++ r) =
        stringTail.push (Char.ofNat ((m - 0xD800) * 1024 + (n - 0xDC00) + 0x10000)) (stringTail .plain r))

lemma toNat_ofNat {n : Nat} (h : n < 0xD800 ∨ 0xDFFF < n ∧ n < 0x110000) : (Char.ofNat n).toNat = n := by
  unfold Char.ofNat
  rw [dif_pos h]
  rfl

lemma Piece.readAs {p : Piece} {rest : List Char} (hlegal : p.Legal '"' rest) (hp : p.InJson) : ReadAs p := by
  cases p with
  | plain c =>
    obtain ⟨hback, hquote, -⟩ := hlegal
    have hlow : ¬c.toNat < 32 := Nat.not_lt.2 hp
    exact .char c rfl fun r => by
      rw [text, List.singleton_append, stringTail, if_neg hquote, if_neg hback, if_neg hlow]
  | mark c =>
    obtain ⟨-, -, hu, -⟩ := hlegal
    have hescape : shortEscape? c = some (escapedChar c) := (shortEscape?_eq c).trans (if_pos hp)
    exact .char (escapedChar c) rfl fun r => by
      simp [text, stringTail, hu, hescape]
  | unit a b c d =>
    have hlt := hexNumber_lt hlegal
    have hplain (r : List Char) : stringTail .plain (text (.unit a b c d) ++ r) =
        stringTail (.hex none 0 0) (a :: b :: c :: d :: r) := rfl
    have hpair (m : Nat) (r : List Char) : stringTail (.pairBackslash m) (text (.unit a b c d) ++ r) =
        stringTail (.hex (some m) 0 0) (a :: b :: c :: d :: r) := rfl
    simp only [stringTail_hex hlegal] at hplain hpair
    generalize hn : hexNumber [a, b, c, d] = n at hlt hplain hpair
    have hunits : units (.unit a b c d) = [n] := by rw [units, hn]
    by_cases htrail : IsTrail n
    · refine .trail n hunits htrail fun m r => ?_
      have hfinish : finishHex (some m) n =
          .ok (.plain, some (Char.ofNat ((m - 0xD800) * 1024 + (n - 0xDC00) + 0x10000))) := if_pos htrail
      rw [hpair, hfinish]
    · by_cases hlead : IsLead n
      · refine .lead n hunits hlead fun r => ?_
        have hfinish : finishHex none n = .ok (.pairBackslash n, none) := (if_neg htrail).trans (if_pos hlead)
        rw [hplain, hfinish]
      · have hchar : (Char.ofNat n).toNat = n := toNat_ofNat (by unfold IsLead IsTrail at *; omega)
        refine .char (Char.ofNat n) ?_ fun r => ?_
        · rw [hunits, hchar, codeUnits, if_pos hlt]
        · have hfinish : finishHex none n = .ok (.plain, some (Char.ofNat n)) := (if_neg htrail).trans (if_neg hlead)
          rw [hplain, hfinish]
  | lineEnd | zero | byte | point | joint => exact hp.elim

/-- **Pieces that JSON has are read as what they mean**, also behind the first half of a pair. -/
theorem stringTail_spelled {ps : List Piece} (hps : Spelling '"' ps) (hjson : ∀ p ∈ ps, p.InJson)
    (r : List Char) :
    (∀ t, meant ps = unitsOf t → stringTail .plain (spelled ps ++ '"' :: r) = .ok (t, r)) ∧
      ∀ m t, IsLead m → m :: meant ps = unitsOf t →
        stringTail (.pairBackslash m) (spelled ps ++ '"' :: r) = .ok (t, r) := by
  -- each state's reading rests on that of the other behind the first piece, so both go in one induction
  induction ps with
  | nil =>
    refine ⟨fun t ht => ?_, fun m t hm ht => ?_⟩
    · obtain rfl : [] = t := unitsOf_injective ht
      rfl
    · obtain ⟨-, u, n, -, hnil, -⟩ := exists_of_lead hm ht
      exact absurd hnil.symm (List.cons_ne_nil _ _)
  | cons p ps ih =>
    obtain ⟨hlegal, hps⟩ := hps
    obtain ⟨hp, hjson⟩ := List.forall_mem_cons.1 hjson
    obtain ⟨hplain, hpair⟩ := ih hps hjson
    rw [meant_cons, spelled_cons, List.append_assoc]
    cases Piece.readAs hlegal hp with
    | char c hunits hreads =>
      rw [hunits]
      refine ⟨fun t ht => ?_, fun m t hm ht => ?_⟩
      · obtain ⟨u, rfl, hu⟩ := exists_of_units ht
        rw [hreads, hplain u hu]
        rfl
      · -- a character is no second half
        obtain ⟨-, u, n, -, hn, htrail, -⟩ := exists_of_lead hm ht
        rcases codeUnits_cases c with ⟨hc, -, hnot⟩ | ⟨m', n', hc, hlead, -⟩ <;> rw [hc] at hn <;>
          obtain ⟨rfl, -⟩ := List.cons.inj hn
        · exact absurd htrail hnot
        · unfold IsLead IsTrail at *
          omega
    | lead m hunits hm hreads =>
      rw [hunits]
      refine ⟨fun t ht => ?_, fun m' t hm' ht => ?_⟩
      · rw [hreads]
        exact hpair m t hm ht
      · obtain ⟨-, u, n, -, hn, htrail, -⟩ := exists_of_lead hm' ht
        obtain ⟨rfl, -⟩ := List.cons.inj hn
        unfold IsLead IsTrail at *
        omega
    | trail n hunits hn hreads =>
      rw [hunits]
      refine ⟨fun t ht => absurd hn (not_trail ht), fun m t hm ht => ?_⟩
      obtain ⟨c, u, n', rfl, hrest, -, hpair⟩ := exists_of_lead hm ht
      obtain ⟨rfl, hu⟩ := List.cons.inj hrest
      rw [hreads, hplain u hu, ← hpair, Char.ofNat_toNat]
      rfl

/-- The states between two pieces. -/
inductive AtPiece : StringState → Prop
  | plain : AtPiece .plain
  | pair (m : Nat) : AtPiece (.pairBackslash m)

lemma atPiece_of_finishHex {lead : Option Nat} {n : Nat} {s : StringState} {c : Option Char}
    (h : finishHex lead n = .ok (s, c)) : AtPiece s := by
  unfold finishHex at h
  split at h <;> split_ifs at h <;> cases h
  exacts [.pair _, .plain, .plain]

variable {s : StringState} {u : List Char} {x : List Char × List Char}

/-- An escape that JSON does not have is read nowhere. -/
lemma stringTail_escape (hs : AtPiece s) {c : Char} (hu : c ≠ 'u') (hc : c ∉ "\"\\/bfnrt".toList) :
    stringTail s ('\\' :: c :: u) ≠ .ok x := by
  have hshort : shortEscape? c = none := (shortEscape?_eq c).trans (if_neg hc)
  intro h
  cases hs with
  | plain => simp [stringTail, hu, hshort, Json.failNext] at h
  | pair m => simp [stringTail, hu, Json.failNext] at h

lemma stringTail_brace (hs : AtPiece s) : stringTail s ('\\' :: 'u' :: '{' :: u) ≠ .ok x := by
  have hbrace : hexValue? '{' = none := by decide
  intro h
  cases hs <;>
  · simp only [stringTail, if_true, hbrace, failHex, Char.reduceEq, if_false] at h
    split at h <;> cases h

/-- Behind the digits of an escape the string goes on with another piece. -/
lemma exists_of_hex {lead : Option Nat} {a b c d : Char} (h : IsHexText [a, b, c, d])
    (hx : stringTail (.hex lead 0 0) (a :: b :: c :: d :: u) = .ok x) :
    ∃ s y, AtPiece s ∧ stringTail s u = .ok y := by
  rw [stringTail_hex h] at hx
  cases hfinish : finishHex lead (hexNumber [a, b, c, d]) with
  | error f =>
    rw [hfinish] at hx
    cases hx
  | ok q =>
    obtain ⟨s, e⟩ := q
    have hs := atPiece_of_finishHex hfinish
    rw [hfinish] at hx
    cases e with
    | none => exact ⟨s, x, hs, hx⟩
    | some e =>
      obtain ⟨y, hy, -⟩ := exists_of_map_eq_ok hx
      exact ⟨s, y, hs, hy⟩

/-- **A piece that is read is one that JSON has**, and the string goes on behind it. -/
lemma Piece.inJson_of_read {p : Piece} {rest : List Char} (hlegal : p.Legal '"' rest) (hs : AtPiece s)
    (h : stringTail s (p.text ++ u) = .ok x) : p.InJson ∧ ∃ s' y, AtPiece s' ∧ stringTail s' u = .ok y := by
  have hpush {c : Char} (h : stringTail.push c (stringTail .plain u) = .ok x) :
      ∃ s' y, AtPiece s' ∧ stringTail s' u = .ok y := by
    obtain ⟨y, hy, -⟩ := exists_of_map_eq_ok h
    exact ⟨.plain, y, .plain, hy⟩
  cases p with
  | plain c =>
    obtain ⟨hback, hquote, -⟩ := hlegal
    rw [text, List.singleton_append] at h
    cases hs with
    | plain =>
      rw [stringTail, if_neg hquote, if_neg hback] at h
      split at h
      · cases h
      · next hlow => exact ⟨Nat.not_lt.1 hlow, hpush h⟩
    | pair m =>
      rw [stringTail, if_neg hback] at h
      cases h
  | lineEnd pair => exact absurd hlegal.1 (by decide)
  | mark c =>
    obtain ⟨-, -, hu, -⟩ := hlegal
    by_cases hc : c ∈ "\"\\/bfnrt".toList
    · have hshort : shortEscape? c = some (escapedChar c) := (shortEscape?_eq c).trans (if_pos hc)
      refine ⟨hc, ?_⟩
      cases hs with
      | plain => exact hpush (by simpa [text, stringTail, hu, hshort] using h)
      | pair m => simp [text, stringTail, hu, Json.failNext] at h
    · exact absurd h (stringTail_escape hs hu hc)
  | zero => exact absurd h (stringTail_escape hs (by decide) (by decide))
  | byte a b => exact absurd h (stringTail_escape hs (by decide) (by decide))
  | unit a b c d =>
    refine ⟨trivial, ?_⟩
    cases hs with
    | plain => exact exists_of_hex hlegal h
    | pair m => exact exists_of_hex hlegal h
  | point ds => exact absurd h (stringTail_brace hs)
  | joint t =>
    obtain rfl | ⟨c, hc, rfl, -⟩ := hlegal
    · exact absurd h (stringTail_escape hs (by decide) (by decide))
    · have hends : ∀ d ∈ lineEnds, d ≠ 'u' ∧ d ∉ "\"\\/bfnrt".toList :=
        List.forall_iff_forall_mem.1 (by decide)
      exact absurd h (stringTail_escape hs (hends c hc).1 (hends c hc).2)

/-- **Only pieces that JSON has are read.** -/
theorem inJson_of_stringTail {ps : List Piece} (hps : Spelling '"' ps) (hs : AtPiece s)
    (h : stringTail s (spelled ps ++ u) = .ok x) : ∀ p ∈ ps, p.InJson := by
  induction ps generalizing s x with
  | nil => exact fun p hp => absurd hp List.not_mem_nil
  | cons p ps ih =>
    obtain ⟨hlegal, hps⟩ := hps
    rw [spelled_cons, List.append_assoc] at h
    obtain ⟨hp, s', y, hs', hy⟩ := Piece.inJson_of_read hlegal hs h
    exact List.forall_mem_cons.2 ⟨hp, ih hps hs' hy⟩

end

end Mender.Script
