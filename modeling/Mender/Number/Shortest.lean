import Mender.Number.Binary64

/-!
The shortest decimal that reads back as a given binary64 number.

A decimal reads back as a number when it lies between the midpoints to the two neighbours,
the midpoints themselves counting when the significand is even. For one digit, two digits
and so on the two decimals next to the number on the grid of that many digits are tried;
the first grid with a hit wins, and of two hits the nearer one.
-/

namespace Mender.Binary64

/-- The bounds of the decimals that read back, in quarters of the last place. -/
def bounds (x : Binary64) : Nat × Nat :=
  let below := if x.significand = leadingBit ∧ x.exponent > leastExponent then 1 else 2
  (4 * x.significand - below, 4 * x.significand + 2)

/-- `a / 4 * 2 ^ exponent` compared with `c * 10 ^ k`: both sides as natural numbers. -/
def againstGrid (x : Binary64) (a c : Nat) (k : Int) : Nat × Nat :=
  let p := unscale a 4 (-x.exponent)
  let g := decimalRatio c k
  (p.1 * g.2, g.1 * p.2)

/-- Whether `c * 10 ^ k` reads back as `x`. -/
def readsBack (x : Binary64) (c : Nat) (k : Int) : Bool :=
  let lo := x.againstGrid x.bounds.1 c k
  let hi := x.againstGrid x.bounds.2 c k
  if x.significand % 2 = 0 then lo.1 ≤ lo.2 && hi.2 ≤ hi.1 else lo.1 < lo.2 && hi.2 < hi.1

/-- The exponent of the greatest power of ten that is at most the magnitude. -/
def decade (x : Binary64) : Int :=
  let p := x.ratio
  ((Nat.toDigits 10 (p.1 * Nat.pow 10 330 / p.2)).length : Int) - 331

/-- The hit on the grid of `n` digits, if there is one. -/
def onGrid (x : Binary64) (n : Nat) : Option (Nat × Int) :=
  let k := x.decade - n + 1
  let p := x.againstGrid (4 * x.significand) 1 k
  let c := p.1 / p.2
  let twiceRest := 2 * (p.1 % p.2)
  match x.readsBack c k, x.readsBack (c + 1) k with
  | true, true =>
    if twiceRest < p.2 ∨ (twiceRest = p.2 ∧ c % 2 = 0) then some (c, k) else some (c + 1, k)
  | true, false => some (c, k)
  | false, true => some (c + 1, k)
  | false, false => none

/-- Takes the zeros off the end of a decimal. -/
def dropZeros : Nat → Nat × Int → Nat × Int
  | 0, d => d
  | n + 1, (c, k) => if c % 10 = 0 ∧ c ≠ 0 then dropZeros n (c / 10, k + 1) else (c, k)

/-- Digits and exponent of the shortest decimal, for a magnitude other than zero. -/
def shortest (x : Binary64) : Nat × Int :=
  match (List.range 17).findSome? fun n => x.onGrid (n + 1) with
  | some d => dropZeros 20 d
  | none => (0, 0)

/-- The exponent with its sign always written. -/
def exponentText (e : Int) : List Char :=
  match e with
  | .ofNat n => 'e' :: '+' :: Nat.toDigits 10 n
  | .negSucc n => 'e' :: '-' :: Nat.toDigits 10 (n + 1)

/-- Magnitudes from `1e-5` to below `1e16` are written out, with `.0` when they are whole;
others have one digit before the point and an exponent. -/
def magnitudeText (x : Binary64) : List Char :=
  if x.isZero then ['0', '.', '0']
  else
    let d := x.shortest
    let ds := Nat.toDigits 10 d.1
    let point : Int := ds.length + d.2
    if 0 ≤ d.2 ∧ point ≤ 16 then ds ++ List.replicate d.2.toNat '0' ++ ['.', '0']
    else if 0 < point ∧ point ≤ 16 then ds.take point.toNat ++ '.' :: ds.drop point.toNat
    else if -5 < point ∧ point ≤ 0 then
      '0' :: '.' :: List.replicate (-point).toNat '0' ++ ds
    else if ds.length = 1 then ds ++ exponentText (point - 1)
    else ds.take 1 ++ '.' :: ds.drop 1 ++ exponentText (point - 1)

def text (x : Binary64) : List Char :=
  if x.negative then '-' :: x.magnitudeText else x.magnitudeText

end Mender.Binary64
