/-!
Finite binary64 numbers as exact values.

A number is a sign with a magnitude `significand * 2 ^ exponent`. Significands have at most
53 bits, and 53 exactly unless the exponent is the least one, so each magnitude has one form.
Every operation works on exact rationals and rounds once, to the nearest number, a half to
the even one.
-/

namespace Mender

structure Binary64 where
  negative : Bool
  significand : Nat
  exponent : Int
  deriving DecidableEq, Repr

namespace Binary64

def leastExponent : Int := -1074
def greatestExponent : Int := 971

/-- The leading bit of a significand with 53 bits. -/
def leadingBit : Nat := 4503599627370496

def zero : Binary64 := ⟨false, 0, leastExponent⟩

instance : Inhabited Binary64 := ⟨zero⟩

def isZero (x : Binary64) : Bool := x.significand == 0

/-- `num / den` to the nearest natural number, a half to the even one. -/
def roundDiv (num den : Nat) : Nat :=
  let q := num / den
  let r := num % den
  if 2 * r < den then q
  else if den < 2 * r then q + 1
  else if q % 2 = 0 then q else q + 1

/-- `num / den` with a power of two taken out of it. -/
def unscale (num den : Nat) (e : Int) : Nat × Nat :=
  match e with
  | .ofNat n => (num, den * Nat.pow 2 n)
  | .negSucc n => (num * Nat.pow 2 (n + 1), den)

/-- The exponent of the greatest power of two that is at most `num / den`. -/
def binade (num den : Nat) : Int :=
  let e : Int := (num.log2 : Int) - (den.log2 : Int)
  let p := unscale num den e
  if p.2 ≤ p.1 then e else e - 1

/-- The number nearest to `num / den`; nothing when that is past the largest one. -/
def ofRatio (negative : Bool) (num den : Nat) : Option Binary64 :=
  if num = 0 then some ⟨negative, 0, leastExponent⟩
  else
    let q := max (binade num den - 52) leastExponent
    let p := unscale num den q
    let m := roundDiv p.1 p.2
    if m = 2 * leadingBit then
      if q + 1 > greatestExponent then none else some ⟨negative, leadingBit, q + 1⟩
    else if q > greatestExponent then none
    else some ⟨negative, m, q⟩

/-- The magnitude as a quotient of natural numbers. -/
def ratio (x : Binary64) : Nat × Nat :=
  match x.exponent with
  | .ofNat n => (x.significand * Nat.pow 2 n, 1)
  | .negSucc n => (x.significand, Nat.pow 2 (n + 1))

def ofNat (n : Nat) : Option Binary64 := ofRatio false n 1

def mul (x y : Binary64) : Option Binary64 :=
  ofRatio (x.negative != y.negative) (x.ratio.1 * y.ratio.1) (x.ratio.2 * y.ratio.2)

/-- The quotient by a number other than zero. -/
def div (x y : Binary64) : Option Binary64 :=
  ofRatio (x.negative != y.negative) (x.ratio.1 * y.ratio.2) (x.ratio.2 * y.ratio.1)

def neg (x : Binary64) : Binary64 := { x with negative := !x.negative }

/-- `digits * 10 ^ e` as a quotient of natural numbers. -/
def decimalRatio (digits : Nat) (e : Int) : Nat × Nat :=
  match e with
  | .ofNat n => (digits * Nat.pow 10 n, 1)
  | .negSucc n => (digits, Nat.pow 10 (n + 1))

/-- The number nearest to `digits * 10 ^ e`. Past 400 places to either side the answer does
not depend on the digits, and no power is computed. -/
def ofDecimal (negative : Bool) (digits : Nat) (e : Int) : Option Binary64 :=
  let places : Int := (Nat.toDigits 10 digits).length
  if digits = 0 ∨ places + e < -400 then some ⟨negative, 0, leastExponent⟩
  else if places + e > 400 then none
  else
    let p := decimalRatio digits e
    ofRatio negative p.1 p.2

end Binary64

end Mender
