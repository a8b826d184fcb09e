import Mender.Json.Printer

/-!
SHA-256 digests of texts, written as 64 lower-case hexadecimal digits.
-/

namespace Mender

namespace Sha256

/-- The fractional parts of the cube roots of the first 64 primes. -/
def roundConstants : List UInt32 := [
  0x428a2f98, 0x71374491, 0xb5c0fbcf, 0xe9b5dba5, 0x3956c25b, 0x59f111f1, 0x923f82a4, 0xab1c5ed5,
  0xd807aa98, 0x12835b01, 0x243185be, 0x550c7dc3, 0x72be5d74, 0x80deb1fe, 0x9bdc06a7, 0xc19bf174,
  0xe49b69c1, 0xefbe4786, 0x0fc19dc6, 0x240ca1cc, 0x2de92c6f, 0x4a7484aa, 0x5cb0a9dc, 0x76f988da,
  0x983e5152, 0xa831c66d, 0xb00327c8, 0xbf597fc7, 0xc6e00bf3, 0xd5a79147, 0x06ca6351, 0x14292967,
  0x27b70a85, 0x2e1b2138, 0x4d2c6dfc, 0x53380d13, 0x650a7354, 0x766a0abb, 0x81c2c92e, 0x92722c85,
  0xa2bfe8a1, 0xa81a664b, 0xc24b8b70, 0xc76c51a3, 0xd192e819, 0xd6990624, 0xf40e3585, 0x106aa070,
  0x19a4c116, 0x1e376c08, 0x2748774c, 0x34b0bcb5, 0x391c0cb3, 0x4ed8aa4a, 0x5b9cca4f, 0x682e6ff3,
  0x748f82ee, 0x78a5636f, 0x84c87814, 0x8cc70208, 0x90befffa, 0xa4506ceb, 0xbef9a3f7, 0xc67178f2]

structure State where
  a : UInt32
  b : UInt32
  c : UInt32
  d : UInt32
  e : UInt32
  f : UInt32
  g : UInt32
  h : UInt32

/-- The fractional parts of the square roots of the first eight primes. -/
def start : State :=
  ⟨0x6a09e667, 0xbb67ae85, 0x3c6ef372, 0xa54ff53a, 0x510e527f, 0x9b05688c, 0x1f83d9ab, 0x5be0cd19⟩

def rotate (x n : UInt32) : UInt32 := (x >>> n) ||| (x <<< (32 - n))

def smallSigma0 (x : UInt32) : UInt32 := rotate x 7 ^^^ rotate x 18 ^^^ (x >>> 3)
def smallSigma1 (x : UInt32) : UInt32 := rotate x 17 ^^^ rotate x 19 ^^^ (x >>> 10)
def bigSigma0 (x : UInt32) : UInt32 := rotate x 2 ^^^ rotate x 13 ^^^ rotate x 22
def bigSigma1 (x : UInt32) : UInt32 := rotate x 6 ^^^ rotate x 11 ^^^ rotate x 25

/-- The last sixteen words with the next one of the schedule in place of the oldest. -/
def nextWords (w : List UInt32) : List UInt32 :=
  let word (i : Nat) := w.getD i 0
  w.drop 1 ++ [smallSigma1 (word 14) + word 9 + smallSigma0 (word 1) + word 0]

def round (s : State) (k w : UInt32) : State :=
  let choice := (s.e &&& s.f) ^^^ (~~~s.e &&& s.g)
  let majority := (s.a &&& s.b) ^^^ (s.a &&& s.c) ^^^ (s.b &&& s.c)
  let t := s.h + bigSigma1 s.e + choice + k + w
  ⟨t + bigSigma0 s.a + majority, s.a, s.b, s.c, s.d + t, s.e, s.f, s.g⟩

def rounds : List UInt32 → State → List UInt32 → State
  | [], s, _ => s
  | k :: ks, s, w => rounds ks (round s k (w.getD 0 0)) (nextWords w)

/-- The words of a text of whole words, the first byte of each the most significant. -/
def wordsOf : List UInt8 → List UInt32
  | a :: b :: c :: d :: r =>
    ((a.toUInt32 <<< 24) ||| (b.toUInt32 <<< 16) ||| (c.toUInt32 <<< 8) ||| d.toUInt32) ::
      wordsOf r
  | _ => []

def absorb (s : State) (block : List UInt32) : State :=
  let t := rounds roundConstants s block
  ⟨s.a + t.a, s.b + t.b, s.c + t.c, s.d + t.d, s.e + t.e, s.f + t.f, s.g + t.g, s.h + t.h⟩

/-- The `n` bytes of a number, the most significant first. -/
def bytesOf : (n : Nat) → Nat → List UInt8
  | 0, _ => []
  | n + 1, x => bytesOf n (x / 256) ++ [UInt8.ofNat x]

/-- The message with a one bit, zeros up to the length field, and its length in bits. -/
def pad (m : List UInt8) : List UInt8 :=
  m ++ 0x80 :: List.replicate ((119 - m.length % 64) % 64) 0 ++ bytesOf 8 (8 * m.length)

def absorbAll : (blocks : Nat) → State → List UInt32 → State
  | 0, s, _ => s
  | n + 1, s, w => absorbAll n (absorb s (w.take 16)) (w.drop 16)

def hash (m : List UInt8) : List UInt32 :=
  let w := wordsOf (pad m)
  let s := absorbAll (w.length / 16) start w
  [s.a, s.b, s.c, s.d, s.e, s.f, s.g, s.h]

/-- The `n` hexadecimal digits of a number, the most significant first. -/
def hexDigits : (n : Nat) → Nat → List Char
  | 0, _ => []
  | n + 1, x => hexDigits n (x / 16) ++ [Json.hexDigit (x % 16)]

def hex (m : List UInt8) : List Char := (hash m).flatMap fun w => hexDigits 8 w.toNat

end Sha256

def utf8 (t : List Char) : List UInt8 := t.flatMap String.utf8EncodeChar

/-- A digest in its written form. -/
structure Digest where
  hex : String
  deriving DecidableEq

namespace Digest

def ofBytes (m : List UInt8) : Digest := ⟨String.ofList (Sha256.hex m)⟩

def ofText (s : String) : Digest := ofBytes (utf8 s.toList)

/-- The first twelve digits. -/
def short (d : Digest) : String := String.ofList (d.hex.toList.take 12)

def isHexDigit (c : Char) : Bool :=
  c.isDigit || ('a' ≤ c && c ≤ 'f') || ('A' ≤ c && c ≤ 'F')

/-- Reads a written digest; capital letters are allowed and made small. -/
def ofString? (s : String) : Option Digest :=
  let t := s.toList
  if t.length = 64 ∧ t.all isHexDigit then some ⟨String.ofList (t.map Char.toLower)⟩ else none

/-- What is said of a text that is no written digest. -/
def refusal (s : String) : String := "invalid digest: " ++ s

end Digest

end Mender
