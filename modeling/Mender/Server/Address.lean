import Mender.Number.Word
import Mender.Text.Numeral

/-!
Socket addresses: an IP address with a port.

An IPv6 address stands in brackets; eight groups of hexadecimal digits, of which a run of zero
groups may be left out once, and the last two of which may be written like an IPv4 address.
Written again, an address has its shortest form.
-/

namespace Mender.Server

open Mender.Text

inductive Address
  | v4 (octets : List Nat) (port : Nat)
  | v6 (groups : List Nat) (scope : Nat) (port : Nat)
  deriving DecidableEq

namespace Address

/-! ### Reading -/

/-- What follows a mark; like every reading here, nothing when the text does not fit. -/
def mark (c : Char) : List Char → Option (List Char)
  | d :: r => if d = c then some r else none
  | [] => none

/-- A number to a base, of so many digits at most and within the limit. -/
def number (radix digits limit : Nat) (leadingZeros : Bool) (t : List Char) :
    Option (Nat × List Char) :=
  let ds := (t.take digits).takeWhile fun c => (digitIn? radix c).isSome
  let n := numberIn radix ds
  if ds.isEmpty ∨ limit < n then none
  else if !leadingZeros ∧ 1 < ds.length ∧ ds.head? = some '0' then none
  else some (n, t.drop ds.length)

/-- A decimal number of any length. -/
def longNumber (limit : Nat) (t : List Char) : Option (Nat × List Char) :=
  number 10 t.length limit true t

def octet (t : List Char) : Option (Nat × List Char) := number 10 3 Word.greatest8 false t

def octets (t : List Char) : Option (List Nat × List Char) := do
  let (a, t) ← octet t
  let (b, t) ← octet (← mark '.' t)
  let (c, t) ← octet (← mark '.' t)
  let (d, t) ← octet (← mark '.' t)
  return ([a, b, c, d], t)

def port (t : List Char) : Option (Nat × List Char) := do
  longNumber Word.greatest16 (← mark ':' t)

/-- A group in front of which a colon stands, unless it is the first. -/
def separated {α : Type} (first : Bool) (read : List Char → Option (α × List Char))
    (t : List Char) : Option (α × List Char) :=
  if first then read t else (mark ':' t).bind read

def group (t : List Char) : Option (Nat × List Char) := number 16 4 Word.greatest16 true t

/-- The two groups that an IPv4 address stands for. -/
def embedded (t : List Char) : Option (List Nat × List Char) :=
  match octets t with
  | some ([a, b, c, d], r) => some ([256 * a + b, 256 * c + d], r)
  | _ => none

/-- At most `room` groups, whether an IPv4 address ends them, and what follows. -/
def groups : (room : Nat) → (first : Bool) → List Char → List Nat × Bool × List Char
  | 0, _, t => ([], false, t)
  | room + 1, first, t =>
    match if room = 0 then none else separated first embedded t with
    | some (g, r) => (g, true, r)
    | none =>
      match separated first group t with
      | none => ([], false, t)
      | some (g, r) =>
        let (gs, ended, s) := groups room false r
        (g :: gs, ended, s)

def address6 (t : List Char) : Option (List Nat × List Char) :=
  let (head, ended, r) := groups 8 true t
  if head.length = 8 then some (head, r)
  else if ended then none
  else do
    let r ← mark ':' r
    let r ← mark ':' r
    let (tail, _, r) := groups (7 - head.length) true r
    return (head ++ List.replicate (8 - head.length - tail.length) 0 ++ tail, r)

/-- The number of a scope; zero when none is written. -/
def scope : List Char → Option (Nat × List Char)
  | '%' :: r => longNumber Word.greatest32 r
  | t => some (0, t)

def read4 (t : List Char) : Option (Address × List Char) := do
  let (ip, t) ← octets t
  let (p, t) ← port t
  return (.v4 ip p, t)

def read6 (t : List Char) : Option (Address × List Char) := do
  let (ip, t) ← address6 (← mark '[' t)
  let (s, t) ← scope t
  let (p, t) ← port (← mark ']' t)
  return (.v6 ip s p, t)

def ofString? (s : String) : Option Address :=
  match (read4 s.toList).or (read6 s.toList) with
  | some (a, []) => some a
  | _ => none

/-! ### Writing -/

def dotted (octets : List Nat) : String := ".".intercalate (octets.map toString)

def hexText (n : Nat) : String := String.ofList (Nat.toDigits 16 n)

def colons (groups : List Nat) : String := ":".intercalate (groups.map hexText)

/-- Place and length of the first of the longest runs of zeros. -/
def longestZeros : (i start length : Nat) → (best : Nat × Nat) → List Nat → Nat × Nat
  | _, _, _, best, [] => best
  | i, start, length, best, g :: gs =>
    if g = 0 then
      let start := if length = 0 then i else start
      let best := if best.2 < length + 1 then (start, length + 1) else best
      longestZeros (i + 1) start (length + 1) best gs
    else longestZeros (i + 1) 0 0 best gs

def text6 (groups : List Nat) : String :=
  match groups with
  | [0, 0, 0, 0, 0, 65535, a, b] => "::ffff:" ++ dotted [a / 256, a % 256, b / 256, b % 256]
  | _ =>
    let z := longestZeros 0 0 0 (0, 0) groups
    if 1 < z.2 then colons (groups.take z.1) ++ "::" ++ colons (groups.drop (z.1 + z.2))
    else colons groups

def text : Address → String
  | .v4 octets port => dotted octets ++ ":" ++ toString port
  | .v6 groups scope port =>
    "[" ++ text6 groups ++ (if scope = 0 then "" else "%" ++ toString scope) ++ "]:" ++
      toString port

end Address

end Mender.Server
