import Mender.Json.Fault
import Mender.Number.Word
import Mender.Text.Width

/-!
Reading a JSON text.

A reading takes a text and gives a value with the text that follows it. Failures record how
many bytes were left, from which the line and the column follow. At most 127 lists and
objects may be open at a time.
-/

namespace Mender.Json

open Mender.Text

abbrev Reading (α : Type) := Except Failure (α × List Char)

/-- Fails in front of `rest`. -/
def failHere {α : Type} (f : TextFault) (rest : List Char) : Except Failure α :=
  .error { fault := .text f, stop := .left (width rest) }

/-- Fails after the next byte, if there is one. -/
def failNext {α : Type} (f : TextFault) (rest : List Char) : Except Failure α :=
  .error { fault := .text f, stop := .left (width rest - 1) }

def isSpace (c : Char) : Bool := c == ' ' || c == '\n' || c == '\t' || c == '\r'

def skipSpace (t : List Char) : List Char := t.dropWhile isSpace

/-! ### Words and numbers -/

/-- The rest of a word such as `true`. -/
def wordTail : List Char → List Char → Except Failure (List Char)
  | [], t => .ok t
  | _ :: _, [] => failHere (.ended .value) []
  | w :: ws, c :: r => if c = w then wordTail ws r else failNext .noIdent (c :: r)

def digitValue (c : Char) : Nat := c.toNat - 48

/-- Adds digits to `n` while it stays within `limit`; the digits that no longer fit are
given back. -/
def gather (limit : Nat) : Nat → List Char → Nat × List Char
  | n, [] => (n, [])
  | n, d :: ds =>
    if n * 10 + digitValue d ≤ limit then gather limit (n * 10 + digitValue d) ds
    else (n, d :: ds)

def greatestExponent : Nat := 2147483647

def tenTo (n : Nat) : Binary64 := (Binary64.ofDecimal false 1 n).getD .zero

/-- `significand * 10 ^ e`, one rounding at each of its steps; nothing when it is past the
largest number. -/
def scaled (significand : Nat) (e : Int) : Option Binary64 :=
  match Binary64.ofNat significand with
  | none => none
  | some f =>
    if f.isZero then some f
    else if 308 < e then none
    else if 0 ≤ e then f.mul (tenTo e.toNat)
    else if -308 ≤ e then f.div (tenTo (-e).toNat)
    else if -616 ≤ e then (f.div (tenTo 308)).bind fun g => g.div (tenTo (-e - 308).toNat)
    else some .zero

def signed (negative : Bool) (x : Binary64) : Binary64 := if negative then x.neg else x

/-- The number with these digits, or a failure in front of `rest`. -/
def realOf (negative : Bool) (significand : Nat) (e : Int) (rest : List Char) : Reading Json :=
  match scaled significand e with
  | some x => .ok (.real (signed negative x), rest)
  | none => failHere .numberOutOfRange rest

/-- What follows the letter of an exponent. -/
def exponentPart (negative : Bool) (significand : Nat) (e : Int) (t : List Char) :
    Reading Json :=
  let (down, t) := match t with
    | '+' :: r => (false, r)
    | '-' :: r => (true, r)
    | _ => (false, t)
  match t.span Char.isDigit with
  | ([], []) => failHere (.ended .value) []
  | ([], rest) => failNext .invalidNumber rest
  | (ds, rest) =>
    match gather greatestExponent 0 ds with
    | (n, []) => realOf negative significand (if down then e - n else e + n) rest
    | (_, _ :: more) =>
      if significand ≠ 0 ∧ !down then failHere .numberOutOfRange (more ++ rest)
      else .ok (.real (signed negative .zero), rest)

/-- What follows the point. -/
def fractionPart (negative : Bool) (significand : Nat) (e : Int) (t : List Char) :
    Reading Json :=
  match t.span Char.isDigit with
  | ([], []) => failHere (.ended .value) []
  | ([], rest) => failNext .invalidNumber rest
  | (ds, rest) =>
    let (n, more) := gather Word.greatest64 significand ds
    let e := e - (ds.length - more.length : Nat)
    match rest with
    | 'e' :: r | 'E' :: r => exponentPart negative n e r
    | _ => realOf negative n e rest

/-- An integer when it fits in 64 bits; `-0` and those that do not fit are binary64. -/
def wholeOf (negative : Bool) (n : Nat) (dropped : Nat) (rest : List Char) : Reading Json :=
  if 0 < dropped then realOf negative n dropped rest
  else if !negative then .ok (.int n, rest)
  else if n = 0 ∨ Word.negative64 < n then realOf true n 0 rest
  else .ok (.int (-n), rest)

/-- A number after its minus sign. -/
def number (negative : Bool) (t : List Char) : Reading Json :=
  match t.span Char.isDigit with
  | ([], []) => failHere (.ended .value) []
  | ([], rest) => failNext .invalidNumber rest
  | (['0'], rest) => tail 0 0 rest
  | ('0' :: ds, rest) => failNext .invalidNumber (ds ++ rest)
  | (ds, rest) =>
    let (n, more) := gather Word.greatest64 0 ds
    tail n more.length rest
where
  tail (n dropped : Nat) (rest : List Char) : Reading Json :=
    match rest with
    | '.' :: r => fractionPart negative n dropped r
    | 'e' :: r | 'E' :: r => exponentPart negative n dropped r
    | _ => wholeOf negative n dropped rest

/-! ### Strings -/

def hexValue? (c : Char) : Option Nat :=
  if '0' ≤ c ∧ c ≤ '9' then some (c.toNat - 48)
  else if 'a' ≤ c ∧ c ≤ 'f' then some (c.toNat - 87)
  else if 'A' ≤ c ∧ c ≤ 'F' then some (c.toNat - 55)
  else none

/-- The character that a backslash with `c` stands for. -/
def shortEscape? (c : Char) : Option Char :=
  match c with
  | '"' => some '"'
  | '\\' => some '\\'
  | '/' => some '/'
  | 'b' => some '\x08'
  | 'f' => some '\x0c'
  | 'n' => some '\n'
  | 'r' => some '\r'
  | 't' => some '\t'
  | _ => none

/-- Where the reading of a string stands. `lead` is the first half of a surrogate pair. -/
inductive StringState
  | plain
  | escape
  | hex (lead : Option Nat) (seen value : Nat)
  | pairBackslash (lead : Nat)
  | pairU (lead : Nat)

/-- What to do with a finished four-digit escape. -/
def finishHex (lead : Option Nat) (n : Nat) : Except TextFault (StringState × Option Char) :=
  match lead with
  | none =>
    if 0xDC00 ≤ n ∧ n ≤ 0xDFFF then .error .loneSurrogate
    else if 0xD800 ≤ n ∧ n ≤ 0xDBFF then .ok (.pairBackslash n, none)
    else .ok (.plain, some (Char.ofNat n))
  | some m =>
    if 0xDC00 ≤ n ∧ n ≤ 0xDFFF then
      .ok (.plain, some (Char.ofNat ((m - 0xD800) * 1024 + (n - 0xDC00) + 0x10000)))
    else .error .loneSurrogate

/-- An escape whose four digits are not all there: four bytes are taken all the same. -/
def failHex {α : Type} (seen : Nat) (rest : List Char) : Except Failure α :=
  if width rest + seen < 4 then failHere (.ended .string) []
  else .error { fault := .text .invalidEscape, stop := .left (width rest + seen - 4) }

/-- The characters up to the closing quote. -/
def stringTail : StringState → List Char → Reading (List Char)
  | _, [] => failHere (.ended .string) []
  | .plain, c :: r =>
    if c = '"' then .ok ([], r)
    else if c = '\\' then stringTail .escape r
    else if c.toNat < 32 then failHere .controlCharacter r
    else push c (stringTail .plain r)
  | .escape, c :: r =>
    if c = 'u' then stringTail (.hex none 0 0) r
    else match shortEscape? c with
      | some d => push d (stringTail .plain r)
      | none => failNext .invalidEscape (c :: r)
  | .hex lead seen value, c :: r =>
    match hexValue? c with
    | none => failHex seen (c :: r)
    | some d =>
      if seen < 3 then stringTail (.hex lead (seen + 1) (value * 16 + d)) r
      else match finishHex lead (value * 16 + d) with
        | .error f => failHere f r
        | .ok (s, some c) => push c (stringTail s r)
        | .ok (s, none) => stringTail s r
  | .pairBackslash lead, c :: r =>
    if c = '\\' then stringTail (.pairU lead) r else failNext .unpairedSurrogate (c :: r)
  | .pairU lead, c :: r =>
    if c = 'u' then stringTail (.hex (some lead) 0 0) r else failNext .unpairedSurrogate (c :: r)
where
  push (c : Char) (more : Reading (List Char)) : Reading (List Char) :=
    more.map fun p => (c :: p.1, p.2)

/-- A string after its opening quote. -/
def string (t : List Char) : Reading String :=
  (stringTail .plain t).map fun p => (String.ofList p.1, p.2)

/-! ### Lists, objects and values -/

/-- Elements up to the closing bracket; `i` of them stand before. `fuel` bounds their number;
each takes a character. -/
def elements {α : Type} (item : List Char → Reading α) :
    (fuel i : Nat) → List Char → Reading (List α)
  | 0, _, t => failHere (.ended .list) t
  | n + 1, i, t =>
    match skipSpace t with
    | [] => failNext (.ended .list) []
    | ']' :: r => .ok ([], r)
    | c :: r =>
      if i = 0 then step n i (item (c :: r))
      else if c ≠ ',' then failNext .noListEnd (c :: r)
      else match skipSpace r with
        | [] => failNext (.ended .value) []
        | ']' :: s => failNext .trailingComma (']' :: s)
        | s => step n i (item s)
where
  step (n i : Nat) : Reading α → Reading (List α)
    | .error e => .error (e.within (.index i))
    | .ok (x, r) => (elements item n (i + 1) r).map fun p => (x :: p.1, p.2)

/-- The start of the next key, after its quote; nothing at the closing brace. -/
def nextKey (first : Bool) (t : List Char) : Except Failure (Option (List Char) × List Char) :=
  match skipSpace t with
  | [] => failNext (.ended .object) []
  | '}' :: r => .ok (none, '}' :: r)
  | c :: r =>
    if first then
      if c = '"' then .ok (some r, r) else failNext .keyNotString (c :: r)
    else if c ≠ ',' then failNext .noObjectEnd (c :: r)
    else match skipSpace r with
      | [] => failNext (.ended .value) []
      | '"' :: s => .ok (some s, s)
      | '}' :: s => failNext .trailingComma ('}' :: s)
      | s => failNext .keyNotString s

/-- The colon after a key. -/
def colon (t : List Char) : Except Failure (List Char) :=
  match skipSpace t with
  | ':' :: s => .ok s
  | [] => failNext (.ended .object) []
  | s => failNext .noColon s

/-- Colon and value of the key `k`. -/
def member {α : Type} (item : List Char → Reading α) (k : String) (t : List Char) : Reading α :=
  match (colon t).bind item with
  | .error e => .error (e.within (.key k))
  | .ok p => .ok p

/-- Fields up to the closing brace. -/
def members {α : Type} (item : List Char → Reading α) :
    (fuel : Nat) → (first : Bool) → List Char → Reading (List (String × α))
  | 0, _, t => failHere (.ended .object) t
  | n + 1, first, t =>
    match nextKey first t with
    | .error e => .error e
    | .ok (none, s) => .ok ([], s.tail)
    | .ok (some s, _) =>
      match string s with
      | .error e => .error e
      | .ok (k, r) =>
        match member item k r with
        | .error e => .error e
        | .ok (x, s) => (members item n false s).map fun p => ((k, x) :: p.1, p.2)

/-- A value whose parts, when it is a list or an object, are read by `inner`; with no
`inner` neither may be opened. -/
def valueWith (inner : Option (List Char → Reading Json)) (t : List Char) : Reading Json :=
  match skipSpace t with
  | [] => failNext (.ended .value) []
  | 'n' :: r => (wordTail ['u', 'l', 'l'] r).map (.null, ·)
  | 't' :: r => (wordTail ['r', 'u', 'e'] r).map (.bool true, ·)
  | 'f' :: r => (wordTail ['a', 'l', 's', 'e'] r).map (.bool false, ·)
  | '-' :: r => number true r
  | '"' :: r => (string r).map fun p => (.str p.1, p.2)
  | '[' :: r =>
    match inner with
    | none => failNext .tooDeep ('[' :: r)
    | some item => (elements item (r.length + 1) 0 r).map fun p => (.arr p.1, p.2)
  | '{' :: r =>
    match inner with
    | none => failNext .tooDeep ('{' :: r)
    | some item => (members item (r.length + 1) true r).map fun p => (.ofFields p.1, p.2)
  | c :: r => if c.isDigit then number false (c :: r) else failNext .noValue (c :: r)

/-- A value in which at most `depth` lists and objects are open at a time. -/
def value : (depth : Nat) → List Char → Reading Json
  | 0 => valueWith none
  | d + 1 => valueWith (some (value d))

def depthLimit : Nat := 127

/-- Nothing but blanks may follow. -/
def finish {α : Type} : Reading α → Except Failure α
  | .error e => .error e
  | .ok (x, r) =>
    match skipSpace r with
    | [] => .ok x
    | s => failNext .trailingCharacters s

def parse (t : List Char) : Except Failure Json := finish (value depthLimit t)

def parse? (t : List Char) : Option Json := (parse t).toOption

/-- The text of a JSON string and nothing else. -/
def parseString? (t : List Char) : Option String :=
  match skipSpace t with
  | '"' :: r => (finish (string r)).toOption
  | _ => none

/-! ### Places -/

/-- Line and column of a failure in `t`, if its place was ever settled. -/
def Failure.placeIn? (e : Failure) (t : List Char) : Option (Nat × Nat) :=
  match e.stop with
  | .unsettled _ => none
  | .left n => some (lineColumn (width t - n) 1 0 t)

/-- The message of a failure in `t`; one whose place was never settled has no place in it. -/
def Failure.messageIn (e : Failure) (t : List Char) : String :=
  match e.placeIn? t with
  | none => e.fault.message
  | some (line, column) => s!"{e.fault.message} at line {line} column {column}"

/-- The way to a value: keys are parted by points, indices stand in brackets. -/
def pathText : List Step → String
  | [] => ""
  | .key k :: r => k ++ more r
  | .index i :: r => s!"[{i}]" ++ more r
where
  more : List Step → String
    | [] => ""
    | .key k :: r => "." ++ k ++ more r
    | .index i :: r => s!"[{i}]" ++ more r

/-- The message with the way to the faulty value in front. -/
def Failure.locatedIn (e : Failure) (t : List Char) : String :=
  match e.path with
  | [] => e.messageIn t
  | path => pathText path ++ ": " ++ e.messageIn t

end Mender.Json
