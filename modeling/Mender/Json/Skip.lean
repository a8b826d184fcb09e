import Mender.Json.Reader

/-!
Passing over a value without keeping it.

Only the grammar is checked: numbers may be of any size, escapes may name lone surrogates,
and there is no limit to the depth.
-/

namespace Mender.Json

open Mender.Text

inductive Frame | list | object
  deriving DecidableEq

def Frame.unfinished : Frame → Unfinished
  | .list => .list
  | .object => .object

def Frame.noEnd : Frame → TextFault
  | .list => .noListEnd
  | .object => .noObjectEnd

/-- The text after a string whose opening quote has been read; `hex` digits of an escape are
still to come. -/
def skipString : (escaped : Bool) → (hex : Nat) → List Char → Except Failure (List Char)
  | _, _, [] => failHere (.ended .string) []
  | _, n + 1, c :: r =>
    if (hexValue? c).isSome then skipString false n r else failHex (3 - n) (c :: r)
  | true, 0, c :: r =>
    if c = 'u' then skipString false 4 r
    else if (shortEscape? c).isSome then skipString false 0 r
    else failNext .invalidEscape (c :: r)
  | false, 0, c :: r =>
    if c = '"' then .ok r
    else if c = '\\' then skipString true 0 r
    else if c.toNat < 32 then failHere .controlCharacter (c :: r)
    else skipString false 0 r

def skipExponent (t : List Char) : Except Failure (List Char) :=
  let t := match t with
    | '+' :: r | '-' :: r => r
    | _ => t
  match t.span Char.isDigit with
  | ([], rest) => failNext .invalidNumber rest
  | (_, rest) => .ok rest

def skipFraction (t : List Char) : Except Failure (List Char) :=
  match t.span Char.isDigit with
  | ([], rest) => failNext .invalidNumber rest
  | (_, 'e' :: r) | (_, 'E' :: r) => skipExponent r
  | (_, rest) => .ok rest

/-- The text after a number whose minus sign, if any, has been read. -/
def skipNumber (t : List Char) : Except Failure (List Char) :=
  match t.span Char.isDigit with
  | ([], rest) => failNext .invalidNumber rest
  | ('0' :: d :: ds, rest) => failNext .invalidNumber (d :: ds ++ rest)
  | (_, '.' :: r) => skipFraction r
  | (_, 'e' :: r) | (_, 'E' :: r) => skipExponent r
  | (_, rest) => .ok rest

/-- Passes over a value, or, with `inside`, over what is left of the open lists and objects.
`comma` says that an element stands before. -/
def skipOpen : (fuel : Nat) → (inside comma : Bool) → List Frame → List Char →
    Except Failure (List Char)
  | 0, _, _, _, t => failHere .noValue t
  | n + 1, false, _, open_, t =>
    match skipSpace t with
    | [] => failNext (.ended .value) []
    | 'n' :: r => (wordTail ['u', 'l', 'l'] r).bind (skipOpen n true true open_)
    | 't' :: r => (wordTail ['r', 'u', 'e'] r).bind (skipOpen n true true open_)
    | 'f' :: r => (wordTail ['a', 'l', 's', 'e'] r).bind (skipOpen n true true open_)
    | '-' :: r => (skipNumber r).bind (skipOpen n true true open_)
    | '"' :: r => (skipString false 0 r).bind (skipOpen n true true open_)
    | '[' :: r => skipOpen n true false (.list :: open_) r
    | '{' :: r => skipOpen n true false (.object :: open_) r
    | c :: r =>
      if c.isDigit then (skipNumber (c :: r)).bind (skipOpen n true true open_)
      else failNext .noValue (c :: r)
  | _ + 1, true, _, [], t => .ok t
  | n + 1, true, comma, frame :: outer, t =>
    match skipSpace t with
    | [] => failNext (.ended frame.unfinished) []
    | c :: r =>
      if c = ',' ∧ comma then (key frame r).bind (skipOpen n false false (frame :: outer))
      else if (c = ']' ∧ frame = .list) ∨ (c = '}' ∧ frame = .object) then
        skipOpen n true true outer r
      else if comma then failNext frame.noEnd (c :: r)
      else (key frame (c :: r)).bind (skipOpen n false false (frame :: outer))
where
  key (frame : Frame) (t : List Char) : Except Failure (List Char) :=
    match frame, skipSpace t with
    | .list, _ => .ok t
    | .object, [] => failNext (.ended .object) []
    | .object, '"' :: r => (skipString false 0 r).bind colon
    | .object, s => failNext .keyNotString s

def skipValue (t : List Char) : Except Failure (List Char) :=
  skipOpen (2 * t.length + 2) false false [] t

end Mender.Json
