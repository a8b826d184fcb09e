import Mender.Text.Lines
import Mender.Text.Search
import Mender.Text.Width

/-!
Pieces of a model's reply that may be the JSON it was asked for.

Nothing is parsed here; each function narrows the reply down to one piece.
-/

namespace Mender.Reply

open Mender.Text

/-- The marks a reply is asked to put around its JSON. -/
def startMark : List Char := "<<<JSON_START>>>".toList
def endMark : List Char := "<<<JSON_END>>>".toList

def fence : List Char := "```".toList

def isFenceLine (l : List Char) : Bool := startsWith fence (trimStart l)

/-- The reply without its code fence lines. -/
def dropFences (t : List Char) : List Char :=
  unlines ((lines t).filter fun l => !isFenceLine l)

def isOpener (c : Char) : Bool := c == '{' || c == '['

/-- The text from its first brace or bracket on, or all of it when there is none. -/
def dropPreamble (t : List Char) : List Char :=
  match t.dropWhile fun c => !isOpener c with
  | [] => trim t
  | s => trimEnd s

/-- What stands between the two marks. -/
def delimited? (t : List Char) : Option (List Char) := do
  let (_, r) ← cut? startMark t
  let (inner, _) ← cut? endMark r
  return trim inner

/-- For a reply that was cut off after its first mark: from the first brace to the last. -/
def truncated? (t : List Char) : Option (List Char) := do
  if contains endMark t then none
  let (_, r) ← cut? startMark t
  match r.dropWhile (· != '{') with
  | [] => none
  | _ :: s =>
    let (inner, _) ← cutLast? (· == '}') s
    return '{' :: inner ++ ['}']

/-- Where the scan for a closing brace stands. -/
inductive BlockState | code | string | escape
  deriving DecidableEq

/-- A text up to the brace at which no brace is open any more. Braces in strings do not
count. -/
def closed? : (depth : Nat) → BlockState → List Char → Option (List Char)
  | _, _, [] => none
  | depth, .escape, c :: r => (closed? depth .string r).map (c :: ·)
  | depth, .string, c :: r =>
    (closed? depth (if c = '\\' then .escape else if c = '"' then .code else .string) r).map
      (c :: ·)
  | depth, .code, c :: r =>
    if c = '"' then (closed? depth .string r).map (c :: ·)
    else if c = '{' then (closed? (depth + 1) .code r).map (c :: ·)
    else if c = '}' then
      match depth with
      | 0 => none
      | 1 => some ['}']
      | d + 2 => (closed? (d + 1) .code r).map (c :: ·)
    else (closed? depth .code r).map (c :: ·)

/-- The texts from each opening brace on. -/
def openings : List Char → List (List Char)
  | [] => []
  | c :: r => if c = '{' then (c :: r) :: openings r else openings r

/-- How many opening braces are looked at. -/
def openingLimit : Nat := 64

/-- The balanced blocks of a text, longest first, repeats left out. -/
def balancedBlocks (t : List Char) : List (List Char) :=
  let blocks := ((openings t).take openingLimit).filterMap (closed? 0 .code)
  (blocks.mergeSort fun a b => width b ≤ width a).eraseReps

end Mender.Reply
