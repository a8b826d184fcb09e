import Mender.Text.Search
import Mender.Text.Blank

/-!
The lexemes of scripts.

Each reader takes a text and gives what is left after the lexeme, or nothing when the text
does not begin with one. Any character that is neither blank nor punctuation may stand in a
name.
-/

namespace Mender.Script

open Mender.Text

/-- Blanks between lexemes. -/
def isGap (c : Char) : Bool :=
  isBlank c || c == '\uFEFF' || c == '\u2060' || c == '\u200B'

def isPunctuation (c : Char) : Bool := ":;\x60\"'@#.,|^&<=>+-*/\\%?!~()[]\x7b\x7d".toList.contains c

def isNameStart (c : Char) : Bool :=
  32 < c.toNat && !isGap c && !isPunctuation c && !c.isDigit

def isNameChar (c : Char) : Bool := isNameStart c || c.isDigit

/-! ### Gaps and comments -/

inductive Gap | blank | opening | line | block | star
  deriving DecidableEq

/-- The text after blanks and comments, and whether a line ended in them. -/
def skipGap : Gap → (lineEnd : Bool) → List Char → List Char × Bool
  | _, e, [] => ([], e)
  | .opening, e, c :: r => skipGap (if c = '/' then .line else .block) e r
  | .line, e, c :: r => if c = '\n' then skipGap .blank true r else skipGap .line e r
  | .star, e, c :: r =>
    if c = '/' then skipGap .blank e r
    else skipGap (if c = '*' then .star else .block) (e || c == '\n') r
  | .block, e, c :: r => skipGap (if c = '*' then .star else .block) (e || c == '\n') r
  | .blank, e, c :: r =>
    if isGap c then skipGap .blank (e || c == '\n') r
    else if c = '/' ∧ (r.head? = some '/' ∨ r.head? = some '*') then skipGap .opening e r
    else (c :: r, e)

def startsComment (t : List Char) : Bool :=
  match t.dropWhile isGap with
  | '/' :: '/' :: _ | '/' :: '*' :: _ => true
  | _ => false

/-! ### Names, numbers, strings and regular expressions -/

def isHex (c : Char) : Bool := c.isDigit || ('a' ≤ c && c ≤ 'f') || ('A' ≤ c && c ≤ 'F')

/-- The text after a character escape of a name, which starts with a backslash. -/
def nameEscape? : List Char → Option (List Char)
  | 'u' :: '{' :: r =>
    match r.dropWhile isHex with
    | '}' :: s => if s.length + 1 < r.length then some s else none
    | _ => none
  | 'u' :: a :: b :: c :: d :: r => if [a, b, c, d].all isHex then some r else none
  | _ => none

/-- A name and the rest of the text; `skip` characters belong to an escape. -/
def splitName : (skip : Nat) → List Char → List Char × List Char
  | _, [] => ([], [])
  | n + 1, c :: r => put c (splitName n r)
  | 0, c :: r =>
    if isNameChar c then put c (splitName 0 r)
    else if c = '\\' then
      match nameEscape? r with
      | some s => put c (splitName (r.length - s.length) r)
      | none => ([], c :: r)
    else ([], c :: r)
where
  put (c : Char) (p : List Char × List Char) : List Char × List Char := (c :: p.1, p.2)

def name? (t : List Char) : Option (List Char × List Char) :=
  match t with
  | c :: _ =>
    if isNameStart c ∨ c = '\\' then
      match splitName 0 t with
      | ([], _) => none
      | p => some p
    else none
  | [] => none

/-- What follows a run of digits; a low line may stand in front of each of them. -/
def skipDigits (p : Char → Bool) : List Char → List Char
  | '_' :: c :: r => if p c then skipDigits p r else '_' :: c :: r
  | c :: r => if p c then skipDigits p r else c :: r
  | [] => []

/-- What may follow the digits of a decimal number. -/
def skipExponent (t : List Char) : List Char :=
  match t with
  | 'e' :: r | 'E' :: r =>
    let s := match r with
      | '+' :: s | '-' :: s => s
      | _ => r
    if s.head?.any Char.isDigit then skipDigits Char.isDigit s else t
  | _ => t

def skipBig (t : List Char) : List Char :=
  match t with
  | 'n' :: r => r
  | _ => t

def number? (t : List Char) : Option (List Char) :=
  match t with
  | '0' :: x :: r =>
    if x = 'x' ∨ x = 'X' then radix isHex r
    else if x = 'o' ∨ x = 'O' then radix (fun c => '0' ≤ c && c ≤ '7') r
    else if x = 'b' ∨ x = 'B' then radix (fun c => c == '0' || c == '1') r
    else some (decimal (x :: r))
  | '.' :: d :: r =>
    if d.isDigit then some (skipExponent (skipDigits Char.isDigit r)) else none
  | c :: r => if c.isDigit then some (decimal r) else none
  | [] => none
where
  radix (p : Char → Bool) (r : List Char) : Option (List Char) :=
    if r.head?.any p then some (skipBig (skipDigits p r)) else none
  decimal (r : List Char) : List Char :=
    match skipDigits Char.isDigit r with
    | '.' :: s => skipExponent (if s.head?.any Char.isDigit then skipDigits Char.isDigit s else s)
    | 'n' :: s => s
    | s => skipExponent s

/-- What follows the sign of a string literal. -/
def string? (t : List Char) : Option (List Char) :=
  match t with
  | '"' :: r => some r
  | _ => none

/-- The text after the slash that closes a regular expression. -/
def regexEnd? : (inClass escaped : Bool) → List Char → Option (List Char)
  | _, _, [] => none
  | k, true, c :: r => if c = '\n' then none else regexEnd? k false r
  | k, false, c :: r =>
    if c = '\n' then none
    else if c = '\\' then regexEnd? k true r
    else if c = '[' then regexEnd? true false r
    else if c = ']' then regexEnd? false false r
    else if c = '/' ∧ !k then some (r.dropWhile fun c => 'a' ≤ c && c ≤ 'z')
    else regexEnd? k false r

def regex? (t : List Char) : Option (List Char) :=
  match t with
  | '/' :: r => regexEnd? false false r
  | _ => none

/-! ### Operators -/

/-- The operators between two operands, a longer one before the shorter ones that begin it. -/
def infixOperators : List (List Char) :=
  ([">>>=", "**=", "&&=", "||=", "??=", ">>=", "<<=", "===", "!==", ">>>", "+=", "-=", "*=", "/=",
    "%=", "&=", "|=", "^=", "**", "&&", "||", "??", "==", "!=", "<=", ">=", "<<", ">>", "+", "-",
    "*", "/", "%", "<", ">", "&", "|", "^", "="] : List String).map String.toList

/-- The text after an operator between two operands. -/
def infixOperator? (t : List Char) : Option (List Char) :=
  if startsWith ['=', '>'] t then none
  else infixOperators.findSome? fun o => after? o t

end Mender.Script
