import Mender.Script.Lexeme

/-!
A script with its string literals set aside.

What a string literal holds is of no interest to the grammar. So a script is first taken apart
into cells: a literal is one cell, every other character is one of its own. Each cell has a sign,
and the grammar reads the signs. For this the comments, the templates and the regular expressions
must be known, for the quotes in them begin no literals. They are found from left to right, with
one character ahead.
-/

namespace Mender.Script

open Mender.Text

/-- A string literal with its quotes, a quote in the code that no other one closes, or any other
character. -/
inductive Cell
  | literal (text : List Char)
  | unclosed (quote : Char)
  | plain (c : Char)
  deriving DecidableEq

namespace Cell

def text : Cell → List Char
  | literal t => t
  | unclosed c | plain c => [c]

/-- A literal's sign is the double quote, which stands for nothing else. -/
def sign : Cell → Char
  | literal _ => '"'
  | unclosed _ => '\''
  | plain c => if c = '"' then '\'' else c

end Cell

/-- What a bracket is there for. -/
inductive Bracket | condition | substitution | other
  deriving DecidableEq

/-- What the lexeme before a place was; the letters of a word stand backwards. -/
inductive Before
  | word (letters : List Char) (isOpen : Bool)
  | sign (c : Char)
  | operand
  | other
  deriving DecidableEq

/-- What a place lies in. -/
inductive Mode
  | code
  | comment (g : Gap)
  | template (escaped : Bool)
  | dollar
  | regex (inClass escaped : Bool)
  deriving DecidableEq

structure Scan where
  mode : Mode := .code
  before : Before := .other
  brackets : List Bracket := []
  deriving DecidableEq

/-- The words behind which a slash begins a regular expression. -/
def wordsBeforeOperand : List String :=
  ["return", "typeof", "case", "do", "else", "in", "of", "instanceof", "new", "void", "delete",
    "throw", "yield", "await", "default", "extends"]

/-- The words with a condition in parentheses, behind which a statement begins. -/
def wordsBeforeCondition : List String := ["if", "for", "while", "with"]

def Before.isWordOf (words : List String) : Before → Bool
  | .word letters _ => words.contains (String.ofList letters.reverse)
  | _ => false

/-- Whether a slash behind this begins a regular expression. -/
def Before.takesOperand : Before → Bool
  | .operand => false
  | .word letters isOpen => (word letters isOpen).isWordOf wordsBeforeOperand
  | .sign _ | .other => true

/-- A word or a sign cannot go on behind a blank or a comment. -/
def Before.close : Before → Before
  | .word letters _ => .word letters false
  | .sign _ => .other
  | b => b

/-- What stands before the place behind a character that is no bracket. A doubled sign counts as
the end of an operand, and so does a `!` that is attached to one. The name of a member keeps its
dot, so that it is not taken for a keyword. -/
def Before.push (c : Char) (b : Before) : Before :=
  if isGap c then b.close
  else if isNameChar c then
    match b with
    | .word letters true => .word (c :: letters) true
    | .sign '.' => .word [c, '.'] true
    | _ => .word [c] true
  else
    match b with
    | .word _ true => if c = '!' ∧ !b.takesOperand then .operand else single
    | .sign d => if c = d ∧ c ≠ '.' then .operand else single
    | _ => single
where
  single : Before := if c = '+' ∨ c = '-' ∨ c = '.' then .sign c else .other

/-- Passes a character of the code, with the one behind it. -/
def Scan.pass (c : Char) (next : Option Char) (s : Scan) : Scan :=
  if c = '/' ∧ (next = some '/' ∨ next = some '*') then
    { s with mode := .comment .opening, before := s.before.close }
  else if c = '#' ∧ next = some '!' then { s with mode := .comment .line }
  else if c = '\x60' then { s with mode := .template false }
  else if c = '(' then
    { s with
      before := .other
      brackets := (if s.before.isWordOf wordsBeforeCondition then .condition else .other) :: s.brackets }
  else if c = '{' then { s with before := .other, brackets := .other :: s.brackets }
  else if c = ')' then
    { s with
      before := if s.brackets.head? = some .condition then .other else .operand
      brackets := s.brackets.tail }
  else if c = '}' then
    { mode := if s.brackets.head? = some .substitution then .template false else .code
      before := .other
      brackets := s.brackets.tail }
  else if c = ']' then { s with before := .operand }
  else if c = '/' ∧ s.before.takesOperand then { s with mode := .regex false false, before := .operand }
  else { s with before := s.before.push c }

/-- Passes a character that belongs to no literal, with the one behind it. -/
def Scan.step (c : Char) (next : Option Char) (s : Scan) : Scan :=
  match s.mode with
  | .code => s.pass c next
  | .comment .opening => { s with mode := .comment (if c = '/' then .line else .block) }
  | .comment .line => if c = '\n' then { s with mode := .code } else s
  | .comment .star =>
    { s with mode := if c = '/' then .code else .comment (if c = '*' then .star else .block) }
  | .comment _ => { s with mode := .comment (if c = '*' then .star else .block) }
  | .template true => { s with mode := .template false }
  | .template false =>
    if c = '\\' then { s with mode := .template true }
    else if c = '$' ∧ next = some '{' then { s with mode := .dollar }
    else if c = '\x60' then { s with mode := .code, before := .operand }
    else s
  | .dollar => { mode := .code, before := .other, brackets := .substitution :: s.brackets }
  | .regex inClass escaped =>
    if c = '\n' ∨ (c = '/' ∧ !inClass ∧ !escaped) then { s with mode := .code }
    else if escaped then { s with mode := .regex inClass false }
    else { s with mode := .regex (c == '[' || (inClass && c != ']')) (c == '\\') }

/-- Behind a literal. -/
def Scan.pastLiteral (s : Scan) : Scan := { s with before := .operand }

/-- Whether a literal starts with this character. -/
def Scan.startsLiteral (s : Scan) (c : Char) : Bool := s.mode = .code && (c == '"' || c == '\'')

/-- The text behind the closing quote of a literal; a line end in it must be escaped. -/
def stringEnd? (quote : Char) : (escaped : Bool) → List Char → Option (List Char)
  | _, [] => none
  | true, c :: r => if c = '\r' ∧ r.head? = some '\n' then stringEnd? quote true r
    else stringEnd? quote false r
  | false, c :: r =>
    if c = quote then some r
    else if c = '\n' ∨ c = '\r' then none
    else stringEnd? quote (c == '\\') r

/-- The cells of a text, after `skip` characters that belong to a literal. -/
def cellsFrom : (skip : Nat) → Scan → List Char → List Cell
  | _, _, [] => []
  | n + 1, s, _ :: r => cellsFrom n s r
  | 0, s, c :: r =>
    if s.startsLiteral c then
      match stringEnd? c false r with
      | some rest =>
        let n := r.length - rest.length
        .literal (c :: r.take n) :: cellsFrom n s.pastLiteral r
      | none => .unclosed c :: cellsFrom 0 (s.step c r.head?) r
    else .plain c :: cellsFrom 0 (s.step c r.head?) r

def cells (t : List Char) : List Cell := cellsFrom 0 {} t

def signs (cs : List Cell) : List Char := cs.map Cell.sign

/-- The text that cells stand for. -/
def joined (cs : List Cell) : List Char := cs.flatMap Cell.text

/-- The number of cells from the first quote on that is not closed. -/
def fromUnclosed? : List Cell → Option Nat
  | [] => none
  | .unclosed _ :: cs => some (cs.length + 1)
  | _ :: cs => fromUnclosed? cs

end Mender.Script
