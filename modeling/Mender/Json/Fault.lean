import Mender.Json.Basic

/-!
What can be wrong with a JSON text or value, and the wording of each fault.

A text fault breaks the grammar. A shape fault is found in a well-formed value that is not
of the form asked for.
-/

namespace Mender.Json

/-- What was open when the text ended. -/
inductive Unfinished | value | object | list | string
  deriving DecidableEq

inductive TextFault
  | ended (what : Unfinished)
  | noColon
  | noListEnd
  | noObjectEnd
  | noIdent
  | noValue
  | trailingComma
  | trailingCharacters
  | keyNotString
  | invalidNumber
  | numberOutOfRange
  | invalidEscape
  | loneSurrogate
  | unpairedSurrogate
  | controlCharacter
  | tooDeep
  deriving DecidableEq

/-- A value of another kind than the one asked for. -/
inductive Found
  | null
  | bool (b : Bool)
  | int (i : Int)
  | real (x : Binary64)
  | str (s : String)
  | list
  | object

inductive ShapeFault
  | missingField (name : String)
  | duplicateField (name : String)
  | unknownVariant (found : String) (options : List String)
  | invalidType (found : Found) (expected : String)
  | invalidValue (found : Found) (expected : String)
  | invalidLength (length : Nat) (expected : String)

inductive Fault
  | text (f : TextFault)
  | shape (f : ShapeFault)

def Unfinished.message : Unfinished → String
  | .value => "EOF while parsing a value"
  | .object => "EOF while parsing an object"
  | .list => "EOF while parsing a list"
  | .string => "EOF while parsing a string"

def TextFault.message : TextFault → String
  | .ended what => what.message
  | .noColon => "expected `:`"
  | .noListEnd => "expected `,` or `]`"
  | .noObjectEnd => "expected `,` or `\x7d`"
  | .noIdent => "expected ident"
  | .noValue => "expected value"
  | .trailingComma => "trailing comma"
  | .trailingCharacters => "trailing characters"
  | .keyNotString => "key must be a string"
  | .invalidNumber => "invalid number"
  | .numberOutOfRange => "number out of range"
  | .invalidEscape => "invalid escape"
  | .loneSurrogate => "lone leading surrogate in hex escape"
  | .unpairedSurrogate => "unexpected end of hex escape"
  | .controlCharacter => "control character (\\u0000-\\u001F) found while parsing a string"
  | .tooDeep => "recursion limit exceeded"

def Found.of : Json → Found
  | .null => .null
  | .bool b => .bool b
  | .int i => .int i
  | .real x => .real x
  | .str s => .str s
  | .arr _ => .list
  | .obj _ => .object

/-- The code points that a debug rendering of text writes as they are, among those below
U+00A1; later ones are all written as they are. -/
def debugChar (c : Char) : List Char :=
  if c = '"' then ['\\', '"']
  else if c = '\\' then ['\\', '\\']
  else if c = '\n' then ['\\', 'n']
  else if c = '\r' then ['\\', 'r']
  else if c = '\t' then ['\\', 't']
  else if c.toNat = 0 then ['\\', '0']
  else if c.toNat < 32 ∨ (127 ≤ c.toNat ∧ c.toNat < 0xA1) ∨ c.toNat = 0xAD then
    ['\\', 'u', '{'] ++ Nat.toDigits 16 c.toNat ++ ['}']
  else [c]

def Found.text : Found → String
  | .null => "null"
  | .bool true => "boolean `true`"
  | .bool false => "boolean `false`"
  | .int i => "integer `" ++ toString i ++ "`"
  | .real x => "floating point `" ++ String.ofList x.text ++ "`"
  | .str s => "string \"" ++ String.ofList (s.toList.flatMap debugChar) ++ "\""
  | .list => "sequence"
  | .object => "map"

/-- The options of a choice: two are joined by `or`, more are listed. -/
def optionsText : List String → String
  | [] => "there are no variants"
  | [a] => "expected `" ++ a ++ "`"
  | [a, b] => "expected `" ++ a ++ "` or `" ++ b ++ "`"
  | options => "expected one of " ++ ", ".intercalate (options.map fun o => "`" ++ o ++ "`")

def ShapeFault.message : ShapeFault → String
  | .missingField name => "missing field `" ++ name ++ "`"
  | .duplicateField name => "duplicate field `" ++ name ++ "`"
  | .unknownVariant found [] => "unknown variant `" ++ found ++ "`, there are no variants"
  | .unknownVariant found options => "unknown variant `" ++ found ++ "`, " ++ optionsText options
  | .invalidType found expected => "invalid type: " ++ found.text ++ ", expected " ++ expected
  | .invalidValue found expected => "invalid value: " ++ found.text ++ ", expected " ++ expected
  | .invalidLength n expected => "invalid length " ++ toString n ++ ", expected " ++ expected

def Fault.message : Fault → String
  | .text f => f.message
  | .shape f => f.message

/-- Where a reading stopped: with so many bytes left, or at a text whose place the enclosing
list or object has still to settle. -/
inductive Stop
  | left (bytes : Nat)
  | unsettled (rest : List Char)

/-- A step from a value to one of its parts. -/
inductive Step
  | key (k : String)
  | index (i : Nat)

/-- A fault, where the reading stopped, and the way to the value it was found in. -/
structure Failure where
  fault : Fault
  stop : Stop
  path : List Step := []

def Failure.within (step : Step) (e : Failure) : Failure := { e with path := step :: e.path }

end Mender.Json
