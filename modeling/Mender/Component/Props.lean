import Mender.Json.Reader
import Mender.Markup.Element
import Mender.Number.Binary64
import Mender.Number.Word
import Mender.Script.Parse

/-!
The parameters of a component that have a literal default, with their values.

A parameter is an exported variable of the instance script, or a field that is taken out of
`$props()`.
-/

namespace Mender.Component

open Mender.Text Mender.Script

/-! ### Numbers -/

/-- The value of some decimal digits; nothing when there is another character. -/
def digitsValue? (t : List Char) : Option Nat :=
  if t.all Char.isDigit then some (t.foldl (fun n c => 10 * n + (c.toNat - 48)) 0) else none

/-- The exponent that a number's text ends with; none counts as zero. -/
def exponent? (t : List Char) : Option Int :=
  match t with
  | [] => some 0
  | c :: r =>
    if c ≠ 'e' ∧ c ≠ 'E' then none
    else
      let (down, ds) := match r with
        | '-' :: s => (true, s)
        | '+' :: s => (false, s)
        | s => (false, s)
      if ds.isEmpty then none
      else (digitsValue? ds).map fun n => if down then -(n : Int) else n

/-- A number with a point or an exponent, or too large for an integer. -/
def realLiteral? (negative : Bool) (t : List Char) : Option Json :=
  let (whole, rest) := t.span Char.isDigit
  let (part, tail) := match rest with
    | '.' :: r => r.span Char.isDigit
    | r => ([], r)
  if whole.isEmpty && part.isEmpty then none
  else
    match digitsValue? (whole ++ part), exponent? tail with
    | some n, some e => (Binary64.ofDecimal negative n (e - part.length)).map .real
    | _, _ => none

/-- A decimal number; blanks and low lines in it do not count. -/
def numberLiteral? (raw : List Char) : Option Json :=
  let t := raw.filter fun c => !(isBlank c || c == '_')
  let (negative, digits) := match t with
    | '-' :: r => (true, r)
    | r => (false, r)
  match if digits.isEmpty then none else digitsValue? digits with
  | some n =>
    let i : Int := if negative then -(n : Int) else n
    if -Int.ofNat Word.negative64 ≤ i ∧ i < Int.ofNat Word.negative64 then some (.int i) else realLiteral? negative digits
  | none => realLiteral? negative digits

/-! ### Literals -/

/-- The value of a literal from its text. -/
def literalOf? (kind : Literal) (raw : List Char) : Option Json :=
  match kind with
  | .true => some (.bool Bool.true)
  | .false => some (.bool Bool.false)
  | .null => some .null
  | .string => some (.str ((Json.parseString? raw).getD (String.ofList (unquote raw))))
  | .template =>
    if contains "$\x7b".toList raw then none else some (.str (String.ofList (unquote raw)))
  | .number | .minus => numberLiteral? raw
  | .object | .array => Json.parse? raw

/-- The value of an expression that needs no evaluation. -/
def value? : Expr → Option Json
  | .literal kind part => literalOf? kind part.text.toList
  | .group (some e) => value? e
  | _ => none

/-! ### Parameters -/

/-- An exported variable with a literal value. -/
def exportedParameter? (d : Declarator) : Option (String × Json) :=
  match d.pattern, d.value with
  | .name n, some e => (value? e).map (n, ·)
  | _, _ => none

/-- A field of `$props()` with a literal default. -/
def fieldParameter? : Field → Option (String × Json)
  | .shortDefault n e => (value? e).map (n, ·)
  | .pair key (.withDefault _ e) => (value? e).map (key.value, ·)
  | _ => none

def takesProps : Option Expr → Bool
  | some (.call callee) => callee.text == "$props"
  | _ => false

def runeParameters (d : Declarator) : List (String × Json) :=
  match d.pattern with
  | .object fields => if takesProps d.value then fields.filterMap fieldParameter? else []
  | _ => []

def parametersOf (s : Statement) : List (String × Json) :=
  match s.form with
  | .exports (.declaration (.bindings ds) _ _) => ds.filterMap exportedParameter?
  | .declares (.bindings ds) => ds.flatMap runeParameters
  | _ => []

def initialProps (source : String) : KeyMap Json :=
  let t := source.toList
  match Markup.instanceScript? t with
  | none => ∅
  | some e => .ofList ((Script.parse (e.content.of t)).statements.flatMap parametersOf)

end Mender.Component
