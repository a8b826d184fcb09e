import Mender.Script.Restore
import Mender.Script.Statements

/-!
Reading a whole script.

A statement that cannot be read is passed over up to the end of its line or its semicolon,
and the next one is read as if nothing had been there.
-/

namespace Mender.Script

open Mender.Text

/-- Each goal by its rule. The fuel bounds how deep rules may lie within each other. -/
def run : (fuel : Nat) → Rules
  | 0, _, _ => failNext
  | n + 1, _, g =>
    match g with
    | .expr noIn => exprRule (run n) noIn
    | .operand => operandRule (run n)
    | .suffixes start e => suffixesRule (run n) start e
    | .operators noIn e => operatorsRule (run n) noIn e
    | .elements close => elementsRule (run n) close
    | .properties => propertiesRule (run n)
    | .template plain => templateRule (run n) plain
    | .pattern => patternRule (run n)
    | .patternItems => patternItemsRule (run n)
    | .patternFields => patternFieldsRule (run n)
    | .type => typeRule (run n)
    | .typeOperand => typeOperandRule (run n)
    | .typeSuffixes => typeSuffixesRule (run n)
    | .typeList close => typeListRule (run n) close
    | .typeMembers => typeMembersRule (run n)
    | .typeParameters => typeParametersRule (run n)
    | .parameters => parametersRule (run n)
    | .classMembers => classMembersRule (run n)
    | .enumMembers => enumMembersRule (run n)
    | .statement => statementRule (run n)
    | .statements => statementsRule (run n)
    | .cases => casesRule (run n)
    | .declarators => declaratorsRule (run n)
    | .decorators => decoratorsRule (run n)
    | .importNames => importNamesRule (run n)
    | .exportNames => exportNamesRule (run n)

/-- The fuel that a statement at the start of a text can use up. -/
def fuelFor (t : List Char) : Nat := 32 * (t.length + 4)

/-- Where the next statement starts. A comment of markup may stand between statements. -/
def statementStart : (fuel : Nat) → List Char → List Char
  | 0, t => t
  | n + 1, t =>
    let s := (skipGap .blank false t).1
    if startsWith "<!--".toList s ∨ startsWith "-->".toList s then
      statementStart n (s.dropWhile (· != '\n'))
    else s

/-- What is left of a text once an unreadable statement at its start is given up. A line that
names an interpreter is given up as a whole. -/
def giveUp (t : List Char) : List Char :=
  let names := startsWith "#!".toList t
  match t.dropWhile fun c => (names || c != ';') && c != '\n' with
  | _ :: r => r
  | [] => []

/-- The statement at the start of some signs, if it can be read, with the first fault and with what
is left. A statement that takes nothing is given up too. -/
def readStatement (t : List Char) : Option Statement × Option Nat × List Char :=
  match (run (fuelFor t) .statement).read (.atStart t) with
  | .ok (form, c) =>
    (some ⟨⟨t.length, c.rest.length⟩, form⟩, c.fault,
      if c.rest.length < t.length then c.rest else giveUp t)
  | .error left => (none, some left, giveUp t)

/-- The statements of some signs with the first fault. Each is read from the signs that are
left, whatever stood before them. -/
def readStatements : (limit : Nat) → List Char → List Statement × Option Nat
  | 0, _ => ([], none)
  | n + 1, t =>
    match statementStart t.length t with
    | [] => ([], none)
    | s =>
      let (statement, fault, left) := readStatement s
      let (more, later) := readStatements n left
      (statement.toList ++ more, fault.or later)

/-- The text behind a first line that names an interpreter. -/
def skipInterpreter (t : List Char) : List Char :=
  if startsWith "#!".toList t then t.dropWhile (· != '\n') else t

/-- What the grammar makes of the signs of a script. -/
def readSigns (t : List Char) : Tree :=
  let (statements, fault) := readStatements (t.length + 1) (skipInterpreter t)
  ⟨statements, fault⟩

/-- A quote that is not closed is a fault even where the grammar takes it. -/
def parse (t : List Char) : Tree :=
  let cs := cells t
  let tree := readSigns (signs cs)
  Tree.restore cs { tree with fault := tree.fault.or (fromUnclosed? cs) }

/-- Line and column of a place in a text; both count from one, the column in bytes. -/
def positionIn (t : List Char) (place : Nat) : Nat × Nat :=
  let p := lineColumn place 1 0 t
  (p.1, p.2 + 1)

/-- The names a script declares at its top level, in order. -/
def Tree.declaredNames (s : Tree) : List String := s.statements.flatMap Statement.declaredNames

end Mender.Script
