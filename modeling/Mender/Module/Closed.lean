import Mender.Module.Stub
import Mender.Script.Parse

/-!
Closing a module: imports and exports become calls and assignments.

Each import or export at the top level is replaced in its place, and all other text stays.
What concerns types only leaves nothing behind.
-/

namespace Mender.Module

open Mender.Text Mender.Script

/-- A closed module with the specifiers it requires, in order. -/
structure Closed where
  code : String
  imports : List String
  deriving DecidableEq

/-- Why a module cannot be closed. -/
inductive Refusal
  | faulty (line column : Nat)
  | importForm (text : String)
  | exportForm (text : String)
  deriving DecidableEq

def Refusal.message : Refusal → String
  | .faulty line column => s!"syntax error at {line}:{column}"
  | .importForm text => "unsupported import form: " ++ text
  | .exportForm text => "unsupported export form: " ++ text

/-- What takes a statement's place, with the specifier it requires. -/
structure Replacement where
  text : String
  required : Option String := none

/-- The name that holds the `n`-th required module. -/
def holder (n : Nat) : String := s!"__pw_m{n}"

def requireText (n : Nat) (specifier : String) : String :=
  "const " ++ holder n ++ " = __pw_require(" ++ quoted specifier ++ ");"

def bindText (name value : String) : String := " const " ++ name ++ " = " ++ value ++ ";"

/-- What binds the names of an import of the `n`-th module. -/
def importText (n : Nat) (i : Import) : String :=
  let m := holder n
  let first := i.default.toList.map fun d => bindText d (m ++ ".default")
  let whole := i.whole.toList.map fun w => bindText w m
  let names := (i.names.filter fun a => !a.typeOnly).map fun a =>
    bindText a.localName (m ++ "[" ++ quoted a.name.value ++ "]")
  String.join (first ++ whole ++ names)

/-- An assignment to an export whose name may be any text. -/
def exportText (name value : String) : String :=
  " __pw_exports[" ++ quoted name ++ "] = " ++ value ++ ";"

/-- The assignments that follow an exported declaration. -/
def afterDeclaration (names : List String) : String :=
  String.join (names.map fun n => "\n__pw_exports." ++ n ++ " = " ++ n ++ ";")

def defaultText (value : String) : String := "__pw_exports.default = (" ++ value ++ ");"

def closeImport (n : Nat) (i : Import) (text : String) : Except Refusal Replacement :=
  if i.typeOnly then .ok { text := "" }
  else match i.source with
    | none => .error (.importForm text)
    | some s => .ok { text := requireText n s.value ++ importText n i, required := some s.value }

/-- A statement that exports, with `part` to look up a stretch of the script. -/
def closeExport (part : Extent → String) (n : Nat) (text : String) :
    Export → Except Refusal Replacement
  | .typeOnly => .ok { text := "" }
  | .declaration .typeOnly _ _ => .ok { text := "" }
  | .declaration d extent true =>
    match d.names with
    | name :: _ => .ok { text := part extent ++ "\n__pw_exports.default = " ++ name ++ ";" }
    | [] => .ok { text := defaultText (part extent) }
  | .declaration d extent false => .ok { text := part extent ++ afterDeclaration d.names }
  | .value extent => .ok { text := defaultText (part extent) }
  | .names names none =>
    .ok { text := String.join (names.map fun e => exportText (e.newName.getD e.name).value e.name.value) }
  | .names names (some s) =>
    .ok {
      text := requireText n s.value ++ String.join (names.map fun e =>
        exportText (e.newName.getD e.name).value (holder n ++ "[" ++ quoted e.name.value ++ "]"))
      required := some s.value }
  | .all s =>
    .ok {
      text := requireText n s.value ++ " Object.assign(__pw_exports, " ++ holder n ++ ");"
      required := some s.value }
  | .whole name s =>
    .ok {
      text := requireText n s.value ++ exportText name.value (holder n)
      required := some s.value }
  | .unsupported => .error (.exportForm text)

/-- What takes the place of a statement; most stay as they are. -/
def closeStatement? (part : Extent → String) (n : Nat) (s : Statement) :
    Option (Except Refusal Replacement) :=
  match s.form with
  | .imports i => some (closeImport n i (part s.extent))
  | .exports e => some (closeExport part n (part s.extent) e)
  | _ => none

/-- The replacements of some statements; `n` modules are required before them. -/
def replacements (part : Extent → String) :
    (n : Nat) → List Statement → Except Refusal (List (Extent × Replacement))
  | _, [] => .ok []
  | n, s :: ss =>
    match closeStatement? part n s with
    | none => replacements part n ss
    | some (.error e) => .error e
    | some (.ok r) =>
      (replacements part (n + r.required.toList.length) ss).map ((s.extent, r) :: ·)

/-- A text from `place` on, with stretches of it replaced. -/
def splice (t : List Char) : (place : Nat) → List (Extent × List Char) → List Char
  | place, [] => dropWidth place t
  | place, (e, new) :: es => slice place e.first t ++ new ++ splice t e.last es

/-- A stretch of a text. -/
def partOf (t : List Char) (e : Extent) : String := String.ofList (slice e.first e.last t)

def close (code : String) : Except Refusal Closed :=
  let t := code.toList
  let tree := Script.parse t
  match tree.fault with
  | some place =>
    let p := positionIn t place
    .error (.faulty p.1 p.2)
  | none =>
    (replacements (partOf t) 0 tree.statements).map fun rs => {
      code := closedForm (String.ofList (splice t 0 (rs.map fun r => (r.1, r.2.text.toList))))
      imports := rs.filterMap fun r => r.2.required }

end Mender.Module
