import Mender.Number.Word
import Mender.Text.Lines
import Mender.Text.Numeral
import Mender.Text.Search
import Mender.Tool.Wrapper

/-!
The findings of a type checker, one on a line.

A finding is a JSON object, or it begins with a file and a place, written `(line,column):`
or `:line:column -`. Other lines are passed over. What a checker prints before it is cut off
counts, as far as whole lines go.
-/

namespace Mender.Tool

open Mender.Text

/-- The usual limit for one check, in milliseconds. -/
def checkLimit : Nat := 6000

/-! ### Findings as objects -/

def findingForm : Json.Form := .record "JsonFinding" [
  { name := "severity", form := .optional .text, absent := .default .null },
  { name := "message", form := .text },
  { name := "line", form := .optional Diagnostic.word32, absent := .default .null },
  { name := "column", form := .optional Diagnostic.word32, absent := .default .null },
  { name := "code", form := .optional .text, absent := .default .null }]

/-- A severity that is not known counts as an error. -/
def severityNamed (name : Option String) : Severity :=
  if name = some "warning" then .warning
  else if name = some "info" ∨ name = some "hint" then .info
  else .error

def findingOfJson (j : Json) : Diagnostic where
  severity := severityNamed (j.stringField? "severity")
  origin := .typecheck
  message := (j.stringField? "message").getD ""
  line := j.natField? "line"
  column := j.natField? "column"
  rule := j.stringField? "code"
  phase := some .typecheck

/-! ### Findings as text -/

/-- Digits, and what follows them. -/
def numeral? (t : List Char) : Option (List Char × List Char) :=
  let digits := t.takeWhile isNumeral
  if digits.isEmpty then none else some (digits, t.dropWhile isNumeral)

/-- What follows at least one blank. -/
def afterBlanks? : List Char → Option (List Char)
  | [] => none
  | c :: r => if isBlank c then some (r.dropWhile isBlank) else none

/-- Line and column in digits, and what follows the mark that ends the place. -/
structure Place where
  line : List Char
  column : List Char
  rest : List Char

/-- A place that the text begins with. -/
def place? : List Char → Option Place
  | '(' :: t => do
    let (line, t) ← numeral? t
    let t ← after? [','] t
    let (column, t) ← numeral? t
    let rest ← after? [')', ':'] t
    return ⟨line, column, rest⟩
  | ':' :: t => do
    let (line, t) ← numeral? t
    let t ← after? [':'] t
    let (column, t) ← numeral? t
    let t ← afterBlanks? t
    let rest ← after? ['-'] t
    return ⟨line, column, rest⟩
  | _ => none

/-- A severity, with at least one blank after it. -/
def severity? (t : List Char) : Option (Severity × List Char) :=
  match after? "error".toList t, after? "warning".toList t with
  | some r, _ => (afterBlanks? r).map (.error, ·)
  | none, some r => (afterBlanks? r).map (.warning, ·)
  | none, none => none

/-- A rule's code with its colon, if the text begins with one. -/
def ruleCode? (t : List Char) : Option (List Char × List Char) := do
  let r ← after? ['T', 'S'] t
  let (digits, r) ← numeral? r
  let r ← after? [':'] r
  return ('T' :: 'S' :: digits, r.dropWhile isBlank)

/-- The finding whose place the text begins with; its message is on one line. -/
def findingFrom? (t : List Char) : Option Diagnostic := do
  let p ← place? t
  let (severity, r) ← severity? (p.rest.dropWhile isBlank)
  let code := ruleCode? r
  let message := (code.map (·.2)).getD r
  if message.contains '\n' then none
  else
    return {
      severity := severity
      origin := .typecheck
      message := String.ofList (trim message)
      line := decimal? Word.greatest32 p.line
      column := decimal? Word.greatest32 p.column
      rule := code.map fun c => String.ofList c.1
      phase := some .typecheck }

/-- The finding at the first place after the start of the line. -/
def findingAfterFile? : List Char → Option Diagnostic
  | [] => none
  | c :: t => if c = '\n' then none else (findingFrom? t).or (findingAfterFile? t)

/-- The finding of a line, if it has one. -/
def finding? (line : List Char) : Option Diagnostic :=
  let t := trim line
  if t.head? = some '{' then (findingForm.parse t).toOption.map findingOfJson
  else findingAfterFile? t

/-! ### Checks -/

/-- The warning that a check was cut off. -/
def cutOff (c : Command) : Diagnostic where
  severity := .warning
  origin := .typecheck
  message := s!"type check timed out after {c.limitWord}ms; results are partial"
  phase := some .typecheck

/-- The lines that end with a line feed. -/
def wholeLines (t : List Char) : List (List Char) :=
  ((lineRuns t).filter fun l => l.getLast? == some '\n').map dropLineEnd

/-- What a check found out. -/
def findings (c : Command) : Ending → Except Fault (List Diagnostic)
  | .notStarted reason => .error (notStarted "typecheck" c reason)
  | .brokenOff reason => .error (.inputOutput reason)
  | .timedOut stdout => .ok ((wholeLines stdout.toList).filterMap finding? ++ [cutOff c])
  | .exited _ stdout _ => .ok ((lines stdout.toList).filterMap finding?)

/-- The name of the file that a checker is given: the part after the last slash. -/
def checkedName (file : String) : String :=
  String.ofList (((cutLast? (· == '/') file.toList).map (·.2)).getD file.toList)

/-- Names of directories. No file can be written under them. -/
def isDirectoryName (name : String) : Bool := name == "" || name == "." || name == ".."

/-- Has a source checked that stands in a file of its own, the last argument of the command.
The checker reads no standard input. -/
def checkTypes (exec : Exec) (c : Command) (file source : String) :
    Except Fault (List Diagnostic) :=
  let name := checkedName file
  if isDirectoryName name then .error (.inputOutput "Is a directory (os error 21)")
  else
    let command := { c with arguments := c.arguments ++ [name] }
    findings c (exec { command, file := some (name, source) })

end Mender.Tool
