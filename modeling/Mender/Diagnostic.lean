import Mender.Json.Form
import Mender.Number.Word

/-!
Diagnostics: what a tool found wrong in a file.

Two diagnostics are taken for the same when origin, message and line agree; merging adds to
a list what it does not hold yet.
-/

namespace Mender

inductive Severity | info | warning | error
  deriving DecidableEq

namespace Severity

def all : List Severity := [.info, .warning, .error]

def name : Severity → String
  | .info => "info"
  | .warning => "warning"
  | .error => "error"

/-- The order of severities, the mildest first. -/
def rank : Severity → Nat
  | .info => 0
  | .warning => 1
  | .error => 2

instance : Json.Coded Severity := .ofNames all name .error

end Severity

/-- The tool a diagnostic comes from. -/
inductive Origin | lint | format | parse | compiler | typecheck | structural | toolchain
  deriving DecidableEq

namespace Origin

def all : List Origin := [.lint, .format, .parse, .compiler, .typecheck, .structural, .toolchain]

def name : Origin → String
  | .lint => "lint"
  | .format => "format"
  | .parse => "parse"
  | .compiler => "compiler"
  | .typecheck => "typecheck"
  | .structural => "structure"
  | .toolchain => "toolchain"

instance : Json.Coded Origin := .ofNames all name .toolchain

end Origin

/-- The stage of validation in which a diagnostic was recorded. -/
inductive Phase | lint | format | parse | static | interactive | typecheck | structural
  deriving DecidableEq

namespace Phase

def all : List Phase := [.lint, .format, .parse, .static, .interactive, .typecheck, .structural]

def name : Phase → String
  | .lint => "lint"
  | .format => "format"
  | .parse => "parse"
  | .static => "static"
  | .interactive => "interactive"
  | .typecheck => "typecheck"
  | .structural => "structure"

instance : Json.Coded Phase := .ofNames all name .structural

end Phase

structure Diagnostic where
  severity : Severity
  origin : Origin
  message : String
  line : Option Nat := none
  column : Option Nat := none
  rule : Option String := none
  phase : Option Phase := none
  deriving DecidableEq

namespace Diagnostic

def isError (d : Diagnostic) : Bool := d.severity == .error

/-- What makes two diagnostics the same. -/
def key (d : Diagnostic) : Origin × String × Option Nat := (d.origin, d.message, d.line)

def placeText (d : Diagnostic) : String :=
  match d.line, d.column with
  | some l, some c => s!" at {l}:{c}"
  | some l, none => s!" at line {l}"
  | none, _ => ""

def ruleText (d : Diagnostic) : String :=
  match d.rule with
  | some r => s!" ({r})"
  | none => ""

/-- The diagnostic on one line. -/
def summary (d : Diagnostic) : String :=
  s!"[{d.origin.name}]{d.placeText} {d.message}{d.ruleText}"

def toJson (d : Diagnostic) : Json :=
  .ofPresent [("severity", some (.str d.severity.name)), ("source", some (.str d.origin.name)),
    ("message", some (.str d.message)), ("line", d.line.map .ofNat),
    ("column", d.column.map .ofNat), ("rule", d.rule.map .str),
    ("phase", d.phase.map fun p => .str p.name)]

def word32 : Json.Form := .natural "u32" Word.greatest32

def form : Json.Form := .record "Diagnostic" [
  { name := "severity", form := Json.Coded.form Severity },
  { name := "source", form := Json.Coded.form Origin },
  { name := "message", form := .text },
  { name := "line", form := .optional word32, absent := .null },
  { name := "column", form := .optional word32, absent := .null },
  { name := "rule", form := .optional .text, absent := .null },
  { name := "phase", form := .optional (Json.Coded.form Phase), absent := .null }]

/-- The diagnostic of a value that has the form. -/
def ofJson (j : Json) : Diagnostic where
  severity := j.codedField Severity "severity"
  origin := j.codedField Origin "source"
  message := (j.stringField? "message").getD ""
  line := j.natField? "line"
  column := j.natField? "column"
  rule := j.stringField? "rule"
  phase := (j.given? "phase").map Json.Coded.ofJson

instance : Json.Coded Diagnostic := ⟨form, ofJson, toJson⟩

end Diagnostic

def errorCount (ds : List Diagnostic) : Nat := ds.countP Diagnostic.isError

/-- Appends the diagnostics whose key does not occur yet, in their order. -/
def mergeDiagnostics (into : List Diagnostic) : List Diagnostic → List Diagnostic
  | [] => into
  | d :: ds =>
    if into.any fun e => e.key == d.key then mergeDiagnostics into ds
    else mergeDiagnostics (into ++ [d]) ds

end Mender
