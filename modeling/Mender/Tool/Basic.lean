import Mender.Diagnostic

/-!
The tools around the program: what they are asked, what they answer and how they fail.

A tool is degraded when it is missing or takes too long; then its work is skipped and not
counted against the file.
-/

namespace Mender.Tool

/-! ### Failures -/

inductive Fault
  | unavailable (tool reason : String)
  | timedOut (tool : String) (limit : Nat)
  /-- The tool ran and did not accept the source. -/
  | rejected (message : String) (line column : Option Nat)
  | protocol (tool reason : String)
  | http (message : String)
  | inputOutput (message : String)
  deriving DecidableEq

namespace Fault

def message : Fault → String
  | .unavailable tool reason => tool ++ " unavailable: " ++ reason
  | .timedOut tool limit => s!"{tool} timed out after {limit}ms"
  | .rejected message _ _ => message
  | .protocol tool reason => tool ++ " protocol error: " ++ reason
  | .http message => "http error: " ++ message
  | .inputOutput message => "io error: " ++ message

def isDegraded : Fault → Bool
  | .unavailable .. | .timedOut .. => true
  | _ => false

def line? : Fault → Option Nat
  | .rejected _ line _ => line
  | _ => none

def column? : Fault → Option Nat
  | .rejected _ _ column => column
  | _ => none

def kind : Fault → String
  | .unavailable .. => "Unavailable"
  | .timedOut .. => "Timeout"
  | .rejected .. => "Rejected"
  | .protocol .. => "Protocol"
  | .http _ => "Http"
  | .inputOutput _ => "Io"

def toJson (f : Fault) : Json :=
  .ofFields [("error", .str f.kind), ("message", .str f.message), ("degraded", .bool f.isDegraded),
    ("line", .ofOption .ofNat f.line?), ("column", .ofOption .ofNat f.column?)]

/-- The diagnostic that a failure leaves in a stage. -/
def diagnostic (origin : Origin) (phase : Phase) (f : Fault) : Diagnostic where
  severity := if f.isDegraded then .info else .error
  origin := origin
  message := if f.isDegraded then origin.name ++ " stage skipped: " ++ f.message else f.message
  line := f.line?
  column := f.column?
  phase := some phase

end Fault

/-- How a call of a tool ends. -/
inductive Reply (α : Type)
  | answered (answer : α)
  | failed (fault : Fault)
  | crashed (detail : String)

/-! ### Linting and formatting -/

structure LintMessage where
  /-- Two is an error, one a warning, all else information. -/
  level : Nat
  rule : Option String
  message : String
  line : Option Nat
  column : Option Nat
  deriving DecidableEq

namespace LintMessage

def severity (m : LintMessage) : Severity :=
  match m.level with
  | 2 => .error
  | 1 => .warning
  | _ => .info

def diagnostic (m : LintMessage) : Diagnostic where
  severity := m.severity
  origin := .lint
  message := m.message
  line := m.line
  column := m.column
  rule := m.rule
  phase := some .lint

def form : Json.Form := .record "LintMessage" [
  { name := "severity", form := .natural "u8" 255 },
  { name := "ruleId", form := .optional .text, absent := .default .null },
  { name := "message", form := .text },
  { name := "line", form := .optional Diagnostic.word32, absent := .default .null },
  { name := "column", form := .optional Diagnostic.word32, absent := .default .null }]

def ofJson (j : Json) : LintMessage where
  level := (j.natField? "severity").getD 0
  rule := j.stringField? "ruleId"
  message := (j.stringField? "message").getD ""
  line := j.natField? "line"
  column := j.natField? "column"

def toJson (m : LintMessage) : Json :=
  .ofFields [("severity", .ofNat m.level), ("ruleId", .ofOption .str m.rule),
    ("message", .str m.message), ("line", .ofOption .ofNat m.line),
    ("column", .ofOption .ofNat m.column)]

instance : Json.Coded LintMessage := ⟨form, ofJson, toJson⟩

end LintMessage

structure LintReport where
  /-- The source with what the linter mended, if it mended anything. -/
  fixed : Option String := none
  messages : List LintMessage := []
  deriving DecidableEq

namespace LintReport

def form : Json.Form := .record "LintOutput" [
  { name := "fixedSource", form := .optional .text, absent := .default .null,
    aliases := ["output"] },
  { name := "messages", form := .list LintMessage.form, absent := .default (.arr []) }]

def ofJson (j : Json) : LintReport where
  fixed := j.stringField? "fixedSource"
  messages := (j.itemsField "messages").map LintMessage.ofJson

def toJson (r : LintReport) : Json :=
  .ofFields [("fixedSource", .ofOption .str r.fixed),
    ("messages", .arr (r.messages.map LintMessage.toJson))]

instance : Json.Coded LintReport := ⟨form, ofJson, toJson⟩

end LintReport

/-- A file to format, with the name of the grammar to use. -/
structure FormatJob where
  path : String
  parser : String
  source : String
  deriving DecidableEq

namespace FormatJob

def form : Json.Form := .record "FormatJob" [
  { name := "path", form := .text },
  { name := "parser", form := .text },
  { name := "source", form := .text }]

def ofJson (j : Json) : FormatJob where
  path := (j.stringField? "path").getD ""
  parser := (j.stringField? "parser").getD ""
  source := (j.stringField? "source").getD ""

def toJson (f : FormatJob) : Json :=
  .ofFields [("path", .str f.path), ("parser", .str f.parser), ("source", .str f.source)]

instance : Json.Coded FormatJob := ⟨form, ofJson, toJson⟩

end FormatJob

/-! ### Compiling -/

/-- A component is compiled to be rendered once, or to live in a page. -/
inductive Mode | static | interactive
  deriving DecidableEq

def Mode.all : List Mode := [.static, .interactive]

def Mode.name : Mode → String
  | .static => "static"
  | .interactive => "interactive"

instance : Json.Coded Mode := .ofNames Mode.all Mode.name .static

/-- The stage of validation that compiles in a mode. -/
def Mode.phase : Mode → Phase
  | .static => .static
  | .interactive => .interactive

structure Compiled where
  code : String
  css : Option String := none
  deriving DecidableEq

namespace Compiled

def form : Json.Form := .record "CompiledOutput" [
  { name := "code", form := .text },
  { name := "css", form := .optional .text, absent := .default .null }]

def ofJson (j : Json) : Compiled := ⟨(j.stringField? "code").getD "", j.stringField? "css"⟩

def toJson (c : Compiled) : Json :=
  .ofFields [("code", .str c.code), ("css", .ofOption .str c.css)]

instance : Json.Coded Compiled := ⟨form, ofJson, toJson⟩

end Compiled

end Mender.Tool
