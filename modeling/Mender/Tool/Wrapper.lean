import Mender.Json.Printer
import Mender.Tool.Basic
import Mender.Tool.Command

/-!
Tools behind wrapper commands.

A wrapper gets one JSON request on its standard input and prints one envelope: a result, or
the reason why the tool did not accept the source. What else it prints, and its exit code,
only matter when the envelope cannot be read.
-/

namespace Mender.Tool

/-! ### Requests -/

inductive WrapperRequest
  | ping
  | lint (path source : String)
  | format (parser source : String)
  | formatAll (jobs : List FormatJob)
  | compile (mode : Mode) (file source : String)

def WrapperRequest.toJson : WrapperRequest → Json
  | .ping => .ofFields [("op", .str "ping")]
  | .lint path source =>
    .ofFields [("op", .str "lint"), ("source", .str source), ("path", .str path)]
  | .format parser source =>
    .ofFields [("op", .str "format"), ("source", .str source), ("parser", .str parser)]
  | .formatAll jobs =>
    .ofFields [("op", .str "format_batch"), ("files", .arr (jobs.map FormatJob.toJson))]
  | .compile mode file source =>
    .ofFields [("op", .str "compile"), ("source", .str source), ("mode", .str mode.name),
      ("filename", .str file)]

/-! ### Envelopes -/

namespace Envelope

def refusal : Json.Form := .record "WireError" [
  { name := "message", form := .text },
  { name := "line", form := .optional Diagnostic.word32, absent := .default .null },
  { name := "column", form := .optional Diagnostic.word32, absent := .default .null }]

def form (result : Json.Form) : Json.Form := .record "Envelope" [
  { name := "ok", form := .boolean },
  { name := "result", form := .optional result, absent := .null },
  { name := "error", form := .optional refusal, absent := .default .null }]

/-- The refusal of an envelope. -/
def refused (j : Json) : Fault :=
  .rejected ((j.stringField? "message").getD "") (j.natField? "line") (j.natField? "column")

/-- What an envelope holds. -/
def contents (tool : String) (j : Json) : Except Fault Json :=
  if j.boolField? "ok" = some true then
    match j.given? "result" with
    | some result => .ok result
    | none => .error (.protocol tool "ok envelope without result")
  else match j.given? "error" with
    | some e => .error (refused e)
    | none => .error (.protocol tool "error envelope without error")

/-- What is told of the standard error output. -/
def stderrNote (stderr : String) : String :=
  let t := Text.trim stderr.toList
  if t.isEmpty then "" else " (stderr: " ++ String.ofList t ++ ")"

/-- Reads the output of a wrapper whose results have the given form. -/
def read (tool : String) (result : Json.Form) (code : Int) (stdout stderr : String) :
    Except Fault Json :=
  let t := Text.trim stdout.toList
  match (form result).parse t with
  | .ok j => contents tool j
  | .error e =>
    .error (.protocol tool (s!"exit code {code}: " ++ e.messageIn t ++ stderrNote stderr))

end Envelope

/-! ### Calls -/

/-- The fault of a command that could not be started. -/
def notStarted (tool : String) (c : Command) (reason : String) : Fault :=
  .unavailable tool ("failed to start `" ++ c.program ++ "`: " ++ reason)

/-- Sends a JSON value to a wrapper and reads its answer. -/
def ask (exec : Exec) (tool : String) (c : Command) (result : Json.Form) (input : Json) :
    Except Fault Json :=
  match exec { command := c, input := input.compact } with
  | .notStarted reason => .error (notStarted tool c reason)
  | .brokenOff reason => .error (.inputOutput reason)
  | .timedOut _ => .error (.timedOut tool c.limitWord)
  | .exited code stdout stderr => Envelope.read tool result code stdout stderr

namespace Wrapper

variable (exec : Exec) (c : Command)

def lint (path source : String) : Except Fault LintReport :=
  (ask exec "lint" c LintReport.form (WrapperRequest.lint path source).toJson).map .ofJson

def textOf (j : Json) : String := j.string?.getD ""

def format (parser source : String) : Except Fault String :=
  (ask exec "format" c .text (WrapperRequest.format parser source).toJson).map textOf

def batchEntry : Json.Form := .record "BatchEntry" [
  { name := "formatted", form := .optional .text, absent := .default .null },
  { name := "error", form := .optional .text, absent := .default .null }]

/-- The text of an entry counts before its error. -/
def entryResult (j : Json) : Except Fault String :=
  match j.stringField? "formatted", j.stringField? "error" with
  | some text, _ => .ok text
  | none, some message => .error (.rejected message none none)
  | none, none => .error (.rejected "formatter returned no output" none none)

/-- The results of a batch, one for each job. -/
def batchResults (jobs : List FormatJob) (entries : List Json) :
    Except Fault (List (Except Fault String)) :=
  if entries.length = jobs.length then .ok (entries.map entryResult)
  else
    let reason := s!"expected {jobs.length} batch results, got {entries.length}"
    .error (.protocol "format" reason)

def formatAll (jobs : List FormatJob) : Except Fault (List (Except Fault String)) :=
  match ask exec "format" c (.list batchEntry) (WrapperRequest.formatAll jobs).toJson with
  | .ok j => batchResults jobs (j.items?.getD [])
  | .error f => .error f

def compile (mode : Mode) (file source : String) : Except Fault Compiled :=
  let request := WrapperRequest.compile mode file source
  (ask exec "compiler" c Compiled.form request.toJson).map .ofJson

end Wrapper

/-- Starts the linter and the formatter: both are sent a ping. -/
def pingBoth (exec : Exec) (lint format : Command) : Except Fault Unit := do
  let _ ← ask exec "lint" lint .anything WrapperRequest.ping.toJson
  let _ ← ask exec "format" format .anything WrapperRequest.ping.toJson
  return ()

/-- The reply of a tool that does not crash. -/
def Reply.ofExcept {α : Type} : Except Fault α → Reply α
  | .ok a => .answered a
  | .error f => .failed f

end Mender.Tool
