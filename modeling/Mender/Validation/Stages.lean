import Mender.Hazard
import Mender.Session
import Mender.Validation.Result

/-!
Validating files: each is linted or parsed, formatted, compiled in both modes if it is a
component, and searched for hazards.

A stage that fails leaves a diagnostic, and so does one that crashes; the later stages and
the other files are not affected.
-/

namespace Mender.Validation

open Mender.Tool

/-- The tools that validation uses. The `n`-th start of the linter and the formatter ends as
`start n`; a formatter may take many files at once. -/
structure Tools where
  start : Nat → Except Fault Unit
  lint : Nat → (path source : String) → Reply LintReport
  format : Nat → (parser source : String) → Reply String
  formatAll : Option (Nat → List FormatJob → Reply (List (Except Fault String)))
  compile : Option (Nat → Mode → (file source : String) → Reply Compiled)

/-- What a crash in a stage leaves behind. -/
def crashed (phase : Phase) (origin : Mender.Origin) (detail : String) : Diagnostic where
  severity := .error
  origin := origin
  message := "internal error in stage: " ++ detail
  phase := some phase

/-- Takes the text of a tool unless it is the one the file has. -/
def Result.withText (text : String) (r : Result) : Result :=
  if text = r.formatted then r else { r with formatted := text }

/-! ### The stages -/

/-- Data files are parsed instead of linted. -/
def parseData (text : String) : List Diagnostic :=
  match Json.parse text.toList with
  | .ok _ => []
  | .error e =>
    let place := e.placeIn? text.toList
    [{ severity := .error
       origin := .parse
       message := "invalid JSON: " ++ e.messageIn text.toList
       line := (place.map (·.1)).filter (0 < ·)
       column := (place.map (·.2)).filter (0 < ·)
       phase := some .parse }]

def lintStage (t : Tools) (path : String) (r : Result) : Run Result := do
  let n ← Session.note (.lint path r.formatted)
  match t.lint n path r.formatted with
  | .answered report =>
    let messages := report.messages.map LintMessage.diagnostic
    match report.fixed.filter fun f => f != r.formatted with
    | some fixed => return { r with formatted := fixed, fixApplied := true }.add messages
    | none => return r.add messages
  | .failed f => return r.add [f.diagnostic .lint .lint]
  | .crashed detail => return r.add [crashed .lint .lint detail]

def formatStage (t : Tools) (parser : String) (r : Result) : Run Result := do
  let n ← Session.note (.format parser r.formatted)
  match t.format n parser r.formatted with
  | .answered text => return r.withText text
  | .failed f => return r.add [f.diagnostic .format .format]
  | .crashed detail => return r.add [crashed .format .format detail]

def Result.succeed (m : Mode) (r : Result) : Result :=
  match m with
  | .static => { r with staticOk := true }
  | .interactive => { r with interactiveOk := true }

def compileStage (compile : Nat → Mode → (file source : String) → Reply Compiled) (path : String)
    (m : Mode) (r : Result) : Run Result := do
  let n ← Session.note (.tryCompile m path r.formatted)
  match compile n m path r.formatted with
  | .answered _ => return r.succeed m
  | .failed f => return r.add [f.diagnostic .compiler m.phase]
  | .crashed detail => return r.add [crashed m.phase .compiler detail]

/-- What is noted of a component when there is no compiler. -/
def noCompiler : Diagnostic where
  severity := .info
  origin := .compiler
  message := "compile stage skipped: no template compiler configured"
  phase := some .static

/-! ### Files -/

/-- The linter's part; without the tools only data files have one. -/
def inspect (t : Tools) (fault : Option Fault) (kind : FileKind) (path : String) (r : Result) :
    Run Result :=
  if kind = .data then pure (r.add (parseData r.formatted))
  else if kind.isLintable then
    match fault with
    | none => lintStage t path r
    | some f => pure (r.add [f.diagnostic .toolchain .lint])
  else pure r

def arrange (t : Tools) (fault : Option Fault) (kind : FileKind) (path : String) (r : Result) :
    Run Result :=
  match fault with
  | none => formatStage t (kind.parser path) r
  | some f => pure (r.add [f.diagnostic .toolchain .format])

def tryModes (t : Tools) (kind : FileKind) (path : String) (r : Result) : Run Result :=
  if kind = .component then
    match t.compile with
    | some compile => do
      let r ← compileStage compile path .static r
      compileStage compile path .interactive r
    | none => pure (r.add [noCompiler])
  else pure r

def findHazards (c : Config) (kind : FileKind) (r : Result) : Result :=
  if c.scanHazards ∧ (kind = .component ∨ kind = .script) then
    r.add (Hazard.diagnostics r.formatted.toList)
  else r

/-- Validates a file; `text` is what it starts from, and `fault` why the tools are missing. -/
def validateOne (t : Tools) (c : Config) (fault : Option Fault) (path content text : String) :
    Run Result := do
  let kind := FileKind.ofPath path
  let start := { Result.pending content (kind == .component) with formatted := text }
  let linted ← inspect t fault kind path start
  let formatted ← arrange t fault kind path linted
  let compiled ← tryModes t kind path formatted
  return findHazards c kind compiled

/-- Starts the tools if need be, and tells why they are missing. -/
def startTools (t : Tools) : Run (Option Fault) := do
  modify fun s => { s with toolchain := s.toolchain.ensure t.start }
  return (← get).toolchain.fault?

def validateFile (t : Tools) (c : Config) (path content : String) : Run Result := do
  let fault ← startTools t
  validateOne t c fault path content content

/-! ### Sets of files -/

def formatJob (e : String × String) : FormatJob :=
  ⟨e.1, (FileKind.ofPath e.1).parser e.1, e.2⟩

/-- Formats one file after the other; a crash gives up all of them. -/
def formatEach (t : Tools) : List FormatJob → Run (Option (List (Except Fault String)))
  | [] => return some []
  | j :: js => do
    let n ← Session.note (.format j.parser j.source)
    match t.format n j.parser j.source with
    | .crashed _ => return none
    | .answered text => return (← formatEach t js).map (.ok text :: ·)
    | .failed f => return (← formatEach t js).map (.error f :: ·)

/-- Formats many files; nothing when that fails as a whole. -/
def formatJobs (t : Tools) (jobs : List FormatJob) : Run (Option (List (Except Fault String))) := do
  match t.formatAll with
  | none => formatEach t jobs
  | some formatAll =>
    let n ← Session.note (.formatAll jobs)
    match formatAll n jobs with
    | .answered results => return some results
    | .failed _ | .crashed _ => return none

/-- The files that could be formatted beforehand. -/
def preFormat (t : Tools) (files : KeyMap String) : Run (KeyMap String) := do
  let jobs := files.entries.map formatJob
  if jobs.isEmpty then return ∅
  match ← formatJobs t jobs with
  | none => return ∅
  | some results =>
    return .ofList ((jobs.zip results).filterMap fun p => p.2.toOption.map (p.1.path, ·))

def validateEach (t : Tools) (c : Config) (fault : Option Fault) (ready : KeyMap String) :
    List (String × String) → Run (List (String × Result))
  | [] => return []
  | (path, content) :: rest => do
    let r ← validateOne t c fault path content ((ready.get? path).getD content)
    return (path, r) :: (← validateEach t c fault ready rest)

/-- Validates files by their paths. -/
def validate (t : Tools) (c : Config) (files : KeyMap String) : Run (KeyMap Result) := do
  let fault ← startTools t
  let ready ← if fault.isNone && c.preFormat then preFormat t files else pure ∅
  return .ofList (← validateEach t c fault ready files.entries)

end Mender.Validation
