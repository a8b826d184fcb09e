import Mender.Diagnostic
import Mender.Number.Word
import Mender.Store

/-!
What a repair is asked for, within which bounds, and how it ends.
-/

namespace Mender.Repair

/-- Bounds of a repair. -/
structure Policy where
  maxPasses : Nat := 3
  /-- No request may ask for more passes. -/
  ceiling : Nat := 10
  /-- How many errors a model is shown. -/
  maxDiagnostics : Nat := 20
  /-- Types are checked when fewer errors than this are left. -/
  typecheckBelow : Nat := 5
  deriving DecidableEq

namespace Policy

def machineSize : Json.Form := .natural "usize" Word.greatest64

def form : Json.Form := .record "RepairPolicy" [
  { name := "max_passes", form := Diagnostic.word32, absent := .default (.int 3) },
  { name := "pass_ceiling", form := Diagnostic.word32, absent := .default (.int 10) },
  { name := "max_diagnostics", form := machineSize, absent := .default (.int 20) },
  { name := "typecheck_below", form := machineSize, absent := .default (.int 5) }]

def ofJson (j : Json) : Policy where
  maxPasses := (j.natField? "max_passes").getD 3
  ceiling := (j.natField? "pass_ceiling").getD 10
  maxDiagnostics := (j.natField? "max_diagnostics").getD 20
  typecheckBelow := (j.natField? "typecheck_below").getD 5

def toJson (p : Policy) : Json :=
  .ofFields [("max_passes", .ofNat p.maxPasses), ("pass_ceiling", .ofNat p.ceiling),
    ("max_diagnostics", .ofNat p.maxDiagnostics), ("typecheck_below", .ofNat p.typecheckBelow)]

instance : Json.Coded Policy := ⟨form, ofJson, toJson⟩

end Policy

/-- How the text that a repair returns came about. -/
inductive Provenance
  /-- A patch changed the source, and the result has no errors. -/
  | aiRepair
  /-- The source had no errors. -/
  | alreadyValid
  /-- A component from the catalog took the file's place. -/
  | catalog
  /-- The repair failed, and the source is returned as it was. -/
  | asGiven
  deriving DecidableEq

namespace Provenance

def all : List Provenance := [.aiRepair, .alreadyValid, .catalog, .asGiven]

def name : Provenance → String
  | .aiRepair => "ai-repair"
  | .alreadyValid => "validated-original"
  | .catalog => "catalog"
  | .asGiven => "original"

instance : Json.Coded Provenance := .ofNames all name .asGiven

end Provenance

structure Request where
  filename : String
  /-- Read from the store when absent. -/
  code : Option String := none
  /-- The project in which the repair is kept. -/
  project : Option String := none
  maxPasses : Option Nat := none
  allowCatalog : Bool := true
  /-- Notes to add to those that are kept. -/
  memory : List String := []
  deriving DecidableEq

namespace Request

def form : Json.Form := .record "RepairRequest" [
  { name := "filename", form := .text },
  { name := "code", form := .optional .text, absent := .default .null },
  { name := "projectId", form := .optional .text, absent := .default .null },
  { name := "maxPasses", form := .optional Diagnostic.word32, absent := .default .null },
  { name := "allowCatalog", form := .boolean, absent := .default (.bool true) },
  { name := "memory", form := .list .text, absent := .default (.arr []) }]

def ofJson (j : Json) : Request where
  filename := (j.stringField? "filename").getD ""
  code := j.stringField? "code"
  project := j.stringField? "projectId"
  maxPasses := j.natField? "maxPasses"
  allowCatalog := (j.boolField? "allowCatalog").getD true
  memory := j.stringsField "memory"

def toJson (r : Request) : Json :=
  .ofFields [("filename", .str r.filename), ("code", .ofOption .str r.code),
    ("projectId", .ofOption .str r.project), ("maxPasses", .ofOption .ofNat r.maxPasses),
    ("allowCatalog", .bool r.allowCatalog), ("memory", .ofStrings r.memory)]

instance : Json.Coded Request := ⟨form, ofJson, toJson⟩

end Request

/-- What one pass did. -/
structure PassRecord where
  pass : Nat
  errorsBefore : Nat
  errorsAfter : Nat
  changed : Bool
  summary : Option String
  deriving DecidableEq

namespace PassRecord

def toJson (r : PassRecord) : Json :=
  .ofPresent [("pass", some (.ofNat r.pass)), ("errorsBefore", some (.ofNat r.errorsBefore)),
    ("errorsAfter", some (.ofNat r.errorsAfter)), ("changed", some (.bool r.changed)),
    ("summary", r.summary.map .str)]

def ofJson (j : Json) : PassRecord where
  pass := (j.natField? "pass").getD 0
  errorsBefore := (j.natField? "errorsBefore").getD 0
  errorsAfter := (j.natField? "errorsAfter").getD 0
  changed := (j.boolField? "changed").getD false
  summary := j.stringField? "summary"

def form : Json.Form := .record "PassRecord" [
  { name := "pass", form := Diagnostic.word32 },
  { name := "errorsBefore", form := Policy.machineSize },
  { name := "errorsAfter", form := Policy.machineSize },
  { name := "changed", form := .boolean },
  { name := "summary", form := .optional .text, absent := .null }]

instance : Json.Coded PassRecord := ⟨form, ofJson, toJson⟩

end PassRecord

structure Outcome where
  passes : Nat
  fixedCode : String
  finalDiagnostics : List Diagnostic
  provenance : Provenance
  records : List PassRecord
  memory : List String
  deriving DecidableEq

namespace Outcome

def errors (o : Outcome) : Nat := errorCount o.finalDiagnostics

def toJson (o : Outcome) : Json :=
  .ofFields [("passes", .ofNat o.passes), ("fixedCode", .str o.fixedCode),
    ("finalDiagnostics", .arr (o.finalDiagnostics.map Diagnostic.toJson)),
    ("provenance", .str o.provenance.name), ("records", .arr (o.records.map PassRecord.toJson)),
    ("memory", .ofStrings o.memory)]

def ofJson (j : Json) : Outcome where
  passes := (j.natField? "passes").getD 0
  fixedCode := (j.stringField? "fixedCode").getD ""
  finalDiagnostics := (j.itemsField "finalDiagnostics").map Diagnostic.ofJson
  provenance := j.codedField Provenance "provenance"
  records := (j.itemsField "records").map PassRecord.ofJson
  memory := j.stringsField "memory"

def form : Json.Form := .record "RepairOutcome" [
  { name := "passes", form := Diagnostic.word32 },
  { name := "fixedCode", form := .text },
  { name := "finalDiagnostics", form := .list Diagnostic.form },
  { name := "provenance", form := Json.Coded.form Provenance },
  { name := "records", form := .list PassRecord.form },
  { name := "memory", form := .list .text }]

instance : Json.Coded Outcome := ⟨form, ofJson, toJson⟩

end Outcome

/-- Why a repair is not even tried. -/
inductive Fault
  | invalidRequest (reason : String)
  | fileNotFound (project filename : String)
  | storage (fault : StoreFault)
  deriving DecidableEq

namespace Fault

def message : Fault → String
  | .invalidRequest reason => "invalid request: " ++ reason
  | .fileNotFound project filename => "file not found: " ++ project ++ "/" ++ filename
  | .storage fault => "storage error: " ++ fault.message

def kind : Fault → String
  | .invalidRequest _ => "InvalidRequest"
  | .fileNotFound .. => "FileNotFound"
  | .storage _ => "Storage"

def toJson (f : Fault) : Json := .ofFields [("error", .str f.kind), ("message", .str f.message)]

end Fault

end Mender.Repair
