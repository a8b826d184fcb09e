import Mender.Diagnostic
import Mender.SourceFile

/-!
What validation finds out about a file.
-/

namespace Mender.Validation

structure Result where
  source : String
  /-- The text as mended and formatted. -/
  formatted : String
  fixApplied : Bool
  diagnostics : List Diagnostic
  staticOk : Bool
  interactiveOk : Bool
  deriving DecidableEq

namespace Result

/-- A file of which nothing is known yet; one that compiles has yet to show it. -/
def pending (source : String) (compiles : Bool) : Result where
  source := source
  formatted := source
  fixApplied := false
  diagnostics := []
  staticOk := !compiles
  interactiveOk := !compiles

def add (ds : List Diagnostic) (r : Result) : Result :=
  { r with diagnostics := r.diagnostics ++ ds }

def errors (r : Result) : Nat := errorCount r.diagnostics

def isClean (r : Result) : Bool := r.errors == 0

def toJson (r : Result) : Json :=
  .ofFields [("original", .str r.source), ("formatted", .str r.formatted),
    ("fixApplied", .bool r.fixApplied),
    ("diagnostics", .arr (r.diagnostics.map Diagnostic.toJson)),
    ("staticModeOk", .bool r.staticOk), ("interactiveModeOk", .bool r.interactiveOk)]

def form : Json.Form := .record "ValidationResult" [
  { name := "original", form := .text },
  { name := "formatted", form := .text },
  { name := "fixApplied", form := .boolean },
  { name := "diagnostics", form := .list Diagnostic.form },
  { name := "staticModeOk", form := .boolean },
  { name := "interactiveModeOk", form := .boolean }]

def ofJson (j : Json) : Result where
  source := (j.stringField? "original").getD ""
  formatted := (j.stringField? "formatted").getD ""
  fixApplied := (j.boolField? "fixApplied").getD false
  diagnostics := (j.itemsField "diagnostics").map Diagnostic.ofJson
  staticOk := (j.boolField? "staticModeOk").getD false
  interactiveOk := (j.boolField? "interactiveModeOk").getD false

instance : Json.Coded Result := ⟨form, ofJson, toJson⟩

end Result

structure Config where
  /-- Whether all files are formatted together before they are looked at one by one. -/
  preFormat : Bool := true
  scanHazards : Bool := true
  deriving DecidableEq

namespace Config

def form : Json.Form := .record "ValidatorConfig" [
  { name := "pre_format", form := .boolean },
  { name := "scan_hazards", form := .boolean }]

def ofJson (j : Json) : Config where
  preFormat := (j.boolField? "pre_format").getD true
  scanHazards := (j.boolField? "scan_hazards").getD true

def toJson (c : Config) : Json :=
  .ofFields [("pre_format", .bool c.preFormat), ("scan_hazards", .bool c.scanHazards)]

instance : Json.Coded Config := ⟨form, ofJson, toJson⟩

end Config

end Mender.Validation
