import Mender.Component.Fallback
import Mender.Component.Props
import Mender.Component.Stubs
import Mender.Preview.Bundles
import Mender.Preview.Sandbox
import Mender.Repair.Loop

/-!
Previewing a component: it is compiled to live in a page and to be rendered once, the first
result is registered as a bundle, and the second is rendered in the sandbox.

When the sandbox cannot render it, the preview shows the source instead; only a module that
throws makes the preview fail. Results are kept for a while by a digest of the request.
-/

namespace Mender.Preview

open Mender.Tool

/-- The name of a component whose request gives none. -/
def defaultFilename : String := "Component.svelte"

structure Request where
  source : String
  /-- Modules of the project by their paths. -/
  dependencies : KeyMap String := ∅
  filename : Option String := none

namespace Request

def name (r : Request) : String := r.filename.getD defaultFilename

def form : Json.Form := .record "CompileRequest" [
  { name := "source", form := .text },
  { name := "dependencies", form := .mapping .text, absent := .default (.obj []) },
  { name := "filename", form := .optional .text, absent := .default .null }]

def ofJson (j : Json) : Request where
  source := (j.stringField? "source").getD ""
  dependencies := j.stringMapField "dependencies"
  filename := j.stringField? "filename"

def toJson (r : Request) : Json :=
  .ofFields [("source", .str r.source), ("dependencies", .ofMap .str r.dependencies),
    ("filename", .ofOption .str r.filename)]

/-- The parts of a request that its answer depends on, with a NUL between each two. -/
def material (r : Request) : List Char :=
  ['\x00'].intercalate (r.name.toList :: r.source.toList ::
    r.dependencies.entries.flatMap fun e => [e.1.toList, e.2.toList])

def digest (r : Request) : Digest := .ofBytes (utf8 r.material)

instance : Json.Coded Request := ⟨form, ofJson, toJson⟩

end Request

structure Output where
  html : String
  head : Option String
  /-- The interactive module. -/
  code : String
  stylesheet : Option String
  /-- The id of the module's bundle. -/
  id : String
  props : KeyMap Json
  stubs : List Component.Stub
  executed : Bool
  /-- Whether a repair changed the source. -/
  repaired : Bool

namespace Output

def toJson (o : Output) : Json :=
  .ofPresent [("html", some (.str o.html)), ("head", o.head.map .str),
    ("code", some (.str o.code)), ("stylesheet", some (.ofOption .str o.stylesheet)),
    ("id", some (.str o.id)), ("props", some (.ofMap (fun j => j) o.props)),
    ("stubs", some (.arr (o.stubs.map Component.Stub.toJson))),
    ("executed", some (.bool o.executed)), ("repaired", some (.bool o.repaired))]

def ofJson (j : Json) : Output where
  html := (j.stringField? "html").getD ""
  head := j.stringField? "head"
  code := (j.stringField? "code").getD ""
  stylesheet := j.stringField? "stylesheet"
  id := (j.stringField? "id").getD ""
  props := .ofList (j.entriesField "props")
  stubs := (j.itemsField "stubs").map Component.Stub.ofJson
  executed := (j.boolField? "executed").getD false
  repaired := (j.boolField? "repaired").getD false

def form : Json.Form := .record "CompileOutput" [
  { name := "html", form := .text },
  { name := "head", form := .optional .text, absent := .default .null },
  { name := "code", form := .text },
  { name := "stylesheet", form := .optional .text, absent := .default .null },
  { name := "id", form := .text },
  { name := "props", form := .mapping .anything },
  { name := "stubs", form := .list Component.Stub.form },
  { name := "executed", form := .boolean },
  { name := "repaired", form := .boolean }]

instance : Json.Coded Output := ⟨form, ofJson, toJson⟩

end Output

/-- Why there is no preview. -/
inductive Failure
  | invalidRequest (reason : String)
  | badSource (message : String) (line column : Option Nat)
  /-- The module threw when it was rendered. -/
  | evaluation (message : String)
  | compilerUnavailable (reason : String)
  deriving DecidableEq

namespace Failure

def message : Failure → String
  | .invalidRequest reason => "invalid compile request: " ++ reason
  | .badSource message _ _ => "syntax error: " ++ message
  | .evaluation message => "evaluation failed: " ++ message
  | .compilerUnavailable reason => "template compiler unavailable: " ++ reason

def kind : Failure → String
  | .invalidRequest _ => "InvalidRequest"
  | .badSource .. => "Syntax"
  | .evaluation _ => "Evaluation"
  | .compilerUnavailable _ => "CompilerUnavailable"

/-- The place in a bad source. -/
def placeFields : Failure → List (String × Json)
  | .badSource _ line column =>
    [("line", .ofOption .ofNat line), ("column", .ofOption .ofNat column)]
  | _ => []

def toJson (f : Failure) : Json :=
  .ofFields ([("error", .str f.kind), ("message", .str f.message)] ++ f.placeFields)

def ofTool : Tool.Fault → Failure
  | .rejected message line column => .badSource message line column
  | f => .compilerUnavailable f.message

end Failure

/-- The answer of a compiler to the `n`-th call. -/
abbrev Compiler := Nat → Mode → (file source : String) → Except Tool.Fault Compiled

structure Service where
  compiler : Compiler
  sandbox : Sandbox := .disabled
  /-- Where a source that does not compile is repaired, and by which loop. -/
  workshop : Option Mender.Repair.Workshop := none
  /-- Times are in nanoseconds. -/
  expiry : Expiry := ⟨300000000000, 60000000000⟩
  repairs : Bool := true
  executes : Bool := true

/-- What a service keeps between requests. -/
structure Holdings where
  results : Expiring Output := {}
  bundles : Bundles := {}
  breaker : Breaker := {}

/-- When a service looks at the clock for a preview: for a result that it keeps, to register the
module, and to keep the new result. -/
structure Moments where
  asked : Nat
  registered : Nat
  done : Nat

/-- A preview that takes no time. -/
def Moments.instant (now : Nat) : Moments := ⟨now, now, now⟩

/-- A compiled component: its source, which a repair may have changed, what was compiled, and
the interactive module. -/
structure Interactive where
  source : String
  prepared : Component.Prepared
  compiled : Compiled
  repaired : Bool

/-- What is shown, and whether the component was executed for it. -/
structure Picture where
  rendered : Rendered
  executed : Bool

namespace Interactive

/-- What the static module is rendered with. -/
def inputs (i : Interactive) (dependencies : KeyMap String) : Inputs where
  dependencies := dependencies
  stubs := i.prepared.modules
  props := Component.initialProps i.source

/-- The preview that is made of both modules and a picture. -/
def output (i : Interactive) (static : Compiled) (id : String) (p : Picture) : Output where
  html := p.rendered.html
  head := p.rendered.head
  code := i.compiled.code
  stylesheet := (static.css.or i.compiled.css).or p.rendered.css
  id := id
  props := Component.initialProps i.source
  stubs := i.prepared.stubs
  executed := p.executed
  repaired := i.repaired

end Interactive

namespace Service

def callCompiler (s : Service) (m : Mode) (file source : String) :
    Run (Except Tool.Fault Compiled) := do
  let n ← Session.note (.compile m file source)
  return s.compiler n m file source

/-- The repair of a source in one pass, which nothing is kept of. -/
def mendRequest (file source : String) : Mender.Repair.Request :=
  { filename := file, code := some source, maxPasses := some 1, allowCatalog := false }

/-- The source that a repair makes of one that the compiler rejects. -/
def mendSource (s : Service) (file source : String) : Run (Option String) := do
  match s.workshop with
  | none => return none
  | some w =>
    if !s.repairs then return none
    match ← Mender.Repair.repair w (mendRequest file source) with
    | .ok o => return if o.provenance = .aiRepair then some o.fixedCode else none
    | .error _ => return none

/-- Compiles a source after the references that nothing answers have been replaced. -/
def compilePrepared (s : Service) (file source : String) (dependencies : KeyMap String) :
    Run (Component.Prepared × Except Tool.Fault Compiled) := do
  let p := Component.prepare source dependencies
  return (p, ← s.callCompiler .interactive file p.source)

/-- The interactive module. A source that the compiler rejects is repaired once. -/
def interactive (s : Service) (file : String) (r : Request) :
    Run (Except Failure Interactive) := do
  match ← s.compilePrepared file r.source r.dependencies with
  | (p, .ok c) => return .ok ⟨r.source, p, c, false⟩
  | (_, .error (.rejected message line column)) =>
    match ← s.mendSource file r.source with
    | none => return .error (.badSource message line column)
    | some fixed =>
      match ← s.compilePrepared file fixed r.dependencies with
      | (p, .ok c) => return .ok ⟨fixed, p, c, true⟩
      | (_, .error f) => return .error (.ofTool f)
  | (_, .error f) => return .error (.ofTool f)

/-- The interactive module and the static one. -/
def modules (s : Service) (r : Request) : Run (Except Failure (Interactive × Compiled)) := do
  match ← s.interactive r.name r with
  | .error e => return .error e
  | .ok i =>
    match ← s.callCompiler .static r.name i.prepared.source with
    | .error f => return .error (.ofTool f)
    | .ok static => return .ok (i, static)

/-- Dependencies are compiled like the static module. -/
def compileDependency (s : Service) : LocalCompiler := fun path source => do
  match ← s.callCompiler .static path source with
  | .ok c => return .ok c.code
  | .error f => return .error (.ofTool f)

def sourceShown (source reason : String) : Picture :=
  ⟨{ html := Component.fallback source reason }, false⟩

/-- Renders the static module; only one that throws fails. -/
def picture (s : Service) (code source : String) (inputs : Inputs) (b : Breaker) :
    Run (Except Failure Picture × Breaker) := do
  if !s.executes then return (.ok (sourceShown source "execution disabled"), b)
  match ← s.sandbox.render s.compileDependency code inputs b with
  | (.ok m, b) => return (.ok ⟨m, true⟩, b)
  | (.error (.evaluation message), b) => return (.error (.evaluation message), b)
  | (.error f, b) =>
    Session.count fun m => { m with sandboxFallbacks := m.sandboxFallbacks + 1 }
    return (.ok (sourceShown source f.message), b)

/-- A preview that is not kept yet. -/
def makePreview (s : Service) (m : Moments) (r : Request) (h : Holdings) :
    Run (Except Failure Output × Holdings) := do
  match ← s.modules r with
  | .error e => return (.error e, h)
  | .ok (i, static) =>
    let (id, bundles) ← Bundles.register s.expiry i.compiled.code m.registered h.bundles
    let (result, breaker) ← s.picture static.code i.source (i.inputs r.dependencies) h.breaker
    let h := { h with bundles, breaker }
    match result with
    | .error e => return (.error e, h)
    | .ok p =>
      let o := i.output static id p
      return (.ok o, { h with results := h.results.insert s.expiry r.digest.hex o m.done })

/-- Previews a component. -/
def compileAt (s : Service) (m : Moments) (r : Request) (h : Holdings) :
    Run (Except Failure Output × Holdings) := do
  if Reply.blank r.source then return (.error (.invalidRequest "source is required"), h)
  match h.results.get s.expiry r.digest.hex m.asked with
  | (some o, results) =>
    let (_, bundles) ← Bundles.register s.expiry o.code m.registered h.bundles
    return (.ok o, { h with results, bundles })
  | (none, results) => s.makePreview m r { h with results }

/-- Previews a component at a point in time. -/
def compile (s : Service) (now : Nat) (r : Request) (h : Holdings) :
    Run (Except Failure Output × Holdings) := s.compileAt (.instant now) r h

/-- The module of a bundle. -/
def bundle (s : Service) (now : Nat) (id : String) (h : Holdings) :
    Run (Option Bundle × Holdings) := do
  let (b, bundles) ← Bundles.get s.expiry id now h.bundles
  return (b, { h with bundles })

end Service

namespace Holdings

/-- Without results and bundles. -/
def reset (h : Holdings) : Holdings := { h with results := {}, bundles := {} }

/-- Without bundles. -/
def resetBundles (h : Holdings) : Holdings := { h with bundles := h.bundles.reset }

end Holdings

end Mender.Preview
