import Mender.Module.Policy
import Mender.Module.Specifier

/-!
The modules that a preview is made of.

Host modules are loaded by the runner from its own installation; all others carry their code
in closed form. A module's links lead from the specifiers it requires to keys of the graph.
-/

namespace Mender.Module

inductive Origin | runtime | local | environment | stub
  deriving DecidableEq

namespace Origin

def all : List Origin := [.runtime, .local, .environment, .stub]

def name : Origin → String
  | .runtime => "runtime"
  | .local => "local"
  | .environment => "environment"
  | .stub => "stub"

/-- Whether the runner loads the module from its installation. -/
def isHost : Origin → Bool
  | .runtime | .environment => true
  | .local | .stub => false

instance : Json.Coded Origin := .ofNames all name .stub

end Origin

structure Node where
  origin : Origin
  code : Option String := none
  links : KeyMap String := ∅

namespace Node

/-- A module that the runner provides. -/
def host (o : Origin) : Node := { origin := o }

def withCode (o : Origin) (code : String) : Node := { origin := o, code := some code }

def toJson (n : Node) : Json :=
  .ofPresent [("origin", some (.str n.origin.name)), ("code", n.code.map .str),
    ("links", if n.links.entries.isEmpty then none else some (.ofMap .str n.links))]

def ofJson (j : Json) : Node where
  origin := j.codedField Origin "origin"
  code := j.stringField? "code"
  links := j.stringMapField "links"

def form : Json.Form := .record "ResolvedModule" [
  { name := "origin", form := Json.Coded.form Origin },
  { name := "code", form := .optional .text, absent := .default .null },
  { name := "links", form := .mapping .text, absent := .default (.obj []) }]

instance : Json.Coded Node := ⟨form, ofJson, toJson⟩

end Node

/-- The key of the module that a preview starts from. -/
def entryKey : String := "pw:entry"

structure Graph where
  entry : String
  modules : KeyMap Node
  props : KeyMap Json

namespace Graph

def toJson (g : Graph) : Json :=
  .ofFields [("entry", .str g.entry), ("modules", .ofMap Node.toJson g.modules),
    ("props", .ofMap id g.props)]

def ofJson (j : Json) : Graph where
  entry := (j.stringField? "entry").getD ""
  modules := .ofList ((j.entriesField "modules").map fun e => (e.1, Node.ofJson e.2))
  props := .ofList (j.entriesField "props")

def form : Json.Form := .record "ModuleGraph" [
  { name := "entry", form := .text },
  { name := "modules", form := .mapping Node.form },
  { name := "props", form := .mapping .anything }]

instance : Json.Coded Graph := ⟨form, ofJson, toJson⟩

end Graph

end Mender.Module
