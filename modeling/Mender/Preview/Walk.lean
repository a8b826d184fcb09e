import Mender.Hazard
import Mender.Module.Closed
import Mender.Preview.Fault
import Mender.Session
import Mender.SourceFile

/-!
Finding the modules that a preview needs, from its entry on.

Each required specifier leads to a module of the runtime, to a dependency, to a package that
the policy allows, or to a stand-in; the first of these that applies is taken. A dependency
is compiled when it is first reached, and not again.
-/

namespace Mender.Preview

open Mender.Module

/-- A way to compile a dependency from its path and its source. -/
abbrev LocalCompiler := String → String → Run (Except Fault String)

/-- What specifiers are looked up in. Dependencies have their normal keys. -/
structure Scope where
  policy : Policy
  dependencies : KeyMap String
  stubs : KeyMap String

/-- Of dependencies with one key the last counts. -/
def Scope.of (policy : Policy) (dependencies stubs : KeyMap String) : Scope where
  policy := policy
  dependencies := .ofList (dependencies.entries.map fun e => (normalize "" e.1, e.2))
  stubs := stubs

structure Target where
  origin : Module.Origin
  key : String
  deriving DecidableEq

/-- Where a specifier leads from a module of the directory `dir`. -/
def locate (s : Scope) (dir specifier : String) : Target :=
  if s.policy.isRuntime specifier then ⟨.runtime, specifier⟩
  else if isStub specifier then ⟨.stub, specifier⟩
  else if isLocal specifier then
    let key := normalize dir specifier
    match (candidates key).find? s.dependencies.contains with
    | some k => ⟨.local, k⟩
    | none => ⟨.stub, key⟩
  else match s.policy.evaluate specifier with
    | .allowed => ⟨.environment, specifier⟩
    | .denied _ => ⟨.stub, specifier⟩

/-- The text without the ending, however often it is repeated. -/
def withoutEnding (ending : List Char) : (fuel : Nat) → List Char → List Char
  | 0, t => t
  | n + 1, t =>
    match Text.after? ending.reverse t.reverse with
    | some r => withoutEnding ending n r.reverse
    | none => t

/-- The name that a missing component is shown under. -/
def componentName (key : String) : String :=
  let t := fileName key.toList
  String.ofList (withoutEnding ".svelte".toList t.length t)

def stubFor (s : Scope) (key : String) : String :=
  match s.stubs.get? key with
  | some code => code
  | none =>
    if isComponentPath key then componentStub (placeholder (componentName key)) else inertStub

/-- Refuses a text with a hazard in it. -/
def refuseHazards (code : String) : Except Fault Unit :=
  match Hazard.scan code.toList with
  | h :: _ => .error (.hazard h.kind.name h.line)
  | [] => .ok ()

/-- The closed form of a module's text; nothing when it has none. -/
def closeDependency (code : String) : Except Fault (Option Closed) :=
  match refuseHazards code with
  | .error e => .error e
  | .ok _ => .ok (close code).toOption

/-- The text of a dependency, compiled if it is a component; nothing when there is none. -/
def dependencyText (compile : LocalCompiler) (s : Scope) (key : String) : Run (Option String) := do
  match s.dependencies.get? key with
  | none => return none
  | some source =>
    if isComponentPath key then return (← compile key source).toOption else return some source

/-- Compiles and closes a dependency; nothing when a stand-in has to do. A hazard is refused. -/
def materialize (compile : LocalCompiler) (s : Scope) (key : String) :
    Run (Except Fault (Option Closed)) := do
  match ← dependencyText compile s key with
  | none => return .ok none
  | some text => return closeDependency text

/-- The modules found so far, the keys met so far, and the modules whose imports are still
to be followed. -/
structure Walk where
  modules : KeyMap Node := ∅
  seen : List String := []
  pending : List (String × Closed) := []

namespace Walk

def start (entry : Closed) : Walk := { seen := [entryKey], pending := [(entryKey, entry)] }

/-- Meets a key and places its module. -/
def add (w : Walk) (key : String) (n : Node) : Walk :=
  { w with modules := w.modules.insert key n, seen := key :: w.seen }

/-- Meets a key whose module has imports to follow. -/
def enqueue (w : Walk) (key : String) (c : Closed) : Walk :=
  { w with seen := key :: w.seen, pending := w.pending ++ [(key, c)] }

/-- Places a module whose imports have been followed. -/
def finish (w : Walk) (key : String) (n : Node) : Walk :=
  { w with modules := w.modules.insert key n }

end Walk

def standIn (s : Scope) (key : String) : Node := .withCode .stub (stubFor s key)

/-- Follows one import of a module in the directory `dir`. -/
def follow (compile : LocalCompiler) (s : Scope) (dir : String) (w : Walk) (specifier : String) :
    Run (Except Fault Walk) := do
  let t := locate s dir specifier
  if w.seen.contains t.key then return .ok w
  match t.origin with
  | .runtime | .environment => return .ok (w.add t.key (.host t.origin))
  | .stub => return .ok (w.add t.key (standIn s t.key))
  | .local =>
    match ← materialize compile s t.key with
    | .error e => return .error e
    | .ok (some closed) => return .ok (w.enqueue t.key closed)
    | .ok none => return .ok (w.add t.key (standIn s t.key))

def followAll (compile : LocalCompiler) (s : Scope) (dir : String) :
    Walk → List String → Run (Except Fault Walk)
  | w, [] => return .ok w
  | w, i :: is => do
    match ← follow compile s dir w i with
    | .error e => return .error e
    | .ok w => followAll compile s dir w is

/-- Where a module's specifiers lead. -/
def linksOf (s : Scope) (dir : String) (c : Closed) : KeyMap String :=
  .ofList (c.imports.map fun i => (i, (locate s dir i).key))

/-- The directory that a module's imports are relative to. -/
def directoryOf (key : String) : String := if key = entryKey then "" else directory key

def nodeOf (s : Scope) (key : String) (c : Closed) : Node :=
  { origin := .local, code := some c.code, links := linksOf s (directoryOf key) c }

/-- Follows the imports of the pending modules. A dependency is pending once at most, so one
step for each and one for the entry are enough. -/
def walk (compile : LocalCompiler) (s : Scope) : (steps : Nat) → Walk → Run (Except Fault Walk)
  | 0, w => return .ok w
  | n + 1, w =>
    match w.pending with
    | [] => return .ok w
    | (key, c) :: rest => do
      match ← followAll compile s (directoryOf key) { w with pending := rest } c.imports with
      | .error e => return .error e
      | .ok w => walk compile s n (w.finish key (nodeOf s key c))

def buildGraph (compile : LocalCompiler) (s : Scope) (entry : Closed) (props : KeyMap Json) :
    Run (Except Fault Graph) := do
  match ← walk compile s (s.dependencies.size + 1) (.start entry) with
  | .error e => return .error e
  | .ok w => return .ok { entry := entryKey, modules := w.modules, props }

end Mender.Preview
