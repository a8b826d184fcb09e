import Mender.Json.Form
import Mender.Text.Blank
import Mender.Text.Search

/-!
Which packages a previewed module may load.

Packages of the runtime are always allowed. Of the others the first rule that covers a
specifier decides, and what no rule covers is denied.
-/

namespace Mender.Module

open Mender.Text

/-- Whether a specifier is a package or a path in it. -/
def covers (package specifier : String) : Bool :=
  match after? package.toList specifier.toList with
  | some [] => true
  | some (c :: _) => c == '/'
  | none => false

inductive Rule
  | allow (package : String)
  | deny (package : String) (reason : String)
  deriving DecidableEq

inductive Verdict
  | allowed
  | denied (reason : String)
  deriving DecidableEq

namespace Rule

def package : Rule → String
  | .allow p => p
  | .deny p _ => p

def isAbout (r : Rule) (specifier : String) : Bool := covers r.package specifier

def verdict : Rule → Verdict
  | .allow _ => .allowed
  | .deny _ reason => .denied reason

def toJson : Rule → Json
  | .allow p => .ofFields [("type", .str "allow"), ("package", .str p)]
  | .deny p reason =>
    .ofFields [("type", .str "deny"), ("package", .str p), ("reason", .str reason)]

def ofJson (j : Json) : Rule :=
  let p := (j.stringField? "package").getD ""
  if j.stringField? "type" = some "deny" then .deny p ((j.stringField? "reason").getD "")
  else .allow p

def form : Json.Form := .tagged "ResolverRule" "type" [
  ⟨"allow", [{ name := "package", form := .text }]⟩,
  ⟨"deny", [{ name := "package", form := .text }, { name := "reason", form := .text }]⟩]

instance : Json.Coded Rule := ⟨form, ofJson, toJson⟩

end Rule

namespace Verdict

def isAllowed (v : Verdict) : Bool := v == .allowed

def toJson : Verdict → Json
  | .allowed => .str "allowed"
  | .denied reason => .ofFields [("denied", .ofFields [("reason", .str reason)])]

end Verdict

structure Policy where
  runtime : List String
  rules : List Rule
  deriving DecidableEq

namespace Policy

/-- Everything is denied. -/
def empty : Policy := ⟨[], []⟩

/-- Only the component framework is allowed. -/
def standard : Policy := ⟨["svelte"], []⟩

def isRuntime (p : Policy) (specifier : String) : Bool := p.runtime.any fun k => covers k specifier

/-- What is said of a specifier that no rule covers. -/
def noRule (specifier : String) : String := "no resolver rule allows `" ++ specifier ++ "`"

def evaluate (p : Policy) (specifier : String) : Verdict :=
  if p.isRuntime specifier then .allowed
  else match p.rules.find? (·.isAbout specifier) with
    | some r => r.verdict
    | none => .denied (noRule specifier)

/-- Allows the packages of a list with commas between them. -/
def allowingList (p : Policy) (list : String) : Policy :=
  let names := ((splitWhen (· == ',') list.toList).map trim).filter fun n => !n.isEmpty
  { p with rules := p.rules ++ names.map fun n => .allow (String.ofList n) }

def toJson (p : Policy) : Json :=
  .ofFields [("runtime", .ofStrings p.runtime), ("rules", .arr (p.rules.map Rule.toJson))]

def ofJson (j : Json) : Policy := ⟨j.stringsField "runtime", (j.itemsField "rules").map Rule.ofJson⟩

def form : Json.Form := .record "ResolverPolicy" [
  { name := "runtime", form := .list .text },
  { name := "rules", form := .list Rule.form }]

instance : Json.Coded Policy := ⟨form, ofJson, toJson⟩

end Policy

end Mender.Module
