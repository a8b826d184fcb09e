import Mender.Diagnostic
import Mender.Text.Lines
import Mender.Text.Pattern

/-!
Hazards: uses of interfaces that a previewed component must not touch.

A module is searched line by line, and each hazard is reported once for each line it is
found on.
-/

namespace Mender

open Mender.Text

inductive HazardKind
  | eval | newFunction | documentCookie | webStorage | processEnv | require | childProcess
  | xmlHttpRequest | importScripts
  deriving DecidableEq

namespace HazardKind

def all : List HazardKind :=
  [.eval, .newFunction, .documentCookie, .webStorage, .processEnv, .require, .childProcess,
    .xmlHttpRequest, .importScripts]

def name : HazardKind → String
  | .eval => "eval"
  | .newFunction => "new Function"
  | .documentCookie => "document.cookie"
  | .webStorage => "web storage"
  | .processEnv => "process.env"
  | .require => "require"
  | .childProcess => "child_process"
  | .xmlHttpRequest => "XMLHttpRequest"
  | .importScripts => "importScripts"

/-- A whole word. -/
def word (s : String) : Pattern := .edge :: Pattern.literal s ++ [.edge]

/-- A call of a function. -/
def call (s : String) : Pattern := .edge :: Pattern.literal s ++ [.blanks, .char '(']

/-- A property of an object, as whole words. -/
def property (object name : String) : Pattern :=
  .edge :: Pattern.literal object ++ [.blanks, .char '.', .blanks] ++ Pattern.literal name ++
    [.edge]

/-- The patterns of a hazard, any of which is enough. -/
def patterns : HazardKind → List Pattern
  | .eval => [call "eval"]
  | .newFunction =>
    [.edge :: Pattern.literal "new" ++ .someBlanks :: Pattern.literal "Function" ++ [.edge]]
  | .documentCookie => [property "document" "cookie"]
  | .webStorage => [word "localStorage", word "sessionStorage"]
  | .processEnv => [property "process" "env"]
  | .require => [call "require"]
  | .childProcess => [word "child_process"]
  | .xmlHttpRequest => [word "XMLHttpRequest"]
  | .importScripts => [word "importScripts"]

def isIn (k : HazardKind) (t : List Char) : Bool := k.patterns.any fun p => p.isIn t

end HazardKind

structure Hazard where
  kind : HazardKind
  /-- Lines count from one. -/
  line : Nat
  deriving DecidableEq

namespace Hazard

def onLine (line : List Char) (n : Nat) : List Hazard :=
  (HazardKind.all.filter (·.isIn line)).map (⟨·, n⟩)

def scan (source : List Char) : List Hazard :=
  ((lines source).zipIdx 1).flatMap fun p => onLine p.1 p.2

/-- The name of the rule that a hazard breaks. -/
def rule (h : Hazard) : String :=
  "hazard/" ++ String.ofList (h.kind.name.toList.map fun c => if c = ' ' then '-' else c)

def diagnostic (h : Hazard) : Diagnostic where
  severity := .warning
  origin := .structural
  message := s!"use of {h.kind.name} is not allowed in previewed components"
  line := some h.line
  rule := some h.rule
  phase := some .structural

def diagnostics (source : List Char) : List Diagnostic := (scan source).map diagnostic

end Hazard

end Mender
