import Mender.Number.Word
import Mender.Preview.Walk

/-!
Executing a module under controls: a limit of time, further attempts after a fault of the
runner, and a breaker that stays open after too many faults in a row.

A module that throws shows that the runner works, so it closes the breaker. Counts and delays
are machine words.
-/

namespace Mender.Preview

open Mender.Module

/-! ### The breaker -/

/-- The number of faults since the last success. -/
structure Breaker where
  failures : UInt32 := 0
  deriving DecidableEq

namespace Breaker

def isOpen (threshold : UInt32) (b : Breaker) : Bool := threshold ≤ b.failures

def fail (b : Breaker) : Breaker := ⟨b.failures + 1⟩

def succeed (_ : Breaker) : Breaker := ⟨0⟩

end Breaker

/-! ### Controls -/

/-- Times are in milliseconds. -/
structure Controls where
  timeout : UInt64 := 5000
  retries : UInt32 := 1
  backoff : UInt64 := 100
  threshold : UInt32 := 3
  deriving DecidableEq

namespace Controls

/-- The number of attempts. -/
def attempts (c : Controls) : UInt32 := c.retries + 1

/-- The wait after the `n`-th attempt. -/
def delay (c : Controls) (n : Nat) : UInt64 := c.backoff * UInt64.ofNat (Nat.pow 2 (n - 1))

def toJson (c : Controls) : Json :=
  .ofFields [("timeout_ms", .ofNat c.timeout.toNat), ("max_retries", .ofNat c.retries.toNat),
    ("backoff_base_ms", .ofNat c.backoff.toNat),
    ("breaker_threshold", .ofNat c.threshold.toNat)]

def word64 : Json.Form := .natural "u64" Word.greatest64

def form : Json.Form := .record "SandboxConfig" [
  { name := "timeout_ms", form := word64 },
  { name := "max_retries", form := Diagnostic.word32 },
  { name := "backoff_base_ms", form := word64 },
  { name := "breaker_threshold", form := Diagnostic.word32 }]

def ofJson (j : Json) : Controls where
  timeout := UInt64.ofNat ((j.natField? "timeout_ms").getD 0)
  retries := UInt32.ofNat ((j.natField? "max_retries").getD 0)
  backoff := UInt64.ofNat ((j.natField? "backoff_base_ms").getD 0)
  threshold := UInt32.ofNat ((j.natField? "breaker_threshold").getD 0)

instance : Json.Coded Controls := ⟨form, ofJson, toJson⟩

end Controls

/-- What the runner rendered. -/
structure Rendered where
  html : String
  css : Option String := none
  head : Option String := none
  deriving DecidableEq

namespace Rendered

def form : Json.Form := .record "RenderedMarkup" [
  { name := "html", form := .text },
  { name := "css", form := .optional .text, absent := .default .null },
  { name := "head", form := .optional .text, absent := .default .null }]

def ofJson (j : Json) : Rendered :=
  ⟨(j.stringField? "html").getD "", j.stringField? "css", j.stringField? "head"⟩

def toJson (m : Rendered) : Json :=
  .ofFields [("html", .str m.html), ("css", .ofOption .str m.css), ("head", .ofOption .str m.head)]

instance : Json.Coded Rendered := ⟨form, ofJson, toJson⟩

end Rendered

/-- How long a call of the runner takes, and how it ends. -/
structure Timed where
  duration : Nat := 0
  result : Except Fault Rendered

/-- The answer of a runner to the `n`-th call. -/
abbrev Runner := Nat → Graph → Timed

/-! ### Execution -/

/-- One call of the runner, cut off at the limit. -/
def attemptRun (c : Controls) (runner : Runner) (g : Graph) : Run (Except Fault Rendered) := do
  let n ← Session.note (.run g)
  let t := runner n g
  if t.duration ≤ c.timeout.toNat then
    Session.pass t.duration
    return t.result
  else
    Session.pass c.timeout.toNat
    return .error (.timedOut c.timeout.toNat)

/-- Whether another attempt may help. -/
def isRunnerFault : Fault → Bool
  | .execution .. | .inputOutput _ => true
  | _ => false

/-- The attempts that are left, the next one being the `n`-th. -/
def attemptFrom (c : Controls) (runner : Runner) (g : Graph) :
    (left n : Nat) → (lastReason : String) → Breaker → Run (Except Fault Rendered × Breaker)
  | 0, _, last, b => return (.error (.execution c.attempts.toNat last), b)
  | left + 1, n, _, b => do
    if b.isOpen c.threshold then
      return (.error (.breakerOpen b.failures.toNat c.threshold.toNat), b)
    match ← attemptRun c runner g with
    | .ok m => return (.ok m, b.succeed)
    | .error (.evaluation message) => return (.error (.evaluation message), b.succeed)
    | .error f =>
      if isRunnerFault f then
        unless left = 0 do Session.pass (c.delay n).toNat
        attemptFrom c runner g left (n + 1) f.message b.fail
      else return (.error f, b.fail)

def execute (c : Controls) (runner : Runner) (g : Graph) (b : Breaker) :
    Run (Except Fault Rendered × Breaker) :=
  attemptFrom c runner g c.attempts.toNat 1 "" b

/-! ### The sandbox -/

structure Sandbox where
  runner : Option Runner
  controls : Controls := {}
  policy : Policy := .standard

/-- The modules that an entry may require, and the props that it is rendered with. -/
structure Inputs where
  dependencies : KeyMap String := ∅
  stubs : KeyMap String := ∅
  props : KeyMap Json := ∅

namespace Sandbox

/-- A sandbox that executes nothing. -/
def disabled : Sandbox := { runner := none }

def isEnabled (s : Sandbox) : Bool := s.runner.isSome

/-- The graph of an entry, unless it has a hazard or cannot be closed. -/
def graphOf (s : Sandbox) (compile : LocalCompiler) (code : String) (inputs : Inputs) :
    Run (Except Fault Graph) := do
  match refuseHazards code with
  | .error e => return .error e
  | .ok _ =>
    match close code with
    | .error e => return .error (.notClosed e.message)
    | .ok entry =>
      buildGraph compile (.of s.policy inputs.dependencies inputs.stubs) entry inputs.props

/-- Renders the module `code`. -/
def render (s : Sandbox) (compile : LocalCompiler) (code : String) (inputs : Inputs) (b : Breaker) :
    Run (Except Fault Rendered × Breaker) := do
  match s.runner with
  | none => return (.error (.unavailable "no module runner configured"), b)
  | some runner =>
    match ← s.graphOf compile code inputs with
    | .error e => return (.error e, b)
    | .ok g => execute s.controls runner g b

end Sandbox

end Mender.Preview
