import Mender.Tool.Basic

/-!
Why a module is not executed, or what went wrong when it was.
-/

namespace Mender.Preview

inductive Fault
  | denied (specifier reason : String)
  | timedOut (limit : Nat)
  /-- The module ran and threw. -/
  | evaluation (message : String)
  /-- The runner misbehaved. -/
  | execution (attempts : Nat) (reason : String)
  | unavailable (reason : String)
  | breakerOpen (failures threshold : Nat)
  | hazard (pattern : String) (line : Nat)
  /-- The module cannot be brought into closed form. -/
  | notClosed (message : String)
  | invalidConfig (message : String)
  | inputOutput (message : String)
  deriving DecidableEq

namespace Fault

def message : Fault → String
  | .denied specifier reason => "module `" ++ specifier ++ "` denied: " ++ reason
  | .timedOut limit => s!"module execution timed out after {limit}ms"
  | .evaluation message => "module evaluation failed: " ++ message
  | .execution attempts reason => s!"runner failed after {attempts} attempt(s): {reason}"
  | .unavailable reason => "runner unavailable: " ++ reason
  | .breakerOpen failures threshold =>
    s!"circuit breaker open: {failures} consecutive failures (threshold {threshold})"
  | .hazard pattern line =>
    "execution refused: module uses `" ++ pattern ++ s!"` (line {line})"
  | .notClosed message => "module rewrite failed: " ++ message
  | .invalidConfig message => "invalid sandbox configuration: " ++ message
  | .inputOutput message => "io error: " ++ message

def kind : Fault → String
  | .denied .. => "PolicyDenied"
  | .timedOut _ => "Timeout"
  | .evaluation _ => "Evaluation"
  | .execution .. => "ExecutionFailed"
  | .unavailable _ => "RunnerUnavailable"
  | .breakerOpen .. => "CircuitBreakerOpen"
  | .hazard .. => "HazardRefused"
  | .notClosed _ => "Rewrite"
  | .invalidConfig _ => "InvalidConfig"
  | .inputOutput _ => "Io"

def toJson (f : Fault) : Json := .ofFields [("error", .str f.kind), ("message", .str f.message)]

/-- Whether a preview falls back on the source; a module that threw is reported instead. -/
def isDegraded : Fault → Bool
  | .evaluation _ => false
  | _ => true

def ofTool : Tool.Fault → Fault
  | .unavailable _ reason => .unavailable reason
  | .timedOut _ limit => .timedOut limit
  | .rejected message _ _ => .evaluation message
  | .protocol _ reason => .execution 1 reason
  | .http message => .execution 1 message
  | .inputOutput message => .inputOutput message

end Fault

end Mender.Preview
