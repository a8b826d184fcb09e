import Mender.Tool.Basic

/-!
The linter and the formatter are started on their first use, once.

A failed start is kept as well: it is reported again until the toolchain is reset.
-/

namespace Mender.Tool

structure Toolchain where
  /-- How the last start ended; nothing before the first one and after a reset. -/
  started : Option (Except String Unit) := none
  attempts : Nat := 0

namespace Toolchain

/-- The toolchain after its first use since a reset; the `n`-th start ends as `start n`. -/
def ensure (start : Nat → Except Fault Unit) (t : Toolchain) : Toolchain :=
  match t.started with
  | some _ => t
  | none =>
    { started := some ((start (t.attempts + 1)).mapError Fault.message)
      attempts := t.attempts + 1 }

/-- Why the tools cannot be used, if they cannot. -/
def fault? (t : Toolchain) : Option Fault :=
  match t.started with
  | some (.ok _) => none
  | some (.error reason) => some (.unavailable "toolchain" reason)
  | none => some (.unavailable "toolchain" "not initialised")

def reset (t : Toolchain) : Toolchain := { t with started := none }

end Toolchain

end Mender.Tool
