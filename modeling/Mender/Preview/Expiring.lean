import Mender.KeyMap

/-!
Values that expire.

A value older than its time to live is not given out any more. It is removed by a sweep; one
comes with every access, unless the last one was less than the sweep interval ago. Times only
need to be of one unit; a time before another one counts as equal to it.
-/

namespace Mender.Preview

structure Expiry where
  ttl : Nat
  interval : Nat
  deriving DecidableEq

structure Slot (α : Type) where
  value : α
  time : Nat

structure Expiring (α : Type) where
  slots : KeyMap (Slot α) := ∅
  lastSweep : Option Nat := none

namespace Expiring

variable {α : Type}

def Slot.isAlive (e : Expiry) (now : Nat) (s : Slot α) : Bool := now - s.time ≤ e.ttl

/-- Whether a sweep at `now` would come too soon. -/
def isThrottled (e : Expiry) (now : Nat) (c : Expiring α) : Bool :=
  c.lastSweep.any fun last => now - last < e.interval

def size (c : Expiring α) : Nat := c.slots.size

/-- Removes what has expired. -/
def prune (e : Expiry) (now : Nat) (m : KeyMap (Slot α)) : KeyMap (Slot α) :=
  m.filter fun s => Slot.isAlive e now s

/-- A sweep with the number of values that it removed; a sweep too soon does nothing. -/
def sweep (e : Expiry) (now : Nat) (c : Expiring α) : Option Nat × Expiring α :=
  if c.isThrottled e now then (none, c)
  else
    let kept := prune e now c.slots
    (some (c.slots.size - kept.size), ⟨kept, some now⟩)

def swept (e : Expiry) (now : Nat) (c : Expiring α) : Expiring α := (c.sweep e now).2

/-- Puts a value, whose age starts anew. -/
def insert (e : Expiry) (key : String) (value : α) (now : Nat) (c : Expiring α) : Expiring α :=
  let c := c.swept e now
  { c with slots := c.slots.insert key ⟨value, now⟩ }

/-- The value of a key, unless it has expired. -/
def get (e : Expiry) (key : String) (now : Nat) (c : Expiring α) : Option α × Expiring α :=
  let c := c.swept e now
  (((c.slots.get? key).filter fun s => Slot.isAlive e now s).map (·.value), c)

/-- Drops everything and forgets the last sweep. -/
def reset (_ : Expiring α) : Expiring α := {}

end Expiring

end Mender.Preview
