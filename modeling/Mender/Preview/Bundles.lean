import Mender.Digest
import Mender.Preview.Expiring
import Mender.Session

/-!
The interactive modules that can be fetched by their digests for a while.
-/

namespace Mender.Preview

structure Bundle where
  id : String
  code : String
  deriving DecidableEq

abbrev Bundles := Expiring Bundle

namespace Bundles

def idOf (code : String) : String := (Digest.ofText code).hex

/-- A sweep whose removals are counted. -/
def sweep (e : Expiry) (now : Nat) (b : Bundles) : Run (Option Nat × Bundles) := do
  let (removed, b) := Expiring.sweep e now b
  Session.count fun m => { m with bundlesExpired := m.bundlesExpired + removed.getD 0 }
  return (removed, b)

/-- Registers a module; the same text has the same id. -/
def register (e : Expiry) (code : String) (now : Nat) (b : Bundles) : Run (String × Bundles) := do
  let id := idOf code
  let (_, b) ← sweep e now b
  Session.count fun m => { m with bundlesRegistered := m.bundlesRegistered + 1 }
  return (id, Expiring.insert e id ⟨id, code⟩ now b)

def get (e : Expiry) (id : String) (now : Nat) (b : Bundles) : Run (Option Bundle × Bundles) := do
  let (_, b) ← sweep e now b
  return Expiring.get e id now b

end Bundles

end Mender.Preview
