import Mender.Json.Basic

/-!
Counters of what a run did.
-/

namespace Mender

structure Metrics where
  repairsStarted : Nat := 0
  patchCalls : Nat := 0
  patchesApplied : Nat := 0
  catalogSubstitutions : Nat := 0
  bundlesRegistered : Nat := 0
  bundlesExpired : Nat := 0
  extractionFailures : Nat := 0
  sandboxFallbacks : Nat := 0
  deriving DecidableEq

namespace Metrics

def toJson (m : Metrics) : Json :=
  .ofFields [("repairs_started", .ofNat m.repairsStarted), ("patch_calls", .ofNat m.patchCalls),
    ("patches_applied", .ofNat m.patchesApplied),
    ("catalog_substitutions", .ofNat m.catalogSubstitutions),
    ("bundles_registered", .ofNat m.bundlesRegistered),
    ("bundles_expired", .ofNat m.bundlesExpired),
    ("extraction_failures", .ofNat m.extractionFailures),
    ("sandbox_fallbacks", .ofNat m.sandboxFallbacks)]

end Metrics

end Mender
