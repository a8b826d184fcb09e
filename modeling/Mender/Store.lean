import Mender.Digest

/-!
What is kept of projects: the last content of each file, the memory of its repairs, and a
record of each finished repair.
-/

namespace Mender

/-- How many entries of a file's memory are kept. -/
def memoryLimit : Nat := 12

/-- The newest entries, as many as are kept. -/
def bound (entries : List String) : List String := entries.drop (entries.length - memoryLimit)

inductive StoreFault
  | connection (reason : String)
  | schema (reason : String)
  | backend (reason : String)
  | serialization (reason : String)
  deriving DecidableEq

def StoreFault.message : StoreFault → String
  | .connection reason => "database connection failed: " ++ reason
  | .schema reason => "schema setup failed: " ++ reason
  | .backend reason => "storage backend error: " ++ reason
  | .serialization reason => "serialization failed: " ++ reason

/-- A file of a project. -/
structure FileKey where
  project : String
  file : String
  deriving DecidableEq

structure FileRecord where
  key : FileKey
  content : String
  deriving DecidableEq

namespace FileRecord

def digest (r : FileRecord) : Digest := .ofText r.content

def toJson (r : FileRecord) : Json :=
  .ofFields [("project", .str r.key.project), ("file", .str r.key.file),
    ("content", .str r.content), ("digest", .str r.digest.hex)]

end FileRecord

/-- A finished repair; its time is in seconds. -/
structure Audit where
  key : FileKey
  passes : Nat
  errors : Nat
  provenance : String
  time : Int := 0
  deriving DecidableEq

def Audit.toJson (a : Audit) : Json :=
  .ofFields [("project", .str a.key.project), ("file", .str a.key.file),
    ("passes", .ofNat a.passes), ("errors", .ofNat a.errors), ("provenance", .str a.provenance),
    ("at", .int a.time)]

/-- The first entry that a key has. -/
def valueAt {α : Type} (k : FileKey) (entries : List (FileKey × α)) : Option α :=
  (entries.find? fun e => e.1 == k).map (·.2)

structure Store where
  files : List (FileKey × String) := []
  memories : List (FileKey × List String) := []
  audits : List Audit := []

namespace Store

def putFile (k : FileKey) (content : String) (s : Store) : Store :=
  { s with files := (k, content) :: s.files }

def file? (k : FileKey) (s : Store) : Option FileRecord :=
  (valueAt k s.files).map fun c => ⟨k, c⟩

def putMemory (k : FileKey) (entries : List String) (s : Store) : Store :=
  { s with memories := (k, bound entries) :: s.memories }

def memory (k : FileKey) (s : Store) : List String := (valueAt k s.memories).getD []

def addAudit (a : Audit) (s : Store) : Store := { s with audits := s.audits ++ [a] }

/-- The records of a file, in the order in which they were added. -/
def auditsOf (k : FileKey) (s : Store) : List Audit := s.audits.filter fun a => a.key == k

/-- The records of a file, the oldest first. -/
def auditsByTime (k : FileKey) (s : Store) : List Audit :=
  (s.auditsOf k).mergeSort fun a b => a.time ≤ b.time

end Store

end Mender
