import Mender.Json.Form
import Mender.Store
import Mender.Text.Blank

/-!
The memory of a file's repairs: short notes on what was mended, the newest last.
-/

namespace Mender.Repair

open Mender.Text

/-- How many characters of a note are kept. -/
def noteLimit : Nat := 240

structure Memory where
  entries : List String
  deriving DecidableEq

namespace Memory

def ofList (entries : List String) : Memory := ⟨bound entries⟩

/-- Adds an entry. The oldest one makes room for it if there are too many then. -/
def push (entry : String) (m : Memory) : Memory :=
  let es := m.entries ++ [entry]
  ⟨if memoryLimit < es.length then es.tail else es⟩

/-- Adds a note with its blanks collapsed. A blank note adds nothing, nor does one that
repeats the newest. -/
def remember (note : String) (m : Memory) : Memory :=
  let n := collapse note.toList
  if n.isEmpty ∨ m.entries.getLast? = some (String.ofList n) then m
  else m.push (String.ofList (n.take noteLimit))

def isEmpty (m : Memory) : Bool := m.entries.isEmpty

def form : Json.Form := .record "RepairMemory" [{ name := "entries", form := .list .text }]

instance : Json.Coded Memory where
  form := form
  ofJson j := ⟨j.stringsField "entries"⟩
  toJson m := .ofFields [("entries", .ofStrings m.entries)]

/-- The line that keeps mended faults from coming back. -/
def promptText? (m : Memory) : Option String :=
  if m.isEmpty then none else some ("do not reintroduce: " ++ "; ".intercalate m.entries)

end Memory

end Mender.Repair
