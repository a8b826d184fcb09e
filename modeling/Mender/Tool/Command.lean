import Mender.Json.Basic
import Mender.Number.Word
import Mender.Text.Blank

/-!
Commands that start tools, and how their runs end.
-/

namespace Mender.Tool

structure Command where
  program : String
  arguments : List String := []
  /-- Milliseconds until a run is cut off. -/
  limit : Nat
  deriving DecidableEq

namespace Command

/-- Reads a command line: words with blanks between them, without any quoting. -/
def ofLine? (limit : Nat) (line : String) : Option Command :=
  match Text.words line.toList with
  | [] => none
  | program :: arguments =>
    some ⟨String.ofList program, arguments.map String.ofList, limit⟩

/-- The limit as a machine word. -/
def limitWord (c : Command) : Nat := min c.limit Word.greatest64

/-- A duration in whole seconds and the nanoseconds beyond them. -/
def durationJson (milliseconds : Nat) : Json :=
  .ofFields [("secs", .ofNat (milliseconds / 1000)),
    ("nanos", .ofNat (milliseconds % 1000 * 1000000))]

/-- The command with its defaults spelled out; it is run where the program itself runs. -/
def toJson (c : Command) : Json :=
  .ofFields [("program", .str c.program), ("args", .ofStrings c.arguments),
    ("timeout", durationJson c.limit), ("working_dir", .null)]

end Command

/-- How a run of a command ends, with what it has printed. -/
inductive Ending
  | notStarted (reason : String)
  /-- The command could not be fed or read. -/
  | brokenOff (reason : String)
  | timedOut (stdout : String)
  | exited (code : Int) (stdout stderr : String)

/-- A run of a command: what it reads on standard input, and the file that it finds in its
directory by name and text. -/
structure Launch where
  command : Command
  input : String := ""
  file : Option (String × String) := none

/-- A way to run commands. -/
abbrev Exec := Launch → Ending

end Mender.Tool
