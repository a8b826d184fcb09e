import Mender.Text.Search

/-!
Reading a command line against a list of options.

An option is written with two hyphens and its name, and its value after an equals sign or as
the next argument; a flag has no value and may have a letter of its own, and letters after one
hyphen may be joined. Each option may be given once. A value is looked at when the next option
begins or the line ends.
-/

namespace Mender.Server

open Mender.Text

/-- What an option asks for. -/
inductive Demand
  | flag
  /-- Text that `accepts` a value. -/
  | value (accepts : String → Bool)
  /-- The name of a file, which is not empty. -/
  | file
  | help
  | version

structure OptionForm where
  name : String
  demand : Demand
  letter : Option Char := none

/-- Why a command line is not carried out. Help and version are asked for, not wrong. -/
inductive LineFault
  | unknownArgument
  | missingValue
  | invalidValue
  | unneededValue
  | repeated
  | helpAsked
  | versionAsked
  deriving DecidableEq

def LineFault.kind : LineFault → String
  | .unknownArgument => "UnknownArgument"
  | .missingValue => "InvalidValue"
  | .invalidValue => "ValueValidation"
  | .unneededValue => "TooManyValues"
  | .repeated => "ArgumentConflict"
  | .helpAsked => "DisplayHelp"
  | .versionAsked => "DisplayVersion"

/-- A line read so far: what is given, and an option whose value is not looked at yet. -/
structure LineState where
  given : List (String × String) := []
  pending : Option (OptionForm × Option String) := none
  /-- Whether the two hyphens that end the options have been met. -/
  ended : Bool := false

namespace LineState

def isGiven (s : LineState) (f : OptionForm) : Bool := (s.given.lookup f.name).isSome

def record (s : LineState) (f : OptionForm) (value : String) : Except LineFault LineState :=
  if s.isGiven f then .error .repeated
  else .ok { s with given := s.given ++ [(f.name, value)] }

/-- Looks at the value of an option and keeps it. -/
def accept (s : LineState) (f : OptionForm) (value : String) : Except LineFault LineState := do
  let t ← s.record f value
  match f.demand with
  | .value accepts => if accepts value then .ok t else .error .invalidValue
  | .file => if value.isEmpty then .error .missingValue else .ok t
  | .flag | .help | .version => .ok t

/-- Finishes the option whose value is not looked at yet. -/
def settle (s : LineState) : Except LineFault LineState :=
  match s.pending with
  | none => .ok s
  | some (_, none) => .error .missingValue
  | some (f, some value) => { s with pending := none }.accept f value

/-- An option without a value of its own. -/
def raise (s : LineState) (f : OptionForm) : Except LineFault LineState := do
  let s ← s.settle
  match f.demand with
  | .help => .error .helpAsked
  | .version => .error .versionAsked
  | _ => s.record f "true"

def takesValue (f : OptionForm) : Bool :=
  match f.demand with
  | .value _ | .file => true
  | .flag | .help | .version => false

/-- The name of an option and the value written after an equals sign. -/
def nameAndValue (t : List Char) : String × Option String :=
  match cut? ['='] t with
  | some (name, value) => (String.ofList name, some (String.ofList value))
  | none => (String.ofList t, none)

/-- An argument that begins with two hyphens. -/
def long (forms : List OptionForm) (t : List Char) (s : LineState) : Except LineFault LineState :=
  let (name, value) := nameAndValue t
  match forms.find? (·.name == name), value with
  | none, _ => .error .unknownArgument
  | some f, none =>
    if takesValue f then s.settle.map fun s => { s with pending := some (f, none) }
    else s.raise f
  | some f, some value =>
    if takesValue f then s.settle.bind (·.accept f value) else .error .unneededValue

/-- Letters after one hyphen. -/
def letters (forms : List OptionForm) : List Char → LineState → Except LineFault LineState
  | [], s => .ok s
  | c :: cs, s =>
    match forms.find? (·.letter == some c) with
    | none => .error .unknownArgument
    | some f => (s.raise f).bind (letters forms cs)

/-- An argument that is no option: the value that the last option waits for. -/
def word (argument : String) (s : LineState) : Except LineFault LineState :=
  match s.pending with
  | some (f, none) => .ok { s with pending := some (f, some argument) }
  | _ => .error .unknownArgument

def step (forms : List OptionForm) (s : LineState) (argument : String) :
    Except LineFault LineState :=
  if s.ended then .error .unknownArgument
  else match argument.toList with
    | ['-', '-'] => .ok { s with ended := true }
    | '-' :: '-' :: t => s.long forms t
    | '-' :: c :: t => letters forms (c :: t) s
    | _ => s.word argument

end LineState

/-- The values of the options that a command line gives. -/
def readLine (forms : List OptionForm) (arguments : List String) :
    Except LineFault (List (String × String)) := do
  let s ← arguments.foldlM (LineState.step forms) {}
  return (← s.settle).given

end Mender.Server
