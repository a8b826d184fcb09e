import Mender.KeyMap
import Mender.Number.Shortest

/-!
JSON values.

Numbers without a point or an exponent between `-2 ^ 63` and `2 ^ 64 - 1` are integers and
all others binary64 numbers. The fields of an object stand in increasing order of their
names, each name once.
-/

namespace Mender

inductive Json
  | null
  | bool (b : Bool)
  | int (i : Int)
  | real (x : Binary64)
  | str (s : String)
  | arr (items : List Json)
  | obj (fields : List (String × Json))
  deriving Inhabited, BEq, Repr

namespace Json

/-- The object with these fields; of two with one name the later counts. -/
def ofFields (fields : List (String × Json)) : Json :=
  .obj (fields.foldl (fun r e => insertEntry e.1 e.2 r) [])

/-- An object of the fields that are present. -/
def ofPresent (fields : List (String × Option Json)) : Json :=
  ofFields (fields.filterMap fun e => e.2.map (e.1, ·))

def ofStrings (ss : List String) : Json := .arr (ss.map .str)

def ofNat (n : Nat) : Json := .int n

def orNull : Option Json → Json
  | some j => j
  | none => .null

def ofOption {α : Type} (f : α → Json) (x : Option α) : Json := orNull (x.map f)

def ofMap {α : Type} (f : α → Json) (m : KeyMap α) : Json :=
  .obj (m.entries.map fun e => (e.1, f e.2))

/-- A field of an object. -/
def field? (k : String) : Json → Option Json
  | .obj fields => fields.lookup k
  | _ => none

/-- A field that is present and not null. -/
def given? (k : String) (j : Json) : Option Json :=
  match j.field? k with
  | some .null => none
  | other => other

def string? : Json → Option String
  | .str s => some s
  | _ => none

def bool? : Json → Option Bool
  | .bool b => some b
  | _ => none

def nat? : Json → Option Nat
  | .int (.ofNat n) => some n
  | _ => none

def items? : Json → Option (List Json)
  | .arr xs => some xs
  | _ => none

def fields? : Json → Option (List (String × Json))
  | .obj fs => some fs
  | _ => none

def stringField? (k : String) (j : Json) : Option String := (j.field? k).bind string?

def natField? (k : String) (j : Json) : Option Nat := (j.field? k).bind nat?

def boolField? (k : String) (j : Json) : Option Bool := (j.field? k).bind bool?

/-- The elements of an array field; none when the field is absent or no array. -/
def itemsField (k : String) (j : Json) : List Json := ((j.field? k).bind items?).getD []

/-- The entries of an object field; none when the field is absent or no object. -/
def entriesField (k : String) (j : Json) : List (String × Json) :=
  ((j.field? k).bind fields?).getD []

/-- The strings among the elements of an array field. -/
def stringsField (k : String) (j : Json) : List String := (j.itemsField k).filterMap string?

/-- The strings among the fields of an object field, as a map. -/
def stringMapField (k : String) (j : Json) : KeyMap String :=
  .ofList ((j.entriesField k).filterMap fun e => e.2.string?.map (e.1, ·))

end Json

end Mender
