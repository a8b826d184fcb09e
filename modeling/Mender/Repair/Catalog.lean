import Mender.KeyMap
import Mender.SourceFile

/-!
Components that are known to be good. Names are found whatever their ASCII case.
-/

namespace Mender.Repair

def lowerCase (s : String) : String := String.ofList (s.toList.map Char.toLower)

structure KnownComponent where
  name : String
  source : String
  deriving DecidableEq

/-- The components by their names in small letters. -/
structure Catalog where
  components : KeyMap KnownComponent := ∅

namespace Catalog

/-- Of two names that differ in case only the later one counts. -/
def insert (name source : String) (c : Catalog) : Catalog :=
  ⟨c.components.insert (lowerCase name) ⟨name, source⟩⟩

def ofList (entries : List (String × String)) : Catalog :=
  entries.foldl (fun c e => c.insert e.1 e.2) {}

/-- The name of the component in a file: the file's name up to its last point. -/
def componentName? (file : String) : Option String :=
  match Text.cutLast? (· == '.') file.toList with
  | some (c :: stem, ending) =>
    if ending = "svelte".toList then some (String.ofList (c :: stem)) else none
  | _ => none

/-- The components among the files of a directory, by their names. -/
def ofFiles (files : List (String × String)) : Catalog :=
  ofList (files.filterMap fun f => (componentName? f.1).map (·, f.2))

def names (c : Catalog) : List String := c.components.entries.map fun e => e.2.name

def size (c : Catalog) : Nat := c.components.size

def lookUp (stem : String) (c : Catalog) : Option String :=
  (c.components.get? (lowerCase stem)).map (·.source)

/-- The name under which the file at a path is looked up. -/
def stemOf (path : String) : String := String.ofList (fileStem path.toList)

def lookUpPath (path : String) (c : Catalog) : Option String := c.lookUp (stemOf path)

end Catalog

end Mender.Repair
