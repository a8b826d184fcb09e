import Mender.Text.Quote

/-!
What is known of a script: its top-level statements, with the names they bind and the parts
of its imports and exports.

Places are counted in bytes from the start of the script. Of an expression only as much is
kept as tells a literal from anything else.
-/

namespace Mender.Script

/-- A stretch of the script. -/
structure Extent where
  first : Nat
  last : Nat
  deriving DecidableEq

/-- A stretch of the script with its text. -/
structure Part where
  extent : Extent
  text : String

/-- What a word or a string literal says; the escapes of a literal stay as they are. -/
def Part.value (p : Part) : String := String.ofList (Text.unquote p.text.toList)

inductive Literal | string | template | number | true | false | null | object | array | minus
  deriving DecidableEq

/-- A group holds what its parentheses begin with, unless that is a comment; a call holds what
is called. -/
inductive Expr
  | literal (kind : Literal) (part : Part)
  | call (callee : Part)
  | group (inner : Option Expr)
  | other

mutual

/-- What a declaration binds. -/
inductive Pattern
  | name (n : String)
  | object (fields : List Field)
  | array (items : List Pattern)
  | rest (p : Pattern)
  | withDefault (p : Pattern) (value : Expr)

inductive Field
  | short (n : String)
  | shortDefault (n : String) (value : Expr)
  | pair (key : Part) (p : Pattern)
  | rest (p : Pattern)

end

structure Declarator where
  pattern : Pattern
  value : Option Expr

/-- A declaration of a function, a generator or a class binds its name. Types are declared by
aliases and interfaces. All others, such as enumerations and signatures, bind nothing. -/
inductive Declaration
  | bindings (declarators : List Declarator)
  | named (name : String)
  | typeOnly
  | silent

/-- A name under which a module offers something is a word or a string literal. -/
structure ImportedName where
  typeOnly : Bool
  name : Part
  newName : Option String

structure Import where
  typeOnly : Bool
  source : Option Part
  default : Option String := none
  whole : Option String := none
  names : List ImportedName := []

structure ExportedName where
  typeOnly : Bool
  name : Part
  newName : Option Part

inductive Export
  | typeOnly
  | declaration (d : Declaration) (extent : Extent) (isDefault : Bool)
  | value (extent : Extent)
  | names (names : List ExportedName) (source : Option Part)
  | all (source : Part)
  | whole (name : Part) (source : Part)
  | unsupported

inductive Form
  | imports (i : Import)
  | exports (e : Export)
  | declares (d : Declaration)
  | other

structure Statement where
  extent : Extent
  form : Form

/-- A script: its statements in order, and the place of its first fault. -/
structure Tree where
  statements : List Statement
  fault : Option Nat

mutual

/-- The names a pattern binds, in order. -/
def Pattern.names : Pattern → List String
  | .name n => [n]
  | .object fields => fieldNames fields
  | .array items => patternNames items
  | .rest p => p.names
  | .withDefault p _ => p.names

def Field.names : Field → List String
  | .short n => [n]
  | .shortDefault n _ => [n]
  | .pair _ p => p.names
  | .rest p => p.names

def fieldNames : List Field → List String
  | [] => []
  | f :: fs => f.names ++ fieldNames fs

def patternNames : List Pattern → List String
  | [] => []
  | p :: ps => p.names ++ patternNames ps

end

/-- The names a declaration binds, in order. -/
def Declaration.names : Declaration → List String
  | .bindings ds => ds.flatMap fun d => d.pattern.names
  | .named n => [n]
  | .typeOnly => []
  | .silent => []

/-- The local name of an imported name. -/
def ImportedName.localName (n : ImportedName) : String := n.newName.getD n.name.value

/-- The names an import binds, in order. -/
def Import.boundNames (i : Import) : List String :=
  i.default.toList ++ i.whole.toList ++
    (i.names.filter fun n => !n.typeOnly).map ImportedName.localName

/-- The names, as the module offers them, that an import takes one by one. -/
def Import.offeredNames (i : Import) : List String :=
  (i.names.filter fun n => !n.typeOnly).map fun n => n.name.value

/-- The names a statement declares; imports are not counted. -/
def Statement.declaredNames (s : Statement) : List String :=
  match s.form with
  | .declares d => d.names
  | .exports (.declaration d _ _) => d.names
  | _ => []

/-- The import that a statement is, with the literal of its module. -/
def Statement.import? (s : Statement) : Option (Import × Part) :=
  match s.form with
  | .imports i => i.source.map fun p => (i, p)
  | _ => none

/-- The names a statement binds, by an import or a declaration. -/
def Statement.boundNames (s : Statement) : List String :=
  match s.import? with
  | some (i, _) => i.boundNames
  | none => s.declaredNames

end Mender.Script
