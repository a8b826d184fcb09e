import Mender.Json.Form
import Mender.Markup.ComponentTag
import Mender.Module.Closed
import Mender.Module.Specifier

/-!
Preparing a component for the compiler: what it refers to and does not get is replaced.

A component tag that no script binds gets an import of a stand-in, and an import of a local
module that is not among the dependencies is led to one.
-/

namespace Mender.Component

open Mender.Text Mender.Markup Mender.Script Mender.Module

/-- A reference with a stand-in. -/
structure Stub where
  name : String
  /-- Empty for a tag that nothing declares. -/
  specifier : String
  /-- Empty for a module that is no component. -/
  markup : String
  deriving DecidableEq

namespace Stub

def toJson (s : Stub) : Json :=
  .ofFields [("identifier", .str s.name), ("originSpecifier", .str s.specifier),
    ("placeholderMarkup", .str s.markup)]

def ofJson (j : Json) : Stub where
  name := (j.stringField? "identifier").getD ""
  specifier := (j.stringField? "originSpecifier").getD ""
  markup := (j.stringField? "placeholderMarkup").getD ""

def form : Json.Form := .record "DependencyStub" [
  { name := "identifier", form := .text },
  { name := "originSpecifier", form := .text },
  { name := "placeholderMarkup", form := .text }]

instance : Json.Coded Stub := ⟨form, ofJson, toJson⟩

end Stub

/-- A source for the compiler, with the code of the stand-ins by their specifiers. -/
structure Prepared where
  source : String
  stubs : List Stub
  modules : KeyMap String

/-- The imports of a script with the place of the script. -/
structure PlacedImport where
  place : Nat
  statement : Import
  origin : Part

def importsIn (place : Nat) (t : Tree) : List PlacedImport :=
  t.statements.filterMap fun s => s.import?.map fun (i, origin) => ⟨place, i, origin⟩

/-- What a module's specifier says. -/
def PlacedImport.specifier (p : PlacedImport) : String := p.origin.value

/-- The names a script binds, by imports and by declarations. -/
def namesIn (t : Tree) : List String := t.statements.flatMap Statement.boundNames

/-- The scripts of a source as they are read, with their places. -/
def readScripts (t : List Char) : List (Nat × Tree) :=
  (scripts t).map fun e => (e.content.first, Script.parse (e.content.of t))

/-- The imports in all scripts of a source. -/
def importsOf (t : List Char) : List PlacedImport :=
  (readScripts t).flatMap fun p => importsIn p.1 p.2

/-- The names that the scripts of a source bind. -/
def namesBound (t : List Char) : List String := (readScripts t).flatMap fun p => namesIn p.2

/-- The keys of the dependencies as specifiers lead to them. -/
def keysOf (dependencies : KeyMap String) : List String := dependencies.keys.map (normalize "")

/-- Whether a specifier leads to one of the keys. -/
def isProvided (keys : List String) (specifier : String) : Bool :=
  (candidates (normalize "" specifier)).any keys.contains

/-- The name of a module's file up to its first point. -/
def moduleStem (specifier : String) : String :=
  String.ofList ((((segments specifier.toList).getLast?).getD []).takeWhile (· != '.'))

/-- A stand-in with its specifier, its code, and the text that brings it into the source. -/
structure StandIn where
  stub : Stub
  specifier : String
  code : String

/-- Whether a specifier is local and leads to none of the keys. -/
def isMissing (keys : List String) (specifier : String) : Bool :=
  isLocal specifier && !isProvided keys specifier

def standInFor (p : PlacedImport) : StandIn :=
  let name := p.statement.default.getD (moduleStem p.specifier)
  let markup := if isComponentPath p.specifier then placeholder name else ""
  { stub := ⟨name, p.specifier, markup⟩
    specifier := stubMark ++ p.specifier
    code :=
      if isComponentPath p.specifier then componentStub markup
      else scriptStub p.statement.offeredNames }

/-- The imports of missing modules. -/
def missingImports (keys : List String) (t : List Char) : List PlacedImport :=
  (importsOf t).filter fun p => isMissing keys p.specifier

/-- An import is led to its stand-in by another literal. -/
def redirection (p : PlacedImport) : Extent × List Char :=
  (⟨p.place + p.origin.extent.first, p.place + p.origin.extent.last⟩,
    (quoted (standInFor p).specifier).toList)

/-- The stand-in for a component tag. -/
def standInForTag (name : String) : StandIn :=
  let markup := placeholder name
  ⟨⟨name, "", markup⟩, stubMark ++ "component/" ++ name, componentStub markup⟩

/-- The first occurrences of the tags' names that no script binds. -/
def unboundTags (bound : List String) : (seen : List String) → List ComponentTag → List String
  | _, [] => []
  | seen, t :: ts =>
    if bound.contains t.name || seen.contains t.name then unboundTags bound seen ts
    else t.name :: unboundTags bound (t.name :: seen) ts

/-- The stand-ins for the tags of a source that no script binds. -/
def tagStandIns (t : List Char) : List StandIn :=
  (unboundTags (namesBound t) [] (componentTags t)).map standInForTag

def importLine (s : StandIn) : String :=
  "\n  import " ++ s.stub.name ++ " from " ++ quoted s.specifier ++ ";"

def importLines (ss : List StandIn) : List Char := ss.flatMap fun s => (importLine s).toList

/-- A script of its own with some lines. -/
def newScript (lines : List Char) : List Char :=
  "<script>".toList ++ lines ++ "\n</script>\n".toList

/-- Puts an insertion at `place` among replacements that are in order. -/
def insertAt (place : Nat) (new : List Char) :
    List (Extent × List Char) → List (Extent × List Char)
  | [] => [(⟨place, place⟩, new)]
  | e :: es => if place ≤ e.1.first then (⟨place, place⟩, new) :: e :: es else e :: insertAt place new es

/-- A source with some lines in its instance script, and with replacements. -/
def withLines (t lines : List Char) (edits : List (Extent × List Char)) : List Char :=
  match instanceScript? t with
  | some e => splice t 0 (insertAt e.content.first lines edits)
  | none => newScript lines ++ splice t 0 edits

def prepare (source : String) (dependencies : KeyMap String) : Prepared :=
  let t := source.toList
  let found := missingImports (keysOf dependencies) t
  let tags := tagStandIns t
  let edits := found.map redirection
  let all := found.map standInFor ++ tags
  { source := String.ofList <|
      if tags.isEmpty then splice t 0 edits else withLines t (importLines tags) edits
    stubs := all.map (·.stub)
    modules := .ofList (all.map fun s => (s.specifier, s.code)) }

end Mender.Component
