import Mender.Json.Form
import Mender.Text.Search

/-!
Project files and their kinds.

The kind of a file follows from its name: from the part after the last point, whatever its
case, and from whether the name marks a configuration file.
-/

namespace Mender

open Mender.Text

inductive FileKind | component | style | config | data | script
  deriving DecidableEq

/-- The part of a path after the last slash. -/
def fileName (path : List Char) : List Char := ((cutLast? (· == '/') path).map (·.2)).getD path

/-- The file name up to its first point. -/
def fileStem (path : List Char) : List Char := (fileName path).takeWhile (· != '.')

/-- The part after the last point, in small letters; empty when there is no point. -/
def fileExtension (path : List Char) : List Char :=
  (((cutLast? (· == '.') (fileName path)).map (·.2)).getD []).map Char.toLower

def isConfigName (name : List Char) : Bool :=
  contains ".config.".toList name || name.head? == some '.'

namespace FileKind

def all : List FileKind := [.component, .style, .config, .data, .script]

def name : FileKind → String
  | .component => "component"
  | .style => "style"
  | .config => "config"
  | .data => "data"
  | .script => "script"

instance : Json.Coded FileKind := .ofNames all name .script

def ofExtension (isConfig : Bool) (ext : String) : FileKind :=
  if ext = "svelte" then .component
  else if ext = "css" ∨ ext = "scss" ∨ ext = "postcss" then .style
  else if ext = "json" then .data
  else if isConfig then .config
  else .script

def ofPath (path : String) : FileKind :=
  ofExtension (isConfigName (fileName path.toList)) (String.ofList (fileExtension path.toList))

/-- The formatter's name for the grammar of such a file. -/
def parser (k : FileKind) (path : String) : String :=
  match k with
  | .component => "svelte"
  | .style => "css"
  | .data => "json"
  | .script | .config => if endsWith ".ts".toList path.toList then "typescript" else "babel"

/-- Data files are parsed instead, and style sheets are not linted at all. -/
def isLintable : FileKind → Bool
  | .data | .style => false
  | .component | .config | .script => true

end FileKind

structure SourceFile where
  path : String
  content : String
  kind : FileKind
  deriving DecidableEq

namespace SourceFile

def ofPath (path content : String) : SourceFile := ⟨path, content, FileKind.ofPath path⟩

def stem (f : SourceFile) : String := String.ofList (fileStem f.path.toList)

def toJson (f : SourceFile) : Json :=
  .ofFields [("path", .str f.path), ("content", .str f.content), ("kind", .str f.kind.name)]

def form : Json.Form := .record "SourceFile" [
  { name := "path", form := .text },
  { name := "content", form := .text },
  { name := "kind", form := Json.Coded.form FileKind }]

def ofJson (j : Json) : SourceFile where
  path := (j.stringField? "path").getD ""
  content := (j.stringField? "content").getD ""
  kind := j.codedField FileKind "kind"

instance : Json.Coded SourceFile := ⟨form, ofJson, toJson⟩

end SourceFile

end Mender
