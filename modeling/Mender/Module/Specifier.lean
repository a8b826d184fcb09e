import Mender.Text.Blank
import Mender.Text.Search

/-!
Module specifiers and the keys they stand for.

A specifier is local when it is a path of the project: relative, absolute, or below the
library root `$lib`. All others name packages.
-/

namespace Mender.Module

open Mender.Text

/-- What specifiers of prepared stubs begin with. -/
def stubMark : String := "pw-stub:"

def isStub (specifier : String) : Bool := startsWith stubMark.toList specifier.toList

def isRelative (t : List Char) : Bool :=
  startsWith "./".toList t || startsWith "../".toList t

def belowLibrary (t : List Char) : Bool := startsWith "$lib/".toList t

def isLocal (specifier : String) : Bool :=
  let t := specifier.toList
  isRelative t || t.head? == some '/' || belowLibrary t

def segments (path : List Char) : List (List Char) := splitWhen (· == '/') path

/-- Appends a segment to a path that is held with its last segment first. -/
def pushSegment (path : List (List Char)) (s : List Char) : List (List Char) :=
  if s = [] ∨ s = ['.'] then path
  else if s = ['.', '.'] then path.drop 1
  else s :: path

/-- A path without empty segments and with its dot segments resolved. -/
def collapse (path : List Char) : List Char :=
  ['/'].intercalate ((segments path).foldl pushSegment []).reverse

/-- The key of a specifier in a module of the directory `dir`. -/
def normalize (dir specifier : String) : String :=
  let t := specifier.toList
  if belowLibrary t then String.ofList (collapse t)
  else match t with
    | '/' :: r => String.ofList (collapse r)
    | _ =>
      if isRelative t then
        if dir.isEmpty then String.ofList (collapse t)
        else String.ofList (collapse (dir.toList ++ '/' :: t))
      else specifier

/-- The directory of a module. -/
def directory (key : String) : String :=
  String.ofList (((cutLast? (· == '/') key.toList).map (·.1)).getD [])

/-- The keys that a local key may be meant for, the first one first. -/
def candidates (key : String) : List String := [key, key ++ ".js", key ++ ".ts", key ++ ".svelte"]

def isComponentPath (path : String) : Bool := endsWith ".svelte".toList path.toList

end Mender.Module
