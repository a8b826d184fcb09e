import Mender.Text.Search

/-!
Media types, such as a request's content type.

A type has a main part, a subtype with perhaps a suffix after a plus sign, and parameters.
Letters count whatever their case.
-/

namespace Mender.Http

open Mender.Text

structure MediaType where
  main : String
  /-- The subtype without its suffix. -/
  subtype : String
  suffix : Option String
  deriving DecidableEq

namespace MediaType

/-- The characters of a token besides letters and digits. -/
def tokenMarks : List Char := "!#$%&'*+-.^_\x60|~".toList

def isTokenChar (c : Char) : Bool := c.isAlphanum || tokenMarks.contains c

/-- Characters that may stand between quotes. -/
def isQuotedChar (c : Char) : Bool := c.toNat > 31 && c.toNat != 127

/-- What follows a quoted value and its closing quote. -/
def afterQuoted? : List Char → Option (List Char)
  | [] => none
  | '"' :: r => some r
  | c :: r => if isQuotedChar c then afterQuoted? r else none

/-- What follows the value of a parameter. -/
def afterValue? : List Char → Option (List Char)
  | '"' :: r => afterQuoted? r
  | t => some (t.dropWhile isTokenChar)

/-- Whether the text is a list of parameters with semicolons between them. -/
def areParameters : (fuel : Nat) → List Char → Bool
  | 0, _ => false
  | n + 1, t =>
    match t.dropWhile (· == ' ') with
    | [] => true
    | s =>
      match s.dropWhile isTokenChar with
      | '=' :: r =>
        match afterValue? r with
        | some [] => isTokenChar (s.head?.getD '=')
        | some (';' :: u) => isTokenChar (s.head?.getD '=') && areParameters n u
        | _ => false
      | _ => false

/-- A subtype and its suffix, in small letters. -/
def splitSuffix (t : List Char) : List Char × Option (List Char) :=
  match cutLast? (· == '+') t with
  | some ([], _) | none => (t, none)
  | some (subtype, suffix) => (subtype, some suffix)

def small (t : List Char) : String := String.ofList (t.map Char.toLower)

def ofString? (s : String) : Option MediaType :=
  let t := s.toList
  let main := t.takeWhile isTokenChar
  match t.dropWhile isTokenChar with
  | '/' :: r =>
    let name := r.takeWhile isTokenChar
    let parts := splitSuffix name
    let found : MediaType := ⟨small main, small parts.1, parts.2.map small⟩
    if main.isEmpty ∨ name.isEmpty then none
    else match r.dropWhile isTokenChar with
      | [] => some found
      | ';' :: u => if areParameters (u.length + 1) u then some found else none
      | _ => none
  | _ => none

/-- Whether a body of the type is JSON. -/
def isJson (m : MediaType) : Bool :=
  m.main == "application" && (m.subtype == "json" || m.suffix == some "json")

end MediaType

end Mender.Http
