import Mender.Markup.Element
import Mender.Module.Closed
import Mender.Text.Pattern

/-!
Fixes that need no tool: missing attributes are added and repeated imports dropped.

An image without a text gets an empty one, and a link that opens a new window is cut off from
the page it came from. Each fix adds an attribute or removes a statement.
-/

namespace Mender.Component

open Mender.Text Mender.Markup

/-! ### Attributes -/

/-- An attribute with a value, after the start of the text or a blank. -/
def valued (name : String) : Pattern := .lead :: Pattern.literal name ++ [.blanks, .char '=']

def hasText (attributes : List Char) : Bool :=
  (valued "alt").isIn attributes || (Pattern.literal "\x7balt\x7d").isIn attributes

def opensWindow (attributes : List Char) : Bool :=
  Pattern.isIn (valued "target" ++ .blanks :: .oneOf ['"', '\''] :: Pattern.literal "_blank" ++
    [.oneOf ['"', '\'']]) attributes

def hasRelation (attributes : List Char) : Bool := (valued "rel").isIn attributes

/-- The attribute to add to an image. -/
def imageExtra (attributes : List Char) : Option (List Char) :=
  if hasText attributes then none else some " alt=\"\"".toList

/-- The attribute to add to a link. -/
def linkExtra (attributes : List Char) : Option (List Char) :=
  if opensWindow attributes && !hasRelation attributes then
    some " rel=\"noopener noreferrer\"".toList
  else none

/-- What stands between a tag's name and its end, without blanks and a slash at the end. -/
def attributesOf (body : List Char) : List Char :=
  let t := trimEnd body
  match t.getLast? with
  | some '/' => trimEnd t.dropLast
  | _ => t

def endsTagName (c : Char) : Bool := isBlank c || c == '>' || c == '/'

/-- What `extra` adds to the tags of a name, with the places where it is put in. `opening` is a `<`
and the name, and `skip` characters are done already. A tag that is not closed ends the search. -/
def additions (opening : List Char) (extra : List Char → Option (List Char)) :
    (skip place : Nat) → List Char → List (Nat × List Char)
  | _, _, [] => []
  | n + 1, place, c :: r => additions opening extra n (place + c.utf8Size) r
  | 0, place, c :: r =>
    if ((after? opening (c :: r)).bind List.head?).any endsTagName then
      match splitTag none 0 (c :: r) with
      | none => []
      | some (tag, _) =>
        let attributes := attributesOf (tag.drop opening.length).dropLast
        (extra attributes).toList.map (place + width (opening ++ attributes), ·) ++
          additions opening extra (tag.length - 1) (place + c.utf8Size) r
    else additions opening extra 0 (place + c.utf8Size) r

/-- A source with texts put in at some places. -/
def withAdditions (source : List Char) (added : List (Nat × List Char)) : List Char :=
  Module.splice source 0 (added.map fun a => (⟨a.1, a.1⟩, a.2))

def imageAdditions (source : List Char) : List (Nat × List Char) :=
  additions "<img".toList imageExtra 0 0 source

def linkAdditions (source : List Char) : List (Nat × List Char) :=
  additions "<a".toList linkExtra 0 0 source

def amendImages (source : List Char) : List Char := withAdditions source (imageAdditions source)

def amendLinks (source : List Char) : List Char := withAdditions source (linkAdditions source)

/-! ### Repeated imports -/

/-- The whole lines of a statement, if nothing else stands on them. -/
def wholeLines (t : List Char) (e : Script.Extent) : Script.Extent :=
  let before := (slice 0 e.first t).reverse.takeWhile (· != '\n')
  let rest := dropWidth e.last t
  let behind := rest.takeWhile (· != '\n')
  if before.all isBlank && behind.all isBlank then
    ⟨e.first - width before,
      e.last + width behind + if behind.length < rest.length then 1 else 0⟩
  else e

/-- The statements that repeat an earlier one up to blanks. -/
def repeated (t : List Char) : (seen : List (List Char)) → List Script.Statement → List Script.Extent
  | _, [] => []
  | seen, s :: ss =>
    match s.form with
    | .imports _ =>
      let key := collapse (slice s.extent.first s.extent.last t)
      if seen.contains key then wholeLines t s.extent :: repeated t seen ss
      else repeated t (key :: seen) ss
    | _ => repeated t seen ss

/-- What of a script is dropped, for a script that starts at `place` of a source. -/
def droppedIn (t : List Char) (place : Nat) : List Script.Extent :=
  (repeated t [] (Script.parse t).statements).map fun e => ⟨place + e.first, place + e.last⟩

/-- Drops repeated imports. A source without scripts is a script, unless it is markup. -/
def dropRepeated (source : List Char) : List Char :=
  let found :=
    match scripts source with
    | [] => if (trimStart source).head? = some '<' then [] else droppedIn source 0
    | es => es.flatMap fun (e : Element) => droppedIn (e.content.of source) e.content.first
  Module.splice source 0 (found.map (·, []))

def cleanup (source : List Char) : List Char :=
  dropRepeated (amendLinks (amendImages source))

end Mender.Component
