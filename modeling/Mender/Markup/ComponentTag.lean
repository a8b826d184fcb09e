import Mender.Markup.Element

/-!
The component tags of a source: capitalised tags in the markup, which is what lies outside
script and style elements and outside comments.
-/

namespace Mender.Markup

open Mender.Text

/-- A piece of a source with the place where it starts. -/
structure Piece where
  place : Nat
  text : List Char

/-- What lies between the elements. -/
def gaps (source : List Char) : (place : Nat) → List Element → List Piece
  | place, [] => [⟨place, dropWidth place source⟩]
  | place, e :: es => ⟨place, slice place e.openTag.first source⟩ :: gaps source e.stop es

def commentOpen : List Char := "<!--".toList
def commentClose : List Char := "-->".toList

/-- Where in a comment that starts here the text goes on; the closing mark may share
hyphens with the opening one. -/
def commentLength (t : List Char) : Nat :=
  match cut? commentClose t with
  | some (inside, _) => inside.length + commentClose.length
  | none => t.length

/-- The piece read backwards that ends before `place`. -/
def endPiece (place : Nat) (piece : List Char) : Piece := ⟨place - width piece, piece.reverse⟩

/-- The pieces of a text outside its comments. `piece` is the current one, read backwards;
`skip` characters of a comment are still to come. -/
def outsideComments : (skip place : Nat) → (piece : List Char) → List Char → List Piece
  | _, place, piece, [] => [endPiece place piece]
  | n + 1, place, piece, c :: r => outsideComments n (place + c.utf8Size) piece r
  | 0, place, piece, c :: r =>
    if startsWith commentOpen (c :: r) then
      endPiece place piece ::
        outsideComments (commentLength (c :: r) - 1) (place + c.utf8Size) [] r
    else outsideComments 0 (place + c.utf8Size) (c :: piece) r

/-- The pieces of markup, none of them empty. -/
def markupPieces (source : List Char) : List Piece :=
  ((gaps source 0 (elements source)).flatMap fun p => outsideComments 0 p.place [] p.text).filter
    fun p => !p.text.isEmpty

structure ComponentTag where
  name : String
  place : Nat
  deriving DecidableEq

def isTagNameChar (c : Char) : Bool := c.isAlphanum || c == '_' || c == '$' || c == '.'

/-- The name a tag refers to: what stands before the first point. -/
def baseName (t : List Char) : List Char :=
  (t.takeWhile isTagNameChar).takeWhile (· != '.')

/-- A `<` directly before a capital letter starts a component tag. -/
def tagsFrom : (place : Nat) → List Char → List ComponentTag
  | _, [] => []
  | place, c :: r =>
    if c = '<' ∧ r.head?.any Char.isUpper then
      ⟨String.ofList (baseName r), place⟩ :: tagsFrom (place + c.utf8Size) r
    else tagsFrom (place + c.utf8Size) r

def componentTags (source : List Char) : List ComponentTag :=
  (markupPieces source).flatMap fun p => tagsFrom p.place p.text

end Mender.Markup
