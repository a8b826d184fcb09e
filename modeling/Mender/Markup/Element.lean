import Mender.Markup.Tag
import Mender.Text.Blank
import Mender.Text.Search

/-!
The script and style elements of a component.

An element runs from its opening tag through the next closing tag of its kind, or to the end
of the source. Names are compared without regard to ASCII case.
-/

namespace Mender.Markup

open Mender.Text

/-- A part of a source, from the first place up to the last. -/
structure Span where
  first : Nat
  last : Nat
  deriving DecidableEq

def Span.of (source : List Char) (s : Span) : List Char := slice s.first s.last source

inductive Kind | script | style
  deriving DecidableEq

def Kind.opening : Kind → List Char
  | .script => "<script".toList
  | .style => "<style".toList

def Kind.closing : Kind → List Char
  | .script => "</script".toList
  | .style => "</style".toList

structure Element where
  kind : Kind
  openTag : Span
  content : Span
  /-- The place after the closing tag. -/
  stop : Nat
  isModule : Bool
  deriving DecidableEq

/-- Whether a text begins with a name, whatever its case; the name is in small letters. -/
def beginsWith : (name : List Char) → List Char → Bool
  | [], _ => true
  | _ :: _, [] => false
  | n :: ns, c :: r => c.toLower == n && beginsWith ns r

/-- The text before the first occurrence of a name, and the text from there on. -/
def splitBefore (name : List Char) : List Char → List Char × List Char
  | [] => ([], [])
  | c :: r =>
    if beginsWith name (c :: r) then ([], c :: r)
    else (c :: (splitBefore name r).1, (splitBefore name r).2)

/-- What may follow the name in an opening tag. -/
def endsName (c : Char) : Bool :=
  c == '>' || c == ' ' || c == '\t' || c == '\n' || c == '\r' || c == '/'

/-- The kind of element whose opening tag starts here. -/
def opens? (t : List Char) : Option Kind :=
  [Kind.script, Kind.style].find? fun k =>
    beginsWith k.opening t && (t.drop k.opening.length).head?.any endsName

/-- Whether an opening tag marks a module script. -/
def marksModule (tag : List Char) : Bool :=
  contains "context=\"module\"".toList tag || contains "context='module'".toList tag ||
    (splitWhen (fun c => isBlank c || c == '>') tag).contains "module".toList

/-- An opening tag, the content and the closing tag, at the start of a text. -/
def splitElement? (k : Kind) (t : List Char) :
    Option (List Char × List Char × List Char) :=
  (splitTag none 0 t).map fun (tag, r) =>
    let (content, close) := splitBefore k.closing r
    (tag, content, ((splitTag none 0 close).map (·.1)).getD close)

/-- The elements of a text that starts at `place`, after `skip` characters. An opening tag
that is never closed ends the search. -/
def elementsFrom : (skip place : Nat) → List Char → List Element
  | _, _, [] => []
  | n + 1, place, c :: r => elementsFrom n (place + c.utf8Size) r
  | 0, place, c :: r =>
    match opens? (c :: r) with
    | none => elementsFrom 0 (place + c.utf8Size) r
    | some k =>
      match splitElement? k (c :: r) with
      | none => []
      | some (tag, content, close) =>
        let inner := place + width tag
        let after := inner + width content
        ⟨k, ⟨place, inner⟩, ⟨inner, after⟩, after + width close, marksModule tag⟩ ::
          elementsFrom (tag.length + content.length + close.length - 1) (place + c.utf8Size) r

def elements (source : List Char) : List Element := elementsFrom 0 0 source

def scripts (source : List Char) : List Element :=
  (elements source).filter (·.kind == .script)

/-- The first script that is no module script. -/
def instanceScript? (source : List Char) : Option Element :=
  (scripts source).find? fun e => !e.isModule

end Mender.Markup
