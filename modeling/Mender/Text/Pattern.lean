import Mender.Text.Blank
import Mender.Text.WordChar

/-!
Simple text patterns.

A pattern is a list of parts that must follow one another. What comes after a run of blanks
never starts with a blank, so a run is always taken whole. An edge is a place with a word
character on exactly one side, and a lead is the start of the text or a blank.
-/

namespace Mender.Text

inductive Part
  | char (c : Char)
  | oneOf (cs : List Char)
  | blanks
  | someBlanks
  | edge
  | lead

abbrev Pattern := List Part

namespace Pattern

def literal (s : String) : Pattern := s.toList.map .char

def isWordAt (c : Option Char) : Bool := c.any isWordChar

/-- The character in front of what follows the leading blanks of `t`. -/
def beforeRest (before : Option Char) (t : List Char) : Option Char :=
  (t.takeWhile isBlank).getLast?.or before

/-- Whether the pattern matches at the start of `t`; `before` is the character in front. -/
def matchesHere : (before : Option Char) → Pattern → List Char → Bool
  | _, [], _ => true
  | _, .char d :: ps, t =>
    match t with
    | [] => false
    | c :: r => c == d && matchesHere (some c) ps r
  | _, .oneOf ds :: ps, t =>
    match t with
    | [] => false
    | c :: r => ds.contains c && matchesHere (some c) ps r
  | before, .blanks :: ps, t => matchesHere (beforeRest before t) ps (t.dropWhile isBlank)
  | before, .someBlanks :: ps, t =>
    t.head?.any isBlank && matchesHere (beforeRest before t) ps (t.dropWhile isBlank)
  | before, .edge :: ps, t => (isWordAt before != isWordAt t.head?) && matchesHere before ps t
  | before, .lead :: ps, t =>
    (before.isNone && matchesHere before ps t) ||
      match t with
      | [] => false
      | c :: r => isBlank c && matchesHere (some c) ps r

/-- Whether the pattern matches somewhere in `t`. -/
def matchesFrom (p : Pattern) : (before : Option Char) → List Char → Bool
  | before, [] => matchesHere before p []
  | before, c :: r => matchesHere before p (c :: r) || matchesFrom p (some c) r

def isIn (p : Pattern) (t : List Char) : Bool := matchesFrom p none t

end Pattern

end Mender.Text
