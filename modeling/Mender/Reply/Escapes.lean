import Mender.Text.Blank

/-!
Mending text that is almost JSON.

Curly quotes become straight ones, a backslash that starts no escape is dropped, line ends
and tabs inside strings are escaped, a comma before a closing bracket is dropped, and a
string left open is closed in front of the closing brackets that end the text. The pass
knows whether it stands inside a string, so neither kind of repair reaches the other's text.
-/

namespace Mender.Reply

open Mender.Text

def straighten (c : Char) : Char :=
  match c with
  | '\u201C' | '\u201D' | '\u201E' | '\u201F' => '"'
  | '\u2018' | '\u2019' => '\''
  | _ => c

/-- The characters that may stand after a backslash. -/
def isEscape (c : Char) : Bool :=
  c == '"' || c == '\\' || c == '/' || c == 'b' || c == 'f' || c == 'n' || c == 'r' ||
    c == 't' || c == 'u'

def isCloser (c : Char) : Bool := c == '}' || c == ']'

/-- Whether the next character that is not blank closes an object or a list. -/
def closesNext (t : List Char) : Bool := (t.find? fun c => !isBlank c).any isCloser

/-- The mended text, and whether it ends inside a string. -/
def mendFrom : (inString : Bool) → List Char → List Char × Bool
  | inString, [] => ([], inString)
  | true, '\\' :: n :: r =>
    if isEscape n then put ['\\', n] (mendFrom true r) else mendFrom true (n :: r)
  | true, c :: r =>
    if c = '\\' then mendFrom true r
    else if c = '"' then put ['"'] (mendFrom false r)
    else if c = '\n' then put ['\\', 'n'] (mendFrom true r)
    else if c = '\r' then put ['\\', 'r'] (mendFrom true r)
    else if c = '\t' then put ['\\', 't'] (mendFrom true r)
    else put [c] (mendFrom true r)
  | false, c :: r =>
    if c = '"' then put ['"'] (mendFrom true r)
    else if c = ',' ∧ closesNext r then mendFrom false r
    else put [c] (mendFrom false r)
where
  put (cs : List Char) (p : List Char × Bool) : List Char × Bool := (cs ++ p.1, p.2)

/-- Puts a quote in front of the closing brackets at the end of a text. -/
def closeString (t : List Char) : List Char :=
  let head := dropTail isCloser (trimEnd t)
  head ++ '"' :: t.drop head.length

def mendEscapes (t : List Char) : List Char :=
  match mendFrom false (t.map straighten) with
  | (out, true) => closeString out
  | (out, false) => out

end Mender.Reply
