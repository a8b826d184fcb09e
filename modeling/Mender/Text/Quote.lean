/-!
Quotes around a text.

The three quotes are the double, the single and the back quote.
-/

namespace Mender.Text

def isQuote (c : Char) : Bool := c == '"' || c == '\'' || c == '\x60'

/-- A text without the quotes around it, if it has both. -/
def unquote (t : List Char) : List Char :=
  match t with
  | c :: r =>
    match r.getLast? with
    | some d => if isQuote c && isQuote d then r.dropLast else t
    | none => t
  | [] => []

end Mender.Text
