/-!
Text as HTML content and as a double-quoted attribute value.
-/

namespace Mender.Markup

/-- The characters that have an entity, with its name. -/
def entity? (c : Char) : Option String :=
  match c with
  | '&' => some "&amp;"
  | '<' => some "&lt;"
  | '>' => some "&gt;"
  | '"' => some "&quot;"
  | '\'' => some "&#39;"
  | _ => none

def escapeChar (c : Char) : List Char :=
  match entity? c with
  | some e => e.toList
  | none => [c]

def escape (t : List Char) : List Char := t.flatMap escapeChar

def escapeText (s : String) : String := String.ofList (escape s.toList)

end Mender.Markup
