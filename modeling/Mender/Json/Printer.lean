import Mender.Json.Basic

/-!
The compact text of a JSON value.

No blanks are written. In strings a quote, a backslash and the control characters are
escaped, the latter by their short form where there is one, and all else stands for itself.
-/

namespace Mender.Json

/-- The lower-case hexadecimal digit of a number below 16. -/
def hexDigit (n : Nat) : Char := if n < 10 then Char.ofNat (48 + n) else Char.ofNat (87 + n)

def escapeChar (c : Char) : List Char :=
  if c = '"' then ['\\', '"']
  else if c = '\\' then ['\\', '\\']
  else if c = '\n' then ['\\', 'n']
  else if c = '\r' then ['\\', 'r']
  else if c = '\t' then ['\\', 't']
  else if c.toNat = 8 then ['\\', 'b']
  else if c.toNat = 12 then ['\\', 'f']
  else if c.toNat < 32 then
    ['\\', 'u', '0', '0', hexDigit (c.toNat / 16), hexDigit (c.toNat % 16)]
  else [c]

def quote (t : List Char) : List Char := '"' :: t.flatMap escapeChar ++ ['"']

def intText : Int → List Char
  | .ofNat n => Nat.toDigits 10 n
  | .negSucc n => '-' :: Nat.toDigits 10 (n + 1)

mutual

def print : Json → List Char
  | .null => ['n', 'u', 'l', 'l']
  | .bool true => ['t', 'r', 'u', 'e']
  | .bool false => ['f', 'a', 'l', 's', 'e']
  | .int i => intText i
  | .real x => x.text
  | .str s => quote s.toList
  | .arr [] => ['[', ']']
  | .arr (x :: xs) => '[' :: print x ++ printItems xs
  | .obj [] => ['{', '}']
  | .obj (e :: es) => '{' :: printField e ++ printFields es

/-- The elements after the first, and the closing bracket. -/
def printItems : List Json → List Char
  | [] => [']']
  | x :: xs => ',' :: print x ++ printItems xs

def printField : String × Json → List Char
  | (k, v) => quote k.toList ++ ':' :: print v

/-- The fields after the first, and the closing brace. -/
def printFields : List (String × Json) → List Char
  | [] => ['}']
  | e :: es => ',' :: printField e ++ printFields es

end

def compact (j : Json) : String := String.ofList (print j)

end Mender.Json

/-- A text as a double-quoted literal. -/
def Mender.quoted (s : String) : String := String.ofList (Mender.Json.quote s.toList)
