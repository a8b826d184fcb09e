import Mender.Script.Grammar

/-!
Type annotations. They are read only to find where they end.
-/

namespace Mender.Script

/-- The words that may stand in front of a type. -/
def typeOperators : List String := ["keyof", "typeof", "unique", "readonly", "infer", "asserts"]

/-- Whether a text can go on after a word that is meant as a type of its own. -/
def endsTypeWord (t : List Char) : Bool :=
  match t with
  | [] => true
  | c :: _ => !(isNameStart c) && c != '{' && c != '(' && c != '"' && c != '\'' && !c.isDigit

/-- A type with its unions, its condition or its predicate. A type that is inferred may have a
bound in place of a condition. -/
def typeRule (go : Rules) : Reader Unit := do
  let _ ← eat "|"
  let _ ← eat "&"
  go .typeOperand
  unions 1000
  let w ← nextWord
  if w = "extends" then
    let _ ← eatWord w
    go .type
    if ← eat "?" then
      go .type
      expect ":"
      go .type
  else if w = "is" ∧ !(← ahead).2 then
    let _ ← eatWord w
    go .type
where
  unions : Nat → Reader Unit
    | 0 => pure ()
    | n + 1 => do
      if ← isNext "||" then return
      if ← isNext "&&" then return
      if (← eat "|") || (← eat "&") then
        go .typeOperand
        unions n

/-- The rest of a function type after its type parameters. -/
def functionType (go : Rules) : Reader Unit := do
  go .parameters
  expect "=>"
  go .type

def typeOperandRule (go : Rules) : Reader Unit := do
  let t ← next
  match t with
  | [] => failLast
  | '(' :: _ =>
    if (← attempt (functionType go)).isNone then
      expect "("
      go .type
      closing ")"
      go .typeSuffixes
  | '<' :: _ =>
    go .typeParameters
    functionType go
  | '[' :: _ =>
    bracketed "[" (go (.typeList ']'))
    go .typeSuffixes
  | '{' :: _ =>
    braced (go .typeMembers)
    go .typeSuffixes
  | '\x60' :: r =>
    take t r
    let _ ← go (.template true)
    go .typeSuffixes
  | '-' :: r =>
    take t r
    go .typeOperand
  | _ =>
    match string? t, number? t with
    | some r, _ => take t r; go .typeSuffixes
    | none, some r => take t r; go .typeSuffixes
    | none, none =>
      let w ← name
      let (r, lineEnd) ← ahead
      if w = "new" then
        if r.head? = some '<' then go .typeParameters
        functionType go
      else if w = "abstract" ∧ (← nextWord) = "new" then
        let _ ← eatWord "new"
        if (← next).head? = some '<' then go .typeParameters
        functionType go
      else if w = "import" ∧ r.head? = some '(' then
        bracketed "(" (go (.elements ')'))
        go .typeSuffixes
      else if typeOperators.contains w ∧ !lineEnd ∧ !endsTypeWord r then
        go .typeOperand
      else go .typeSuffixes

/-- Members, type arguments and brackets after a type. -/
def typeSuffixesRule (go : Rules) : Reader Unit := do
  let (t, lineEnd) ← ahead
  match t with
  | '.' :: r =>
    take t r
    let _ ← name
    go .typeSuffixes
  | '<' :: r =>
    take t r
    go (.typeList '>')
    go .typeSuffixes
  | '[' :: _ =>
    unless lineEnd do
      bracketed "[" (go (.typeList ']'))
      go .typeSuffixes
  | _ => pure ()

/-- Types up to a closing bracket: the elements of a tuple, the arguments of a type, or the
index of an indexed type. -/
def typeListRule (go : Rules) (close : Char) : Reader Unit := do
  if ← eat close.toString then return
  let _ ← eat "..."
  if (← attempt label).isNone then pure ()
  go .type
  let _ ← eat "?"
  if ← comma close then go (.typeList close) else closing close.toString
where
  label : Reader Unit := do
    let _ ← name
    let _ ← eat "?"
    expect ":"

/-- The words that may stand in front of a member's name. -/
def memberWords : List String :=
  ["readonly", "static", "abstract", "declare", "override", "public", "private", "protected",
    "accessor", "async", "get", "set", "const", "in", "out"]

/-- Whether a word that could stand in front of a name is the name itself. -/
def endsMemberWord (t : List Char) : Bool :=
  match t with
  | [] => true
  | c :: _ => "()=;:?!<,\x7d>".toList.contains c

/-- The words in front of a member's name. -/
def modifiers : Nat → Reader Unit
  | 0 => pure ()
  | n + 1 => do
    if ← eat "*" then modifiers n
    else
      let w ← nextWord
      if memberWords.contains w then
        match ← lookPast name with
        | some (r, _) =>
          unless endsMemberWord r do
            let _ ← eatWord w
            modifiers n
        | none => pure ()

/-- A member's name: a word, a literal, a private name or an expression in brackets. The
brackets may also hold the name of an index with its type. -/
def memberName (go : Rules) : Reader Unit := do
  let t ← next
  match t with
  | '[' :: r =>
    take t r
    let _ ← go (.expr false)
    if ← eat ":" then go .type
    closing "]"
  | '#' :: r =>
    take t r
    let _ ← name
  | _ =>
    match string? t, number? t with
    | some r, _ => take t r
    | none, some r => take t r
    | none, none => let _ ← name

/-- An optional type annotation. -/
def annotation (go : Rules) : Reader Unit := do
  if ← eat ":" then go .type

/-- Type parameters, parameters and result type of a function. -/
def signature (go : Rules) : Reader Unit := do
  if ← isNext "<" then go .typeParameters
  go .parameters
  annotation go

/-- The members of an object type up to its closing brace. -/
def typeMembersRule (go : Rules) : Reader Unit := do
  if ← eat closeBrace then return
  if (← eat ";") || (← eat ",") then go .typeMembers
  else
    member
    let (t, lineEnd) ← ahead
    match t with
    | ';' :: _ | ',' :: _ | '}' :: _ => go .typeMembers
    | _ => if lineEnd then go .typeMembers else failNext
where
  member : Reader Unit := do
    let _ ← eat "+"
    let _ ← eat "-"
    let t ← next
    match t with
    | '(' :: _ | '<' :: _ => signature go
    | _ =>
      modifiers 8
      if (← nextWord) = "new" then
        match ← lookPast name with
        | some ('(' :: _, _) | some ('<' :: _, _) =>
          let _ ← name
          signature go
        | _ => named
      else named
  named : Reader Unit := do
    match ← lookPast (do expect "["; name) with
    | some ('i' :: 'n' :: r, _) => if r.head?.any isNameChar then memberName go else index
    | _ => memberName go
    let _ ← eat "+"
    let _ ← eat "-"
    let _ ← eat "?"
    match ← next with
    | '(' :: _ | '<' :: _ => signature go
    | _ => annotation go
  index : Reader Unit := do
    expect "["
    let _ ← name
    let _ ← eatWord "in"
    go .type
    if ← eatWord "as" then go .type
    closing "]"

/-- Type parameters with their angle brackets. -/
def typeParametersRule (go : Rules) : Reader Unit := do
  expect "<"
  items 200
where
  items : Nat → Reader Unit
    | 0 => failLast
    | n + 1 => do
      if ← eat ">" then return
      modifiers 8
      let _ ← name
      if ← eatWord "extends" then go .type
      unless ← isNext "=>" do
        if ← eat "=" then go .type
      if ← eat "," then items n else expect ">"

/-- Parameters with their parentheses. -/
def parametersRule (go : Rules) : Reader Unit := do
  expect "("
  items 500
where
  items : Nat → Reader Unit
    | 0 => failLast
    | n + 1 => do
      if ← eat ")" then return
      go .decorators
      modifiers 8
      let _ ← eat "..."
      let _ ← go .pattern
      let _ ← eat "?"
      annotation go
      unless ← isNext "=>" do
        if ← eat "=" then
          let _ ← go (.expr false)
      if ← eat "," then items n else expect ")"

end Mender.Script
