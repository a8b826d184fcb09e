import Mender.Script.Types

/-!
Expressions and patterns.
-/

namespace Mender.Script

open Mender.Text

/-- An operand with the operators that follow it. -/
def exprRule (go : Rules) (noIn : Bool) : Reader Expr := do
  let e ← go .operand
  go (.operators noIn e)

/-- Expressions with commas between them. -/
def sequence (go : Rules) (noIn : Bool) : Reader Expr := do
  let e ← go (.expr noIn)
  if ← rest 500 then return .other else return e
where
  rest : Nat → Reader Bool
    | 0 => failLast
    | n + 1 => do
      if ← eat "," then
        let _ ← go (.expr noIn)
        let _ ← rest n
        return true
      else return false

/-- A body in braces. -/
def block (go : Rules) : Reader Unit := braced (go .statements)

/-- The body of an arrow function, after its arrow. -/
def arrowBody (go : Rules) : Reader Unit := do
  if ← isNext openBrace then block go
  else
    let _ ← go (.expr false)

/-- Signature and arrow of an arrow function. -/
def arrowHead (go : Rules) : Reader Unit := do
  signature go
  if (← ahead).2 then failLast
  expect "=>"

/-- What follows the word `function`. -/
def functionRest (go : Rules) : Reader Unit := do
  let _ ← eat "*"
  let _ ← optionalName
  signature go
  block go

/-- Name, type parameters, bases and body of a class, after the word `class`. -/
def classRest (go : Rules) : Reader (Option String) := do
  let w ← nextWord
  let n ← if w = "extends" ∨ w = "implements" then pure none else optionalName
  if ← isNext "<" then go .typeParameters
  if ← eatWord "extends" then
    let _ ← go .operand
    if ← isNext "<" then go .typeSuffixes
  if ← eatWord "implements" then interfaces 100
  braced (go .classMembers)
  return n
where
  interfaces : Nat → Reader Unit
    | 0 => pure ()
    | n + 1 => do
      go .type
      if ← eat "," then interfaces n

/-- Parentheses around an expression. -/
def group (go : Rules) : Reader Expr :=
  bracketed "(" do
    let commented := startsComment (← cursor).rest
    let e ← sequence go false
    annotation go
    closing ")"
    return .group (if commented then none else some e)

/-- The words that stand in front of an operand. -/
def operandWords : List String := ["typeof", "void", "delete", "await"]

/-- The word a name expression starts with. -/
def wordOperand (go : Rules) (t : List Char) : Reader Expr := do
  let w ← name
  let (r, lineEnd) ← ahead
  if operandWords.contains w then
    let _ ← go .operand
    return .other
  else if w = "yield" then
    let _ ← eat "*"
    unless lineEnd do
      let _ ← attempt (go (.expr false))
    return .other
  else if w = "new" then
    if ← eat "." then
      let _ ← name
    else
      let _ ← go .operand
      if ← isNext "<" then
        let _ ← attempt (do expect "<"; go (.typeList '>'))
    return .other
  else if w = "function" then
    functionRest go
    go (.suffixes t .other)
  else if w = "class" then
    let _ ← classRest go
    go (.suffixes t .other)
  else if startsWith ['=', '>'] r ∧ !lineEnd then
    expect "=>"
    arrowBody go
    return .other
  else if w = "async" ∧ !lineEnd then
    if ← eatWord "function" then
      functionRest go
      go (.suffixes t .other)
    else
      match ← attempt (do let _ ← name; expect "=>") with
      | some _ => arrowBody go; return .other
      | none =>
        match r with
        | '(' :: _ | '<' :: _ =>
          match ← attempt (arrowHead go) with
          | some _ => arrowBody go; return .other
          | none => go (.suffixes t .other)
        | _ => go (.suffixes t .other)
  else
    let p ← partSince t
    let e : Expr := match w with
      | "true" => .literal .true p
      | "false" => .literal .false p
      | "null" => .literal .null p
      | _ => .other
    go (.suffixes t e)

/-- An operand: prefix operators, a literal, a name, a function and the like, with what is
attached to it. -/
def operandRule (go : Rules) : Reader Expr := do
  let t ← next
  match t with
  | [] => failLast
  | '(' :: _ =>
    match ← attempt (arrowHead go) with
    | some _ => arrowBody go; return .other
    | none =>
      let e ← group go
      go (.suffixes t e)
  | '[' :: _ =>
    bracketed "[" (go (.elements ']'))
    go (.suffixes t (.literal .array (← partSince t)))
  | '{' :: _ =>
    braced (go .properties)
    go (.suffixes t (.literal .object (← partSince t)))
  | '<' :: _ =>
    match ← attempt (do go .typeParameters; arrowHead go) with
    | some _ => arrowBody go; return .other
    | none =>
      expect "<"
      go (.typeList '>')
      let _ ← go .operand
      return .other
  | '\x60' :: r =>
    take t r
    let _ ← go (.template true)
    go (.suffixes t (.literal .template (← partSince t)))
  | '+' :: '+' :: r | '-' :: '-' :: r =>
    take t r
    let _ ← go .operand
    return .other
  | '-' :: r =>
    take t r
    let _ ← go .operand
    return .literal .minus (← partSince t)
  | '+' :: r | '!' :: r | '~' :: r =>
    take t r
    let _ ← go .operand
    return .other
  | '#' :: r =>
    take t r
    let _ ← name
    return .other
  | '@' :: _ =>
    go .decorators
    expectWord "class"
    let _ ← classRest go
    return .other
  | _ =>
    match string? t, number? t, regex? t with
    | some r, _, _ =>
      take t r
      go (.suffixes t (.literal .string (← partSince t)))
    | none, some r, _ =>
      take t r
      go (.suffixes t (.literal .number (← partSince t)))
    | none, none, some r =>
      take t r
      go (.suffixes t .other)
    | none, none, none =>
      if (name? t).isSome then wordOperand go t else failLast

/-- Whether type arguments may end before a text when no call follows. -/
def endsInstantiation (t : List Char) : Bool :=
  match t with
  | [] => true
  | c :: _ => ")],;:.\x7d".toList.contains c

/-- Members, calls, indices and the like after an operand that began at `start`. -/
def suffixesRule (go : Rules) (start : List Char) (e : Expr) : Reader Expr := do
  let (t, lineEnd) ← ahead
  match t with
  | '?' :: '.' :: r =>
    if r.head?.any Char.isDigit then return e
    let callee ← partSince start
    take t r
    match ← next with
    | '(' :: _ =>
      bracketed "(" (go (.elements ')'))
      go (.suffixes start (.call callee))
    | '[' :: _ =>
      bracketed "[" (index)
      go (.suffixes start .other)
    | _ =>
      member
      go (.suffixes start .other)
  | '.' :: r =>
    if r.head?.any Char.isDigit then return e
    take t r
    member
    go (.suffixes start .other)
  | '[' :: _ =>
    bracketed "[" (index)
    go (.suffixes start .other)
  | '(' :: _ =>
    let callee ← partSince start
    bracketed "(" (go (.elements ')'))
    go (.suffixes start (.call callee))
  | '\x60' :: r =>
    let callee ← partSince start
    take t r
    let _ ← go (.template true)
    go (.suffixes start (.call callee))
  | '!' :: r =>
    if lineEnd ∨ r.head? = some '=' then return e
    take t r
    go (.suffixes start .other)
  | '+' :: '+' :: r | '-' :: '-' :: r =>
    if lineEnd then return e
    take t r
    return .other
  | '<' :: _ =>
    let callee ← partSince start
    match ← attempt typeArguments with
    | some true =>
      bracketed "(" (go (.elements ')'))
      go (.suffixes start (.call callee))
    | some false => go (.suffixes start .other)
    | none => return e
  | _ => return e
where
  index : Reader Unit := do
    let _ ← sequence go false
    closing "]"
  member : Reader Unit := do
    let _ ← eat "#"
    let _ ← name
  typeArguments : Reader Bool := do
    expect "<"
    if ← isNext "<" then failLast
    go (.typeList '>')
    let (t, lineEnd) ← ahead
    match t with
    | '(' :: _ => return true
    | '\x60' :: _ => return false
    | _ => if endsInstantiation t ∨ lineEnd then return false else failLast

/-- What follows the question mark of a condition. Parentheses in front of a colon may look
like the start of an arrow function that is none. -/
def alternatives (go : Rules) (noIn : Bool) : Reader Unit := do
  let t ← next
  let arms : Reader Unit := do
    let _ ← go (.expr false)
    expect ":"
    let _ ← go (.expr noIn)
  match t with
  | '(' :: _ =>
    if (← attempt arms).isNone then
      let e ← group go
      let e ← go (.suffixes t e)
      let _ ← go (.operators false e)
      expect ":"
      let _ ← go (.expr noIn)
  | _ => arms

/-- The operators after an operand, with their other operands. -/
def operatorsRule (go : Rules) (noIn : Bool) (e : Expr) : Reader Expr := do
  let (t, lineEnd) ← ahead
  if lineEnd ∧ (startsWith ['+', '+'] t ∨ startsWith ['-', '-'] t) then return e
  match t with
  | '?' :: r =>
    if (infixOperator? t).isNone ∨ !startsWith ['?', '?'] t then
      take t r
      alternatives go noIn
      go (.operators noIn .other)
    else infixRest t
  | _ => infixRest t
where
  infixRest (t : List Char) : Reader Expr := do
    match infixOperator? t with
    | some r =>
      take t r
      let _ ← go .operand
      go (.operators noIn .other)
    | none =>
      let w ← nextWord
      let (_, lineEnd) ← ahead
      if w = "instanceof" ∨ (w = "in" ∧ !noIn) then
        let _ ← eatWord w
        let _ ← go .operand
        go (.operators noIn .other)
      else if (w = "as" ∨ w = "satisfies") ∧ !lineEnd then
        let _ ← eatWord w
        unless ← eatWord "const" do go .type
        go (.operators noIn .other)
      else return e

/-- Expressions up to a closing bracket; some may be spread and some left out. -/
def elementsRule (go : Rules) (close : Char) : Reader Unit := do
  if ← eat close.toString then return
  if ← eat "," then go (.elements close)
  else
    let _ ← eat "..."
    let _ ← go (.expr false)
    if ← eat "," then go (.elements close) else closing close.toString

/-- The properties of an object up to its closing brace. -/
def propertiesRule (go : Rules) : Reader Unit := do
  if ← eat closeBrace then return
  if ← eat "..." then
    let _ ← go (.expr false)
  else
    modifiers 4
    memberName go
    match ← next with
    | '(' :: _ | '<' :: _ =>
      signature go
      block go
    | ':' :: _ =>
      expect ":"
      let _ ← go (.expr false)
    | '=' :: _ =>
      expect "="
      let _ ← go (.expr false)
    | _ => pure ()
  if ← comma '}' then go .properties else closing closeBrace

/-- A template up to its closing quote; the answer is whether nothing is put into it. -/
def templateRule (go : Rules) (plain : Bool) : Reader Bool := do
  let c ← cursor
  match chunk c.rest with
  | none => failLast
  | some (true, r) =>
    take c.rest r
    return plain
  | some (false, r) =>
    take c.rest r
    let _ ← sequence go false
    expect closeBrace
    go (.template false)
where
  /-- The text after the next closing quote, or after the next `$` with a brace. -/
  chunk : List Char → Option (Bool × List Char)
    | [] => none
    | '\\' :: _ :: r => chunk r
    | '$' :: '{' :: r => some (false, r)
    | c :: r => if c = '\x60' then some (true, r) else chunk r

/-! ### Patterns -/

def patternRule (go : Rules) : Reader Pattern := do
  let t ← next
  match t with
  | '{' :: _ => return .object (← braced (go .patternFields))
  | '[' :: _ => return .array (← bracketed "[" (go .patternItems))
  | _ => return .name (← name)

/-- A pattern with the value it takes when there is none. -/
def patternDefault (go : Rules) : Reader Pattern := do
  let p ← go .pattern
  if ← eat "=" then return .withDefault p (← go (.expr false))
  return p

def patternItemsRule (go : Rules) : Reader (List Pattern) := do
  if ← eat "]" then return []
  if ← eat "," then go .patternItems
  else
    let p ← if ← eat "..." then (do return .rest (← go .pattern)) else patternDefault go
    if ← comma ']' then return p :: (← go .patternItems)
    closing "]"
    return [p]

/-- A key as it is written. -/
def patternKey (go : Rules) : Reader Part := do
  let t ← next
  memberName go
  partSince t

def patternFieldsRule (go : Rules) : Reader (List Field) := do
  if ← eat closeBrace then return []
  let f ← field
  if ← comma '}' then return f :: (← go .patternFields)
  closing closeBrace
  return [f]
where
  field : Reader Field := do
    if ← eat "..." then return .rest (← go .pattern)
    let key ← patternKey go
    if ← eat ":" then return .pair key (← patternDefault go)
    if ← eat "=" then return .shortDefault key.text (← go (.expr false))
    return .short key.text

end Mender.Script
