import Mender.Script.Expressions

/-!
Statements, with the members of classes and enumerations.
-/

namespace Mender.Script

open Mender.Text

/-- Whether a text begins with what a name could be. -/
def startsName (t : List Char) : Bool :=
  match t with
  | c :: _ => isNameStart c || c == '\\'
  | [] => false

/-- What comes behind the next word. -/
def pastWord : Reader (List Char × Bool) := do
  return (← lookPast name).getD ([], true)

/-- The word a text begins with. -/
def firstWord (t : List Char) : String :=
  String.ofList ((name? t).elim [] Prod.fst)

/-- Whether a statement that could end before a line end goes on with this text behind it. -/
def goesOn (t : List Char) : Bool :=
  match t with
  | [] => false
  | '.' :: r => !(r.head?.any Char.isDigit)
  | '+' :: r => r.head? != some '+'
  | '-' :: r => r.head? != some '-'
  | '!' :: r => r.head? == some '='
  | c :: _ => "\x60,:;*%><=[(?^|&/".toList.contains c || firstWord t == "in" || firstWord t == "instanceof"

/-- An expression in parentheses, as it stands behind `if` and the like. -/
def parenthesized (go : Rules) : Reader Unit :=
  bracketed "(" do
    let _ ← sequence go false
    closing ")"

/-! ### Variables -/

/-- What a variable starts with. Where the value is left out, the fault is the equals sign. -/
def firstValue (go : Rules) (noIn : Bool) : Reader (Option Expr) := do
  let t ← next
  match t with
  | '=' :: r =>
    take t r
    match ← next with
    | [] | ';' :: _ | ',' :: _ => report t.length; return none
    | _ => return some (← go (.expr noIn))
  | _ => return none

def declaratorsRule (go : Rules) : Reader (List Declarator) := do
  let p ← go .pattern
  let _ ← eat "!"
  annotation go
  let v ← firstValue go false
  if ← eat "," then return ⟨p, v⟩ :: (← go .declarators)
  return [⟨p, v⟩]

/-- Bindings behind the word that introduces them. -/
def bindings (go : Rules) : Reader Declaration := do
  let ds ← go .declarators
  semicolon
  return .bindings ds

/-! ### Declarations -/

/-- A function behind the word `function`; one without a body is a signature. -/
def functionDeclaration (go : Rules) : Reader Declaration := do
  let _ ← eat "*"
  let n ← name
  signature go
  if ← isNext openBrace then
    block go
    return .named n
  semicolon
  return .silent

def classDeclaration (go : Rules) : Reader Declaration := do
  match ← classRest go with
  | some n => return .named n
  | none => failLast

def interfaceDeclaration (go : Rules) : Reader Declaration := do
  let _ ← name
  if ← isNext "<" then go .typeParameters
  if ← eatWord "extends" then bases 100
  braced (go .typeMembers)
  return .typeOnly
where
  bases : Nat → Reader Unit
    | 0 => pure ()
    | n + 1 => do
      go .type
      if ← eat "," then bases n

def typeAlias (go : Rules) : Reader Declaration := do
  let _ ← name
  if ← isNext "<" then go .typeParameters
  expect "="
  go .type
  semicolon
  return .typeOnly

def enumeration (go : Rules) : Reader Declaration := do
  let _ ← name
  braced (go .enumMembers)
  return .silent

/-- Names with dots between them. -/
def dotted : Nat → Reader Unit
  | 0 => pure ()
  | n + 1 => do
    let _ ← name
    if ← eat "." then dotted n

/-- A namespace or module behind its first word. -/
def moduleDeclaration (go : Rules) : Reader Declaration := do
  let t ← next
  match string? t with
  | some r => take t r
  | none => dotted 100
  if ← isNext openBrace then block go else semicolon
  return .silent

/-- The words that stand between two operands. -/
def infixWords : List String := ["in", "instanceof", "as", "satisfies"]

/-- A declaration, unless the next word only looks like the start of one. -/
def declaration? (go : Rules) : Reader (Option Declaration) := do
  let w ← nextWord
  let (r, lineEnd) ← pastWord
  let near := startsName r && !lineEnd
  let named := near && !infixWords.contains (firstWord r)
  if w = "var" then
    let _ ← name
    return some (← bindings go)
  else if w = "const" then
    let _ ← name
    if ← eatWord "enum" then return some (← enumeration go)
    return some (← bindings go)
  else if w = "let" ∧ (near ∨ (!lineEnd ∧ (r.head? = some '[' ∨ r.head? = some '{'))) then
    let _ ← name
    return some (← bindings go)
  else if w = "function" then
    let _ ← name
    return some (← functionDeclaration go)
  else if w = "async" ∧ named ∧ firstWord r = "function" then
    let _ ← name
    let _ ← name
    return some (← functionDeclaration go)
  else if w = "class" then
    let _ ← name
    return some (← classDeclaration go)
  else if w = "abstract" ∧ firstWord r = "class" then
    let _ ← name
    let _ ← name
    return some (← classDeclaration go)
  else if w = "interface" ∧ startsName r then
    let _ ← name
    return some (← interfaceDeclaration go)
  else if w = "enum" ∧ startsName r then
    let _ ← name
    return some (← enumeration go)
  else if w = "type" ∧ named then
    let _ ← name
    return some (← typeAlias go)
  else if (w = "namespace" ∧ named) ∨ (w = "module" ∧ !lineEnd ∧ (named ∨ (string? r).isSome)) then
    let _ ← name
    return some (← moduleDeclaration go)
  else if w = "declare" ∧ named then
    let _ ← name
    declared
    return some .silent
  else return none
where
  declared : Reader Unit := do
    if ← eatWord "global" then block go
    else
      let _ ← go .statement

/-! ### Imports -/

/-- A string literal that names a module. -/
def moduleText : Reader Part := do
  let t ← next
  match string? t with
  | some r =>
    take t r
    partSince t
  | none => failLast

/-- A name under which a module offers something; it may be a string. -/
def offeredName : Reader Part := do
  let t ← next
  if (string? t).isSome then return (← moduleText)
  let _ ← name
  partSince t

/-- Whether the word `type` that comes next only marks the name behind it. -/
def marksName : Reader Bool := do
  let (r, _) ← pastWord
  return (startsName r && firstWord r != "as") || (string? r).isSome

/-- A name of an import list behind the word that marks it. -/
def namedImport (typeOnly : Bool) : Reader ImportedName := do
  let n ← offeredName
  if ← eatWord "as" then return ⟨typeOnly, n, some (← name)⟩
  return ⟨typeOnly, n, none⟩

def importedName : Reader ImportedName := do
  let w ← nextWord
  let typeOnly ← if w = "type" then marksName else pure false
  if typeOnly ∨ w = "typeof" then
    let _ ← name
  namedImport typeOnly

def importNamesRule (go : Rules) : Reader (List ImportedName) := do
  if ← eat closeBrace then return []
  let n ← importedName
  if ← comma '}' then return n :: (← go .importNames)
  closing closeBrace
  return [n]

/-- Whether the next word marks an import of types; it could also be a name that is bound. -/
def marksTypes : Reader Bool := do
  let w ← nextWord
  unless w == "type" || w == "typeof" do return false
  let (r, _) ← pastWord
  match r with
  | ',' :: _ | '=' :: _ => return false
  | _ =>
    if firstWord r = "from" then
      match ← lookPast (do let _ ← name; let _ ← name) with
      | some (s, _) => return (string? s).isNone
      | none => return true
    return true

/-- The module that names come from, and the attributes behind it. -/
def origin (go : Rules) : Reader Part := do
  let q ← moduleText
  if (← eatWord "with") || (← eatWord "assert") then braced (go .properties)
  return q

/-- The end of an import from the word `from` on. -/
def importOrigin (go : Rules) (i : Import) : Reader Form := do
  expectWord "from"
  let q ← origin go
  semicolon
  return .imports { i with source := some q }

/-- What an import binds besides a default. -/
def importBindings (go : Rules) (i : Import) : Reader Form := do
  if ← eat "*" then
    expectWord "as"
    importOrigin go { i with whole := some (← name) }
  else importOrigin go { i with names := ← braced (go .importNames) }

/-- What follows the equals sign of an import. -/
def importEquals (typeOnly : Bool) : Reader Form := do
  if ← eatWord "require" then
    bracketed "(" (do let _ ← moduleText; closing ")")
    semicolon
    return .imports { typeOnly, source := none }
  dotted 100
  semicolon
  return .other

/-- An import behind the words that introduce it. -/
def importClause (go : Rules) (typeOnly : Bool) : Reader Form := do
  let first ← optionalName
  if first.isSome && (← eat "=") then importEquals typeOnly
  else
    let more ← if first.isSome then eat "," else pure true
    let i : Import := { typeOnly, source := none, default := first }
    if more then importBindings go i else importOrigin go i

/-- An import behind its first word. -/
def importStatement (go : Rules) : Reader Form := do
  if (string? (← next)).isSome then
    let q ← origin go
    semicolon
    return .imports { typeOnly := false, source := some q }
  let marked ← marksTypes
  let w ← nextWord
  if marked then
    let _ ← name
  importClause go (marked && w == "type")

/-! ### Exports -/

def exportNamesRule (go : Rules) : Reader (List ExportedName) := do
  if ← eat closeBrace then return []
  let n ← exportedName
  if ← comma '}' then return n :: (← go .exportNames)
  closing closeBrace
  return [n]
where
  exportedName : Reader ExportedName := do
    let w ← nextWord
    if w = "type" ∨ w = "typeof" then
      let _ ← name
    let n ← offeredName
    if ← eatWord "as" then return ⟨w == "type", n, some (← offeredName)⟩
    return ⟨w == "type", n, none⟩

/-- Whether the text behind the word `class` names the class. -/
def namesClass (t : List Char) : Bool :=
  startsName t && firstWord t != "extends" && firstWord t != "implements"

/-- Whether what follows `default` is a declaration and not an expression. -/
def declaresDefault : Reader Bool := do
  let w ← nextWord
  let (r, lineEnd) ← pastWord
  if w = "function" then return namesFunction r
  else if w = "async" ∧ firstWord r = "function" ∧ !lineEnd then
    match ← lookPast (do let _ ← name; let _ ← name) with
    | some (s, _) => return namesFunction s
    | none => return false
  else if w = "class" then return namesClass r
  else if w = "abstract" then return firstWord r == "class"
  else if w = "interface" then return startsName r && !lineEnd
  else return ["const", "var", "enum"].contains w
where
  namesFunction (t : List Char) : Bool :=
    match t with
    | '*' :: r => startsName (skipGap .blank false r).1
    | _ => startsName t

/-- A declaration that is exported, with decorators that may stand between. -/
def exportedDeclaration (go : Rules) (isDefault : Bool) : Reader Export := do
  let start ← next
  go .decorators
  match ← declaration? go with
  | some d => return .declaration d (← partSince start).extent isDefault
  | none => failLast

def exportDefault (go : Rules) : Reader Export := do
  let start ← next
  if ← declares then exportedDeclaration go true
  else
    let _ ← go (.expr false)
    let p ← partSince start
    semicolon
    return .value p.extent
where
  declares : Reader Bool := do
    if ← isNext "@" then
      match ← lookPast (do go .decorators; name) with
      | some (r, _) => return namesClass r
      | none => return true
    else declaresDefault

/-- Whether an export may go on with this text; otherwise its first word is a name. -/
def startsExport (t : List Char) : Bool :=
  startsName t || t.head?.any ['*', '{', '=', '@'].contains

/-- An export behind its first word. -/
def exportStatement (go : Rules) : Reader Export := do
  let t ← next
  let w ← nextWord
  let (r, _) ← pastWord
  match t with
  | '*' :: rest =>
    take t rest
    if ← eatWord "as" then
      let n ← offeredName
      return .whole n (← source)
    return .all (← source)
  | '{' :: _ =>
    let ns ← braced (go .exportNames)
    if (← nextWord) = "from" then return .names ns (some (← source))
    semicolon
    return .names ns none
  | '=' :: rest =>
    take t rest
    let _ ← sequence go false
    semicolon
    return .unsupported
  | _ =>
    if w = "as" ∧ firstWord r = "namespace" then
      let _ ← name
      let _ ← name
      let _ ← name
      semicolon
      return .unsupported
    else if w = "type" ∧ (r.head? = some '{' ∨ r.head? = some '*') then
      let _ ← name
      if ← eat "*" then
        if ← eatWord "as" then
          let _ ← offeredName
      else
        let _ ← braced (go .exportNames)
      if ← eatWord "from" then
        let _ ← moduleText
      semicolon
      return .typeOnly
    else if w = "default" then
      let _ ← name
      exportDefault go
    else if w = "import" then
      let _ ← name
      let _ ← name
      expect "="
      dotted 100
      semicolon
      return .declaration .silent (← partSince t).extent false
    else exportedDeclaration go false
where
  source : Reader Part := do
    expectWord "from"
    let q ← moduleText
    semicolon
    return q

/-! ### Members of classes and enumerations -/

/-- The members of a class up to its closing brace. -/
def classMembersRule (go : Rules) : Reader Unit := do
  if ← eat closeBrace then return
  if ← eat ";" then go .classMembers
  else
    go .decorators
    modifiers 8
    if ← isNext openBrace then block go else member
    go .classMembers
where
  member : Reader Unit := do
    memberName go
    unless ← eat "?" do
      let _ ← eat "!"
    match ← next with
    | '(' :: _ | '<' :: _ =>
      signature go
      if ← isNext openBrace then block go else semicolon
    | _ =>
      annotation go
      let _ ← firstValue go false
      semicolon

/-- The members of an enumeration up to its closing brace. -/
def enumMembersRule (go : Rules) : Reader Unit := do
  if ← eat closeBrace then return
  memberName go
  let _ ← firstValue go false
  if ← comma '}' then go .enumMembers else closing closeBrace

def decoratorsRule (go : Rules) : Reader Unit := do
  if ← eat "@" then
    let _ ← go .operand
    go .decorators

/-! ### Statements -/

/-- Statements up to a closing brace. -/
def statementsRule (go : Rules) : Reader Unit := do
  unless ← eat closeBrace do
    if (← next).isEmpty then failLast
    let _ ← go .statement
    go .statements

/-- The cases of a `switch` up to its closing brace. -/
def casesRule (go : Rules) : Reader Unit := do
  unless ← eat closeBrace do
    if (← next).isEmpty then failLast
    if ← eatWord "case" then
      let _ ← sequence go false
      expect ":"
    else if ← eatWord "default" then expect ":"
    else
      let _ ← go .statement
    go .cases

/-- What the parentheses behind `for` hold, with the closing one. -/
def forHeader (go : Rules) : Reader Unit := do
  if ← eat ";" then counted
  else
    let w ← nextWord
    let (r, _) ← pastWord
    if w = "var" ∨ w = "const" ∨ (w = "let" ∧ (startsName r ∨ r.head? = some '[' ∨ r.head? = some '{')) then
      let _ ← name
      let _ ← go .pattern
      annotation go
      unless ← overItems do
        let _ ← firstValue go true
        if ← eat "," then
          let _ ← go .declarators
        expect ";"
        counted
    else
      let _ ← sequence go true
      unless ← overItems do
        expect ";"
        counted
where
  overItems : Reader Bool := do
    if (← eatWord "of") || (← eatWord "in") then
      let _ ← sequence go false
      expect ")"
      return true
    return false
  counted : Reader Unit := do
    unless ← isNext ";" do
      let _ ← sequence go false
    expect ";"
    unless ← isNext ")" do
      let _ ← sequence go false
    expect ")"

/-- A statement in the place of one, whatever it declares. -/
def substatement (go : Rules) : Reader Unit := do
  let _ ← go .statement

/-- A statement that its first word introduces, if it is such a word. -/
def wordStatement? (go : Rules) (w : String) : Reader (Option Unit) := do
  if w = "if" then
    let _ ← name
    parenthesized go
    substatement go
    if ← eatWord "else" then substatement go
    return some ()
  else if w = "for" then
    let _ ← name
    let _ ← eatWord "await"
    bracketed "(" (forHeader go)
    substatement go
    return some ()
  else if w = "while" ∨ w = "with" then
    let _ ← name
    parenthesized go
    substatement go
    return some ()
  else if w = "do" then
    let _ ← name
    substatement go
    expectWord "while"
    parenthesized go
    let _ ← eat ";"
    return some ()
  else if w = "switch" then
    let _ ← name
    parenthesized go
    braced (go .cases)
    return some ()
  else if w = "try" then
    let _ ← name
    block go
    if ← eatWord "catch" then
      if ← isNext "(" then
        bracketed "(" do
          let _ ← go .pattern
          annotation go
          closing ")"
      block go
    if ← eatWord "finally" then block go
    return some ()
  else if w = "return" ∨ w = "throw" then
    let _ ← name
    let (t, lineEnd) ← ahead
    unless lineEnd ∨ t.isEmpty ∨ t.head? = some ';' ∨ t.head? = some '}' do
      let _ ← sequence go false
    semicolon
    return some ()
  else if w = "break" ∨ w = "continue" ∨ w = "debugger" then
    let _ ← name
    unless (← ahead).2 do
      let _ ← optionalName
    semicolon
    return some ()
  else return none

def expressionStatement (go : Rules) : Reader Unit := do
  match ← pastWord with
  | (':' :: _, _) =>
    let _ ← name
    expect ":"
    substatement go
  | _ =>
    let _ ← sequence go false
    semicolon

def statementRule (go : Rules) : Reader Form := do
  let t ← next
  match t with
  | [] | '}' :: _ => failNext
  | '{' :: _ =>
    block go
    return .other
  | ';' :: r =>
    take t r
    return .other
  | '@' :: _ =>
    go .decorators
    if ← eatWord "export" then return .exports (← exportStatement go)
    match ← declaration? go with
    | some d => return .declares d
    | none => failLast
  | _ =>
    let w ← nextWord
    let (r, lineEnd) ← pastWord
    if w = "import" ∧ r.head? ≠ some '(' ∧ r.head? ≠ some '.' then
      let _ ← name
      importStatement go
    else if w = "export" ∧ startsExport r ∧ (!lineEnd ∨ goesOn r) then
      let _ ← name
      return .exports (← exportStatement go)
    else
      match ← wordStatement? go w with
      | some _ => return .other
      | none =>
        match ← declaration? go with
        | some d => return .declares d
        | none =>
          expressionStatement go
          return .other

end Mender.Script
