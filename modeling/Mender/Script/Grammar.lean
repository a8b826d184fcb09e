import Mender.Script.Lexeme
import Mender.Script.Tree

/-!
Reading a script piece by piece.

What is read are the signs of a script. A reader stands behind the last lexeme it took, and it
never goes back. The grammar is given rule by rule, each rule in terms of a way to read the other
rules' goals; tying them together is left to the end. Places are kept as the number of signs
still to come.
-/

namespace Mender.Script

open Mender.Text

/-- Where a reader stands: the signs to come, the signs from the last lexeme on, and the first fault
that was passed over. -/
structure Cursor where
  rest : List Char
  lately : List Char
  fault : Option Nat
  inside : rest <:+ lately

namespace Cursor

/-- The second cursor stands where the first one stands or behind it. -/
structure Leads (c d : Cursor) : Prop where
  rest : d.rest <:+ c.rest
  lately : d.lately <:+ c.lately

theorem Leads.refl (c : Cursor) : c.Leads c := ⟨List.suffix_refl _, List.suffix_refl _⟩

theorem Leads.trans {c d e : Cursor} (h : c.Leads d) (h' : d.Leads e) : c.Leads e :=
  ⟨h'.rest.trans h.rest, h'.lately.trans h.lately⟩

/-- At the start of some signs. -/
def atStart (t : List Char) : Cursor := ⟨t, t, none, List.suffix_refl t⟩

/-- The last signs of a text, as many as another text has. -/
def lastOf (t s : List Char) : List Char := t.drop (t.length - s.length)

/-- Behind the lexeme between two ends of what is to come. -/
def take (c : Cursor) (start rest : List Char) : Cursor where
  lately := lastOf c.rest start
  rest := lastOf (lastOf c.rest start) rest
  fault := c.fault
  inside := List.drop_suffix _ _

theorem leads_take (c : Cursor) (start rest : List Char) : c.Leads (c.take start rest) :=
  ⟨(List.drop_suffix _ _).trans (List.drop_suffix _ _), (List.drop_suffix _ _).trans c.inside⟩

end Cursor

/-- Fails with the number of signs from the fault on. -/
structure Reader (α : Type) where
  read : Cursor → Except Nat (α × Cursor)
  forward : ∀ {c : Cursor} {a : α} {d : Cursor}, read c = .ok (a, d) → c.Leads d

namespace Reader

variable {α β : Type}

def give (a : α) : Reader α where
  read c := .ok (a, c)
  forward h := by
    cases h
    exact .refl _

def andThen (p : Reader α) (f : α → Reader β) : Reader β where
  read c :=
    match p.read c with
    | .ok (a, d) => (f a).read d
    | .error e => .error e
  forward {c b e} h := by
    cases hp : p.read c with
    | error n => simp [hp] at h
    | ok r =>
      simp only [hp] at h
      exact (p.forward hp).trans ((f r.1).forward h)

instance : Monad Reader where
  pure := give
  bind := andThen

end Reader

/-- Where the reader stands. -/
def cursor : Reader Cursor where
  read c := .ok (c, c)
  forward h := by
    cases h
    exact .refl _

/-- Fails with a number of signs from the fault on. -/
def fail {α : Type} (left : Nat) : Reader α where
  read _ := .error left
  forward h := by cases h

inductive Goal : Type → Type
  | expr (noIn : Bool) : Goal Expr
  | operand : Goal Expr
  | suffixes (start : List Char) (e : Expr) : Goal Expr
  | operators (noIn : Bool) (e : Expr) : Goal Expr
  | elements (close : Char) : Goal Unit
  | properties : Goal Unit
  | template (plain : Bool) : Goal Bool
  | pattern : Goal Pattern
  | patternItems : Goal (List Pattern)
  | patternFields : Goal (List Field)
  | type : Goal Unit
  | typeOperand : Goal Unit
  | typeSuffixes : Goal Unit
  | typeList (close : Char) : Goal Unit
  | typeMembers : Goal Unit
  | typeParameters : Goal Unit
  | parameters : Goal Unit
  | classMembers : Goal Unit
  | enumMembers : Goal Unit
  | statement : Goal Form
  | statements : Goal Unit
  | cases : Goal Unit
  | declarators : Goal (List Declarator)
  | decorators : Goal Unit
  | importNames : Goal (List ImportedName)
  | exportNames : Goal (List ExportedName)

/-- A way to read every goal. -/
abbrev Rules := {α : Type} → Goal α → Reader α

/-! ### Lexemes -/

/-- The signs from the next lexeme on, and whether a line ends before it. -/
def ahead : Reader (List Char × Bool) := do
  return skipGap .blank false (← cursor).rest

def next : Reader (List Char) := do
  return (← ahead).1

/-- Takes the lexeme between two ends of what is to come. -/
def take (start rest : List Char) : Reader Unit where
  read c := .ok ((), c.take start rest)
  forward h := by
    cases h
    exact Cursor.leads_take _ _ _

/-- The fault is the last lexeme, which lacks what should follow it. -/
def failLast {α : Type} : Reader α := do
  fail (← cursor).lately.length

/-- The fault is the next lexeme, which has no place here. -/
def failNext {α : Type} : Reader α := do
  fail (← next).length

/-- Notes a fault and goes on; the first one counts. -/
def report (left : Nat) : Reader Unit where
  read c := .ok ((), { c with fault := c.fault.or (some left) })
  forward h := by
    cases h
    exact ⟨List.suffix_refl _, List.suffix_refl _⟩

def isNext (s : String) : Reader Bool := do
  return startsWith s.toList (← next)

def eat (s : String) : Reader Bool := do
  let t ← next
  match after? s.toList t with
  | some r => take t r; return true
  | none => return false

def expect (s : String) : Reader Unit := do
  unless ← eat s do failLast

/-- The word that comes next. -/
def nextWord : Reader String := do
  match name? (← next) with
  | some (n, _) => return String.ofList n
  | none => return ""

def eatWord (w : String) : Reader Bool := do
  let t ← next
  match name? t with
  | some (n, r) =>
    if n = w.toList then take t r; return true else return false
  | none => return false

def expectWord (w : String) : Reader Unit := do
  unless ← eatWord w do failLast

def name : Reader String := do
  let t ← next
  match name? t with
  | some (n, r) => take t r; return String.ofList n
  | none => failLast

/-- Takes a name if one comes next. -/
def optionalName : Reader (Option String) := do
  if (name? (← next)).isSome then return some (← name) else return none

/-- What was read since `start`. -/
def partSince (start : List Char) : Reader Part := do
  let c ← cursor
  return ⟨⟨start.length, c.rest.length⟩,
    String.ofList (start.take (start.length - c.rest.length))⟩

/-- Reads on trial; a failure, or a fault that had to be noted, leaves the reader where it
stood. -/
def attempt {α : Type} (p : Reader α) : Reader (Option α) where
  read c :=
    match p.read c with
    | .ok (a, d) => if c.fault.isNone && d.fault.isSome then .ok (none, c) else .ok (some a, d)
    | .error _ => .ok (none, c)
  forward {c a d} h := by
    cases hp : p.read c with
    | error n =>
      rw [hp] at h
      cases h
      exact .refl _
    | ok r =>
      simp only [hp] at h
      split at h
      · cases h
        exact .refl _
      · cases h
        exact p.forward hp

/-- What would come next, were `p` read first. -/
def lookPast {α : Type} (p : Reader α) : Reader (Option (List Char × Bool)) where
  read c :=
    match (p.andThen fun _ => ahead).read c with
    | .ok (a, _) => .ok (some a, c)
    | .error _ => .ok (none, c)
  forward {c a d} h := by
    split at h
    · cases h
      exact .refl _
    · cases h
      exact .refl _

/-- Whether brackets close again that are open at the start of a text; `depth` of them are. -/
def closesAgain : (depth : Nat) → List Char → Bool
  | 0, _ => true
  | _ + 1, [] => false
  | n + 1, c :: r =>
    if c = '(' ∨ c = '[' ∨ c = '{' then closesAgain (n + 2) r
    else if c = ')' ∨ c = ']' ∨ c = '}' then closesAgain n r
    else closesAgain (n + 1) r

/-- Reads `p`. A failure in a bracket that is never closed is one of the lexeme before the
bracket. -/
def inBracket {α : Type} (lately : Nat) (p : Reader α) : Reader α where
  read c :=
    match p.read c with
    | .ok r => .ok r
    | .error e => if closesAgain 1 c.rest then .error e else .error lately
  forward {c a d} h := by
    cases hp : p.read c with
    | error n =>
      simp only [hp] at h
      split at h <;> cases h
    | ok r =>
      simp only [hp] at h
      cases h
      exact p.forward hp

/-- Reads what an opening bracket holds. -/
def bracketed {α : Type} (opening : String) (p : Reader α) : Reader α := do
  let c ← cursor
  expect opening
  inBracket c.lately.length p

def openBrace : String := "\x7b"
def closeBrace : String := "\x7d"

/-- Reads what stands in braces. -/
def braced {α : Type} (p : Reader α) : Reader α := bracketed openBrace p

/-- A closing bracket. Where a statement could end a missing one is only noted. -/
def closing (s : String) : Reader Unit := do
  unless ← eat s do
    let (t, lineEnd) ← ahead
    match t with
    | [] | ';' :: _ => report (← cursor).rest.length
    | _ => if lineEnd then report (← cursor).rest.length else failNext

/-- The end of a statement: a semicolon, or a place where none is needed. -/
def semicolon : Reader Unit := do
  unless ← eat ";" do
    let (t, lineEnd) ← ahead
    match t with
    | [] | '}' :: _ => pure ()
    | _ => unless lineEnd do failNext

/-- Takes the comma before another item; otherwise the closing bracket must come. -/
def comma (close : Char) : Reader Bool := do
  if ← eat "," then return true
  match ← next with
  | c :: _ => if c = close then return false else failNext
  | [] => return false

end Mender.Script
