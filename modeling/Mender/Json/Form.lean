import Mender.Json.Skip

/-!
Forms of JSON values.

A form says which values are meant and gives them back in a settled layout: a record has all
of its fields, absent ones filled in. It can read a value off a text, where faults have a
place, and it can check a value that has been read already. A record may also be written as
the list of its fields.
-/

namespace Mender.Json

open Mender.Text

structure Form where
  read : (depth : Nat) → List Char → Reading Json
  check : Json → Except ShapeFault Json

/-- What an absent field stands for. Only a default also fills the end of a short list. -/
inductive Absent
  | required
  | null
  | default (j : Json)

structure FieldForm where
  name : String
  form : Form
  absent : Absent := .required
  aliases : List String := []

def FieldForm.answersTo (f : FieldForm) (k : String) : Bool := f.name == k || f.aliases.contains k

namespace Form

/-- A shape fault in front of `rest`. -/
def misfit {α : Type} (f : ShapeFault) (rest : List Char) : Except Failure α :=
  .error { fault := .shape f, stop := .left (width rest) }

/-- A shape fault whose place is that of the end of what encloses it. -/
def misfitUnsettled {α : Type} (f : ShapeFault) (rest : List Char) : Except Failure α :=
  .error { fault := .shape f, stop := .unsettled rest }

/-- Where the reading of a list ends that has been given up at `rest`. -/
def closeList (rest : List Char) : List Char :=
  match skipSpace rest with
  | ']' :: r => r
  | ',' :: r => skipSpace r
  | s => s

/-- Where the reading of an object ends that has been given up at `rest`. -/
def closeObject (rest : List Char) : List Char :=
  match skipSpace rest with
  | '}' :: r => r
  | s => s

def settle {α : Type} (close : List Char → List Char) : Except Failure α → Except Failure α
  | .error ⟨f, .unsettled rest, path⟩ => .error ⟨f, .left (width (close rest)), path⟩
  | r => r

/-- The failure for a value of the wrong kind. Lists and objects are not entered. -/
def wrongKind {α : Type} (expected : String) (t : List Char) : Except Failure α :=
  match t with
  | 'n' :: r => (wordTail ['u', 'l', 'l'] r).bind (misfit (.invalidType .null expected))
  | 't' :: r => (wordTail ['r', 'u', 'e'] r).bind (misfit (.invalidType (.bool true) expected))
  | 'f' :: r =>
    (wordTail ['a', 'l', 's', 'e'] r).bind (misfit (.invalidType (.bool false) expected))
  | '-' :: r => (number true r).bind numeral
  | '"' :: r => (string r).bind fun p => misfit (.invalidType (.str p.1) expected) p.2
  | '[' :: _ => misfit (.invalidType .list expected) t
  | '{' :: _ => misfit (.invalidType .object expected) t
  | [] => failNext (.ended .value) []
  | c :: _ => if c.isDigit then (number false t).bind numeral else failNext .noValue t
where
  numeral (p : Json × List Char) : Except Failure α :=
    misfit (.invalidType (.of p.1) expected) p.2

def checkKind {α : Type} (expected : String) (j : Json) : Except ShapeFault α :=
  .error (.invalidType (.of j) expected)

def text : Form where
  read _ t :=
    match skipSpace t with
    | '"' :: r => (string r).map fun p => (.str p.1, p.2)
    | s => wrongKind "a string" s
  check
    | .str s => .ok (.str s)
    | j => checkKind "a string" j

def boolean : Form where
  read _ t :=
    match skipSpace t with
    | 't' :: r => (wordTail ['r', 'u', 'e'] r).map (.bool true, ·)
    | 'f' :: r => (wordTail ['a', 'l', 's', 'e'] r).map (.bool false, ·)
    | s => wrongKind "a boolean" s
  check
    | .bool b => .ok (.bool b)
    | j => checkKind "a boolean" j

/-- Integers from zero to `limit`; `name` is what the messages call them. -/
def natural (name : String) (limit : Nat) : Form where
  read _ t :=
    match skipSpace t with
    | '-' :: r => (number true r).bind settled
    | s =>
      match s with
      | c :: _ => if c.isDigit then (number false s).bind settled else wrongKind name s
      | [] => wrongKind name s
  check := fit
where
  fit (j : Json) : Except ShapeFault Json :=
    match j with
    | .int i =>
      if 0 ≤ i ∧ i ≤ limit then .ok j else .error (.invalidValue (.int i) name)
    | _ => checkKind name j
  settled (p : Json × List Char) : Reading Json :=
    match fit p.1 with
    | .ok j => .ok (j, p.2)
    | .error f => misfit f p.2

def anything : Form where
  read depth t := value depth t
  check j := .ok j

/-- The form or null. -/
def optional (f : Form) : Form where
  read depth t :=
    match skipSpace t with
    | 'n' :: r => (wordTail ['u', 'l', 'l'] r).map (.null, ·)
    | s => f.read depth s
  check
    | .null => .ok .null
    | j => f.check j

/-- Reads what an opening bracket or brace has opened, if one more may be opened. -/
def opened {α : Type} (depth : Nat) (t : List Char) (body : Nat → Except Failure α) :
    Except Failure α :=
  match depth with
  | 0 => failNext .tooDeep t
  | d + 1 => body d

def list (f : Form) : Form where
  read depth t :=
    match skipSpace t with
    | '[' :: r => opened depth ('[' :: r) fun d =>
      settle closeList ((elements (f.read d) (r.length + 1) 0 r).map fun p => (.arr p.1, p.2))
    | s => wrongKind "a sequence" s
  check
    | .arr xs => (xs.mapM f.check).map .arr
    | j => checkKind "a sequence" j

/-- Objects with any keys. -/
def mapping (f : Form) : Form where
  read depth t :=
    match skipSpace t with
    | '{' :: r => opened depth ('{' :: r) fun d =>
      settle closeObject
        ((members (f.read d) (r.length + 1) true r).map fun p => (.ofFields p.1, p.2))
    | s => wrongKind "a map" s
  check
    | .obj fs => (fs.mapM fun e => (f.check e.2).map (e.1, ·)).map .ofFields
    | j => checkKind "a map" j

/-! ### Records -/

/-- All fields in their settled layout, given those that were there. -/
def complete (fields : List FieldForm) (seen : List (String × Json)) : Except ShapeFault Json :=
  (fields.mapM filled).map ofFields
where
  filled (f : FieldForm) : Except ShapeFault (String × Json) :=
    match seen.lookup f.name, f.absent with
    | some j, _ => .ok (f.name, j)
    | none, .required => .error (.missingField f.name)
    | none, .null => .ok (f.name, .null)
    | none, .default j => .ok (f.name, j)

/-- The wording of a record's length as a list. -/
def lengthText (title : String) (fields : List FieldForm) : String :=
  title ++ " with " ++ toString fields.length ++ (if fields.length = 1 then " element" else " elements")

/-- What fills the end of a short list. -/
def fill (title : String) (fields : List FieldForm) (i : Nat) (f : FieldForm) :
    Except ShapeFault (String × Json) :=
  match f.absent with
  | .default j => .ok (f.name, j)
  | _ => .error (.invalidLength i (lengthText title fields))

/-- Fields of an object up to its closing brace, which stays. Unknown ones are passed over. -/
def readFields (fields : List FieldForm) (depth : Nat) :
    (fuel : Nat) → (first : Bool) → (seen : List (String × Json)) → List Char →
    Reading (List (String × Json))
  | 0, _, _, t => failHere (.ended .object) t
  | n + 1, first, seen, t =>
    match nextKey first t with
    | .error e => .error e
    | .ok (none, s) => .ok (seen, s)
    | .ok (some s, _) =>
      match string s with
      | .error e => .error e
      | .ok (k, r) =>
        match fields.find? (·.answersTo k) with
        | none =>
          match member (fun u => (skipValue u).map ((), ·)) k r with
          | .error e => .error e
          | .ok (_, u) => readFields fields depth n false seen u
        | some f =>
          if (seen.lookup f.name).isSome then misfitUnsettled (.duplicateField f.name) r
          else match member (f.form.read depth) k r with
            | .error e => .error e
            | .ok (j, u) => readFields fields depth n false ((f.name, j) :: seen) u

/-- A record written as a list, up to its closing bracket, which stays. -/
def readListed (title : String) (all : List FieldForm) (depth : Nat) :
    (i : Nat) → List FieldForm → List Char → Reading (List (String × Json))
  | _, [], t => .ok ([], t)
  | i, f :: fs, t =>
    match skipSpace t with
    | [] => failNext (.ended .list) []
    | ']' :: r => close i (f :: fs) (']' :: r)
    | c :: r =>
      if i = 0 then item i f fs (c :: r)
      else if c ≠ ',' then failNext .noListEnd (c :: r)
      else match skipSpace r with
        | [] => failNext (.ended .value) []
        | ']' :: s => failNext .trailingComma (']' :: s)
        | s => item i f fs s
where
  close (i : Nat) (fs : List FieldForm) (t : List Char) : Reading (List (String × Json)) :=
    match (fs.zipIdx i).mapM fun p => fill title all p.2 p.1 with
    | .ok r => .ok (r, t)
    | .error e => misfitUnsettled e t
  item (i : Nat) (f : FieldForm) (fs : List FieldForm) (t : List Char) :
      Reading (List (String × Json)) :=
    match f.form.read depth t with
    | .error e => .error (e.within (.index i))
    | .ok (j, r) =>
      (readListed title all depth (i + 1) fs r).map fun p => ((f.name, j) :: p.1, p.2)

/-- The closing bracket of a record written as a list. -/
def endList (t : List Char) : Except Failure (List Char) :=
  match skipSpace t with
  | ']' :: r => .ok r
  | ',' :: r =>
    match skipSpace r with
    | ']' :: s => failNext .trailingComma (']' :: s)
    | s => failNext .trailingCharacters s
  | [] => failNext (.ended .list) []
  | s => failNext .trailingCharacters s

def completeAt (fields : List FieldForm) (seen : List (String × Json)) (t : List Char) :
    Reading Json :=
  match complete fields seen with
  | .ok j => .ok (j, closeObject t)
  | .error f => misfitUnsettled f t

/-- Fields of an object that has been read already. -/
def checkFields (fields : List FieldForm) :
    (seen given : List (String × Json)) → Except ShapeFault Json
  | seen, [] => complete fields seen
  | seen, (k, j) :: r =>
    match fields.find? (·.answersTo k) with
    | none => checkFields fields seen r
    | some f =>
      if (seen.lookup f.name).isSome then .error (.duplicateField f.name)
      else match f.form.check j with
        | .error e => .error e
        | .ok j => checkFields fields ((f.name, j) :: seen) r

/-- A record that has been read already as a list. -/
def checkListed (title : String) (fields : List FieldForm) (xs : List Json) :
    Except ShapeFault Json :=
  match go 0 fields xs with
  | .error e => .error e
  | .ok seen =>
    if fields.length < xs.length then
      .error (.invalidLength xs.length "fewer elements in array")
    else complete fields seen
where
  go : Nat → List FieldForm → List Json → Except ShapeFault (List (String × Json))
    | _, [], _ => .ok []
    | i, f :: fs, [] => ((f :: fs).zipIdx i).mapM fun p => fill title fields p.2 p.1
    | i, f :: fs, x :: xs =>
      match f.form.check x with
      | .error e => .error e
      | .ok j => (go (i + 1) fs xs).map ((f.name, j) :: ·)

/-- A record; `name` is what the messages call it. -/
def record (name : String) (fields : List FieldForm) : Form where
  read depth t :=
    match skipSpace t with
    | '{' :: r => opened depth ('{' :: r) fun d =>
      settle closeObject
        ((readFields fields d (r.length + 1) true [] r).bind fun p =>
          completeAt fields p.1 p.2)
    | '[' :: r => opened depth ('[' :: r) fun d =>
      settle closeList
        ((readListed title fields d 0 fields r).bind fun p =>
          (endList p.2).bind fun rest =>
            match complete fields p.1 with
            | .ok j => .ok (j, rest)
            | .error f => misfitUnsettled f rest)
    | s => wrongKind title s
  check
    | .obj given => checkFields fields [] given
    | .arr xs => checkListed title fields xs
    | j => checkKind title j
where
  title : String := s!"struct {name}"

/-! ### Choices -/

/-- One of a few names. A name may also be written as the key of an object with the value
null. -/
def choice (options : List String) : Form where
  read depth t :=
    match skipSpace t with
    | '"' :: r => (string r).bind fun p => (known p.1 p.2).map (.str p.1, ·)
    | '{' :: r => opened depth ('{' :: r) fun _ => settle closeObject (keyed r)
    | [] => failNext (.ended .value) []
    | s => failNext .noValue s
  check
    | .str s => if options.contains s then .ok (.str s) else .error (.unknownVariant s options)
    | .obj [(k, j)] =>
      if !options.contains k then .error (.unknownVariant k options)
      else match j with
        | .null => .ok (.str k)
        | _ => checkKind "unit" j
    | .obj _ => .error (.invalidValue .object "map with a single key")
    | j => checkKind "string or map" j
where
  known (s : String) (rest : List Char) : Except Failure (List Char) :=
    if options.contains s then .ok rest else misfit (.unknownVariant s options) rest
  keyed (t : List Char) : Reading Json :=
    match skipSpace t with
    | '"' :: r =>
      (string r).bind fun p =>
        (known p.1 p.2).bind fun rest =>
          (colon rest).bind fun s =>
            match skipSpace s with
            | 'n' :: u =>
              (wordTail ['u', 'l', 'l'] u).bind fun v =>
                match skipSpace v with
                | '}' :: w => .ok (.str p.1, w)
                | [] => failNext (.ended .object) []
                | w => failNext .noValue w
            | u => wrongKind "unit" u
    | s => wrongKind "variant identifier" s

structure Variant where
  name : String
  fields : List FieldForm

/-- Records told apart by the field `tag`. The other fields are checked once the whole value
has been read. -/
def tagged (name tag : String) (variants : List Variant) : Form where
  read depth t :=
    match skipSpace t with
    | '{' :: r => opened depth ('{' :: r) fun d =>
      match settle closeObject (collect d (r.length + 1) true none [] r) with
      | .error e => .error e
      | .ok ((v, given), rest) =>
        match checkFields v.fields [] given with
        | .ok j => .ok (withTag v j, rest)
        | .error f => misfitUnsettled f rest
    | '[' :: r => opened depth ('[' :: r) fun d =>
      match settle closeList (elements (value d) (r.length + 1) 0 r) with
      | .error e => .error e
      | .ok (xs, rest) =>
        match listed xs with
        | .ok j => .ok (j, rest)
        | .error f => misfitUnsettled f rest
    | s => wrongKind title s
  check
    | .obj given =>
      match given.lookup tag with
      | none => .error (.missingField tag)
      | some j =>
        match variantOf j with
        | .error e => .error e
        | .ok v => (checkFields v.fields [] (given.filter (·.1 != tag))).map (withTag v)
    | .arr xs => listed xs
    | j => checkKind title j
where
  title : String := s!"internally tagged enum {name}"
  names : List String := variants.map (·.name)
  withTag (v : Variant) (j : Json) : Json :=
    .ofFields ((tag, .str v.name) :: (j.fields?.getD []))
  variantNamed (s : String) : Except ShapeFault Variant :=
    match variants.find? (·.name == s) with
    | some v => .ok v
    | none => .error (.unknownVariant s names)
  variantOf (j : Json) : Except ShapeFault Variant :=
    match j with
    | .str s => variantNamed s
    | _ => checkKind "variant identifier" j
  listed (xs : List Json) : Except ShapeFault Json :=
    match xs with
    | [] => .error (.missingField tag)
    | x :: xs =>
      match variantOf x with
      | .error e => .error e
      | .ok v =>
        (checkListed s!"struct variant {name}::{v.name.capitalize}" v.fields xs).map (withTag v)
  collect (depth : Nat) : (fuel : Nat) → (first : Bool) → Option Variant →
      List (String × Json) → List Char → Reading (Variant × List (String × Json))
    | 0, _, _, _, t => failHere (.ended .object) t
    | n + 1, first, found, given, t =>
      match nextKey first t with
      | .error e => .error e
      | .ok (none, s) =>
        match found with
        | some v => .ok ((v, given.reverse), closeObject s)
        | none => misfitUnsettled (.missingField tag) s
      | .ok (some s, _) =>
        match string s with
        | .error e => .error e
        | .ok (k, r) =>
          if k = tag then
            if found.isSome then misfitUnsettled (.duplicateField tag) r
            else match member tagValue k r with
              | .error e => .error e
              | .ok (v, u) => collect depth n false (some v) given u
          else match member (value depth) k r with
            | .error e => .error e
            | .ok (j, u) => collect depth n false found ((k, j) :: given) u
  tagValue (t : List Char) : Reading Variant :=
    match skipSpace t with
    | '"' :: r =>
      (string r).bind fun p =>
        match variantNamed p.1 with
        | .ok v => .ok (v, p.2)
        | .error f => misfit f p.2
    | s => wrongKind "variant identifier" s

end Form

/-- A type whose values are written as JSON values of a form. -/
class Coded (α : Type) where
  form : Form
  ofJson : Json → α
  toJson : α → Json

/-- A type whose values are written as names; a name that is not known counts as the usual
value. -/
@[reducible] def Coded.ofNames {α : Type} (all : List α) (name : α → String) (usual : α) : Coded α where
  form := .choice (all.map name)
  ofJson j := (j.string?.bind fun s => all.find? (name · == s)).getD usual
  toJson a := .str (name a)

/-- The value that a field stands for. -/
def codedField (α : Type) [Coded α] (k : String) (j : Json) : α :=
  Coded.ofJson ((j.field? k).getD .null)

/-- The value that a JSON value stands for, if it has the form. -/
def Coded.check (α : Type) [Coded α] (j : Json) : Except ShapeFault α :=
  ((Coded.form α).check j).map Coded.ofJson

/-- Reads a text that holds one value of the form and nothing else. -/
def Form.parse (f : Form) (t : List Char) : Except Failure Json := finish (f.read depthLimit t)

/-- Reads a value of the form off the front of a text. -/
def Form.parseFront (f : Form) (t : List Char) : Except Failure Json :=
  (f.read depthLimit t).map (·.1)

end Mender.Json
