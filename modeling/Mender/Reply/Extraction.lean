import Mender.Json.Reader
import Mender.Reply.Candidates
import Mender.Reply.Escapes

/-!
Taking a JSON object or list out of a model's reply.

The candidates are tried in a fixed order: what stands between the marks, what follows a
lone first mark, the reply without its preamble, and its balanced blocks. A candidate counts
when it parses as it stands or after mending; the first one with an acceptable root wins.
-/

namespace Mender.Reply

open Mender.Text

inductive Strategy | delimited | truncatedDelimited | direct | balancedBlock
  deriving DecidableEq

def Strategy.name : Strategy → String
  | .delimited => "delimited"
  | .truncatedDelimited => "truncated_delimited"
  | .direct => "direct"
  | .balancedBlock => "balanced_block"

inductive Refusal
  | listRoot
  | scalarRoot (root : Json)
  | malformed
  | noStructure

def rootName : Json → String
  | .null => "null"
  | .bool _ => "a boolean"
  | .int _ | .real _ => "a number"
  | .str _ => "a string"
  | .arr _ => "an array"
  | .obj _ => "an object"

def Refusal.message : Refusal → String
  | .listRoot => "top-level arrays are not allowed in this response"
  | .scalarRoot root => "expected a JSON object, found " ++ rootName root
  | .malformed => "no well-formed JSON object found in response"
  | .noStructure => "response contains no JSON-like structure"

inductive Extraction
  | found (data : Json) (strategy : Strategy) (fragment : List Char)
  | failed (refusal : Refusal) (fragment : List Char)

/-- How many characters of a fragment are kept. -/
def fragmentLimit : Nat := 4000

inductive Attempt
  | parsed (data : Json)
  | rejected (refusal : Refusal)
  | unreadable

/-- The value of a candidate as it stands or, failing that, after mending. -/
def read? (t : List Char) : Option Json := (Json.parse? t).or (Json.parse? (mendEscapes t))

def attempt (allowLists : Bool) (candidate : List Char) : Attempt :=
  match trim candidate with
  | [] => .unreadable
  | t =>
    match read? t with
    | none => .unreadable
    | some (.obj fs) => .parsed (.obj fs)
    | some (.arr xs) => if allowLists then .parsed (.arr xs) else .rejected .listRoot
    | some root => .rejected (.scalarRoot root)

/-- The candidates outside the balanced blocks, in order. -/
def candidates (t : List Char) : List (Strategy × List Char) :=
  let unfenced := dropFences t
  (delimited? unfenced).toList.map (.delimited, ·) ++
    (truncated? unfenced).toList.map (.truncatedDelimited, ·) ++
    [(.direct, dropPreamble unfenced)]

def found (data : Json) (strategy : Strategy) (candidate : List Char) : Extraction :=
  .found data strategy (candidate.take fragmentLimit)

/-- Tries candidates until one is read or a list is refused; otherwise gives the last refusal
on to what is tried next. -/
def tryAll (allowLists : Bool) (raw : List Char) :
    Option Refusal → List (Strategy × List Char) → Except (Option Refusal) Extraction
  | last, [] => .error last
  | last, (s, c) :: r =>
    match attempt allowLists c with
    | .parsed data => .ok (found data s c)
    | .rejected .listRoot => .ok (.failed .listRoot (raw.take fragmentLimit))
    | .rejected refusal => tryAll allowLists raw (some refusal) r
    | .unreadable => tryAll allowLists raw last r

/-- The first balanced block that can be read. -/
def tryBlocks (allowLists : Bool) : List (List Char) → Option Extraction
  | [] => none
  | b :: bs =>
    match attempt allowLists b with
    | .parsed data => some (found data .balancedBlock b)
    | _ => tryBlocks allowLists bs

def extractWith (allowLists : Bool) (raw : List Char) : Extraction :=
  match tryAll allowLists raw none (candidates raw) with
  | .ok e => e
  | .error last =>
    match tryBlocks allowLists (balancedBlocks (dropPreamble (dropFences raw))) with
    | some e => e
    | none =>
      let plain := if raw.any isOpener then Refusal.malformed else .noStructure
      .failed (last.getD plain) (raw.take fragmentLimit)

def extract (raw : List Char) : Extraction := extractWith true raw

namespace Extraction

def isFailure : Extraction → Bool
  | .found .. => false
  | .failed .. => true

def data? : Extraction → Option Json
  | .found data _ _ => some data
  | .failed .. => none

/-- A string field of the object that was found. -/
def stringField? (e : Extraction) (k : String) : Option String :=
  e.data?.bind (Json.stringField? k)

def toJson : Extraction → Json
  | .found data strategy fragment =>
    .ofFields [("ok", .bool true), ("data", data), ("strategy", .str strategy.name),
      ("rawFragment", .str (String.ofList fragment))]
  | .failed refusal fragment =>
    .ofFields [("ok", .bool false), ("error", .str refusal.message),
      ("rawFragment", .str (String.ofList fragment))]

end Extraction

end Mender.Reply
