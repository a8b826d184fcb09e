import Mender.Reply.Extraction

/-!
What a model proposes as the new text of a file.

An object with the code is preferred, then the first fenced block, then the whole reply. An
object without code is no proposal, and neither is a blank reply. Objects found only as
balanced blocks are taken for braces of the code itself.
-/

namespace Mender.Reply

open Mender.Text

structure Proposal where
  code : String
  summary : Option String
  deriving DecidableEq

def blank (s : String) : Bool := (trim s.toList).isEmpty

/-- The trimmed text unless it is blank. -/
def trimmed? (s : String) : Option String :=
  match trim s.toList with
  | [] => none
  | t => some (String.ofList t)

/-- The object of a reply that is meant as an answer. -/
def answer? (e : Extraction) : Option Extraction :=
  match e with
  | .found _ .balancedBlock _ => none
  | .found .. => some e
  | .failed .. => none

/-- The names the code may have, the first of them that holds a string counting. -/
def codeField? (e : Extraction) : Option String :=
  ((e.stringField? "code").or (e.stringField? "fixedCode")).or (e.stringField? "fixed_code")

def isLineEnd (c : Char) : Bool := c == '\n' || c == '\r'

/-- The contents of the first fenced block, closed by one line feed. -/
def fencedBlock? (t : List Char) : Option (List Char) := do
  let (_, afterFence) ← cut? fence t
  let (_, body) ← cut? ['\n'] afterFence
  let (inner, _) ← cut? fence body
  let block := dropTail isLineEnd inner
  if (trim block).isEmpty then none else return block ++ ['\n']

/-- The proposal a reply makes, given what extraction found in it. -/
def proposalFrom (raw : String) (e : Extraction) : Option Proposal :=
  match (answer? e).bind codeField? |>.filter fun c => !blank c with
  | some code => some ⟨code, (e.stringField? "summary").bind trimmed?⟩
  | none =>
    match fencedBlock? raw.toList with
    | some block => some ⟨String.ofList block, none⟩
    | none =>
      match answer? e with
      | some _ => none
      | none => some ⟨String.ofList (trim raw.toList), none⟩

/-- What extraction finds in a reply; nothing is looked for in a blank one. -/
def extraction? (raw : String) : Option Extraction :=
  if blank raw then none else some (extractWith false raw.toList)

def interpret (raw : String) : Option Proposal := (extraction? raw).bind (proposalFrom raw)

end Mender.Reply
