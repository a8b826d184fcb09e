import Mender.Diagnostic
import Mender.Reply.Candidates

/-!
What a model is told for one pass: how to answer, and what there is to repair.
-/

namespace Mender.Repair

structure Prompt where
  filename : String
  source : String
  /-- The errors to show. -/
  diagnostics : List Diagnostic
  memory : Option String
  /-- The components that a repair may use. -/
  known : List String
  pass : Nat
  maxPasses : Nat

namespace Prompt

def instructions : String :=
  "You repair a single UI component file so that it compiles and passes lint.\n" ++
    "Fix every listed error and change nothing else. Keep the component's public " ++
    "props and markup structure.\n" ++
    "Reply with one JSON object between " ++ String.ofList Reply.startMark ++ " and " ++
    String.ofList Reply.endMark ++ " of the form \x7b\"code\": \"<complete fixed file>\", " ++
    "\"summary\": \"<one line describing the fix>\"\x7d. Return the whole file, not a diff."

/-- The errors, numbered. -/
def errorLines (ds : List Diagnostic) : String :=
  String.join ((ds.zipIdx 1).map fun p => s!"{p.2}. {p.1.summary}\n")

def memoryText : Option String → String
  | some m => "\nPreviously fixed in this file, " ++ m ++ "\n"
  | none => ""

def knownText (known : List String) : String :=
  if known.isEmpty then ""
  else "\nKnown-good components you may import instead of re-implementing: " ++
    ", ".intercalate known ++ "\n"

def sourceText (source : String) : String :=
  "\nCurrent source:\n```\n" ++ source ++
    (if source.toList.getLast? = some '\n' then "" else "\n") ++ "```\n"

def context (p : Prompt) : String :=
  s!"File: {p.filename} (pass {p.pass} of {p.maxPasses})\n\nErrors:\n" ++ errorLines p.diagnostics ++
    memoryText p.memory ++ knownText p.known ++ sourceText p.source

end Prompt

end Mender.Repair
