import Mender.Metrics
import Mender.Module.Graph
import Mender.Store
import Mender.Tool.Toolchain

/-!
A session: the calls of collaborators so far, and what is kept between them.

A collaborator is a function of the number of its call and of what it is asked; so it may
answer the same question differently each time.
-/

namespace Mender

open Tool

/-- The ways in which a store is called. -/
inductive StoreCall | readFile | loadMemory | upsertFile | saveMemory | appendAudit
  deriving DecidableEq

def StoreCall.name : StoreCall → String
  | .readFile => "read_file"
  | .loadMemory => "load_memory"
  | .upsertFile => "upsert_file"
  | .saveMemory => "save_memory"
  | .appendAudit => "append_audit"

/-- What a store is asked to do with a file, and what it is given for that. -/
inductive StoreRequest
  | readFile
  | loadMemory
  | upsertFile (content : String)
  | saveMemory (entries : List String)
  | appendAudit (record : Audit)
  deriving DecidableEq

namespace StoreRequest

def call : StoreRequest → StoreCall
  | .readFile => .readFile
  | .loadMemory => .loadMemory
  | .upsertFile _ => .upsertFile
  | .saveMemory _ => .saveMemory
  | .appendAudit _ => .appendAudit

/-- The store after a request that it fulfils. -/
def perform (key : FileKey) : StoreRequest → Store → Store
  | .readFile, s | .loadMemory, s => s
  | .upsertFile content, s => s.putFile key content
  | .saveMemory entries, s => s.putMemory key entries
  | .appendAudit record, s => s.addAudit record

end StoreRequest

/-- A call of a collaborator with what it is asked. -/
inductive Call
  | lint (path source : String)
  | format (parser source : String)
  | formatAll (jobs : List FormatJob)
  /-- A compiler's trial in a validation. -/
  | tryCompile (mode : Mode) (file source : String)
  /-- A compiler's work for a preview. -/
  | compile (mode : Mode) (file source : String)
  | compileLocal (file source : String)
  | check (file source : String)
  | generate (instructions context : String)
  | run (graph : Module.Graph)
  | lookUp (stem : String)
  | store (request : StoreRequest) (key : FileKey)

/-- The collaborator that a call goes to. -/
inductive Collaborator
  | linter | formatter | batchFormatter | trialCompiler | compiler | localCompiler | checker
  | generator | runner | catalog | store
  deriving DecidableEq

namespace Call

def collaborator : Call → Collaborator
  | .lint .. => .linter
  | .format .. => .formatter
  | .formatAll .. => .batchFormatter
  | .tryCompile .. => .trialCompiler
  | .compile .. => .compiler
  | .compileLocal .. => .localCompiler
  | .check .. => .checker
  | .generate .. => .generator
  | .run .. => .runner
  | .lookUp .. => .catalog
  | .store .. => .store

/-- What is written of a call; the instructions for a model are given by their width. -/
def fields : Call → List (String × Json)
  | .lint path source => [("call", .str "lint"), ("path", .str path), ("source", .str source)]
  | .format parser source =>
    [("call", .str "format"), ("parser", .str parser), ("source", .str source)]
  | .formatAll jobs =>
    [("call", .str "format_batch"), ("jobs", .arr (jobs.map FormatJob.toJson))]
  | .tryCompile mode file source | .compile mode file source =>
    [("call", .str "compile"), ("mode", .str mode.name), ("file", .str file),
      ("source", .str source)]
  | .compileLocal file source =>
    [("call", .str "compile_local"), ("file", .str file), ("source", .str source)]
  | .check file source => [("call", .str "check"), ("file", .str file), ("source", .str source)]
  | .generate instructions context =>
    [("call", .str "generate"), ("instructions", .ofNat instructions.utf8ByteSize),
      ("context", .str context)]
  | .run graph => [("call", .str "run"), ("graph", graph.toJson)]
  | .lookUp stem => [("call", .str "lookup"), ("stem", .str stem)]
  | .store request key =>
    [("call", .str request.call.name), ("project", .str key.project), ("file", .str key.file)]

def toJson (c : Call) : Json := .ofFields c.fields

end Call

structure Session where
  calls : List Call := []
  metrics : Metrics := {}
  /-- Milliseconds that have passed. -/
  clock : Nat := 0
  toolchain : Toolchain := {}
  store : Store := {}

abbrev Run := StateM Session

namespace Session

/-- How often a collaborator has been called. -/
def callsOf (c : Collaborator) (s : Session) : Nat := s.calls.countP fun k => k.collaborator == c

/-- Notes a call; the answer is its number, from one on. -/
def note (c : Call) : Run Nat := fun s =>
  let t := { s with calls := s.calls ++ [c] }
  (t.callsOf c.collaborator, t)

def count (f : Metrics → Metrics) : Run Unit := modify fun s => { s with metrics := f s.metrics }

/-- Lets time pass. -/
def pass (milliseconds : Nat) : Run Unit :=
  modify fun s => { s with clock := s.clock + milliseconds }

end Session

end Mender
