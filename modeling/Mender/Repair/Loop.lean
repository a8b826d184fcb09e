import Mender.Component.Cleanup
import Mender.Repair.Catalog
import Mender.Repair.Memory
import Mender.Repair.Prompt
import Mender.Repair.Request
import Mender.Reply.Proposal
import Mender.Validation.Stages

/-!
Repairing a file: it is validated, and while errors are left and passes too, a model is asked
for a better text, which is cleaned up and validated in its turn.

When errors remain a component from the catalog may take the file's place; failing that, the
file is returned as it was. Whatever a collaborator does, a repair that has begun ends with an
outcome.
-/

namespace Mender.Repair

open Mender.Text

/-- All that a repair works with. A store's call fails as `store` says, and otherwise does
what it is asked. A catalog answers from its table, unless `offers` or `gives` say otherwise. -/
structure Workshop where
  tools : Validation.Tools
  config : Validation.Config := {}
  policy : Policy := {}
  generate : Option (Nat → (instructions context : String) → Except Tool.Fault String) := none
  check : Option (Nat → (file source : String) → Except Tool.Fault (List Diagnostic)) := none
  catalog : Option Catalog := none
  /-- The names that the catalog has in a pass. -/
  offers : (pass : Nat) → Catalog → List String := fun _ c => c.names
  /-- The component that the catalog has at its `n`-th look-up. -/
  gives : (n : Nat) → Catalog → (stem : String) → Option String := fun _ c stem => c.lookUp stem
  store : Option (Nat → StoreCall → FileKey → Option StoreFault) := none

namespace Workshop

def canPatch (w : Workshop) : Bool := w.generate.isSome

end Workshop

/-! ### The store -/

/-- A way in which the calls of a store fail. -/
abbrev StoreFailures := Nat → StoreCall → FileKey → Option StoreFault

/-- Calls the store; the answer is how the call failed, if it did. -/
def callStore (fails : StoreFailures) (request : StoreRequest) (key : FileKey) :
    Run (Option StoreFault) := do
  let n ← Session.note (.store request key)
  return fails n request.call key

/-- Has the store change, unless the call fails. -/
def changeStore (fails : StoreFailures) (request : StoreRequest) (key : FileKey) : Run Unit := do
  if (← callStore fails request key).isNone then
    modify fun s => { s with store := request.perform key s.store }

/-- Where a repair is kept, if it is. -/
def keptAt (w : Workshop) (r : Request) : Option (StoreFailures × FileKey) :=
  match w.store, r.project with
  | some fails, some p => some (fails, ⟨p, r.filename⟩)
  | _, _ => none

/-- The text to repair. -/
def resolveSource (w : Workshop) (r : Request) : Run (Except Fault String) := do
  match r.code, r.project, w.store with
  | some code, _, _ => return .ok code
  | none, none, _ => return .error (.invalidRequest "either code or projectId is required")
  | none, some _, none =>
    return .error (.invalidRequest "projectId given but no project store is configured")
  | none, some p, some fails =>
    let key : FileKey := ⟨p, r.filename⟩
    match ← callStore fails .readFile key with
    | some f => return .error (.storage f)
    | none =>
      match (← get).store.file? key with
      | some record => return .ok record.content
      | none => return .error (.fileNotFound p r.filename)

/-- The memory that is kept of a file; none when it cannot be read. -/
def loadMemory (kept : Option (StoreFailures × FileKey)) : Run (List String) := do
  match kept with
  | none => return []
  | some (fails, key) =>
    match ← callStore fails .loadMemory key with
    | some _ => return []
    | none => return (← get).store.memory key

/-! ### Checks -/

/-- A text with what is wrong with it. -/
structure Checked where
  text : String
  diagnostics : List Diagnostic
  deriving DecidableEq

def Checked.errors (c : Checked) : Nat := errorCount c.diagnostics

/-- What the type checker finds. -/
def checkTypes (check : Nat → (file source : String) → Except Tool.Fault (List Diagnostic))
    (filename : String) (c : Checked) : Run Checked := do
  let n ← Session.note (.check filename c.text)
  let found := match check n filename c.text with
    | .ok ds => ds
    | .error f => [f.diagnostic .typecheck .typecheck]
  return { c with diagnostics := mergeDiagnostics c.diagnostics found }

/-- Validates a text. Types are checked after a patch, when few errors are left. -/
def checkText (w : Workshop) (filename text : String) (afterPatch : Bool) : Run Checked := do
  let r ← Validation.validateFile w.tools w.config filename text
  let c : Checked := ⟨r.formatted, r.diagnostics⟩
  match w.check with
  | some check =>
    if afterPatch ∧ c.errors < w.policy.typecheckBelow then checkTypes check filename c
    else return c
  | none => return c

/-! ### Passes -/

/-- Where a repair stands after some passes. -/
structure Progress where
  current : Checked
  memory : Memory
  records : List PassRecord := []

/-- The errors that a model is shown. -/
def shown (w : Workshop) (c : Checked) : List Diagnostic :=
  (c.diagnostics.filter Diagnostic.isError).take w.policy.maxDiagnostics

def promptFor (w : Workshop) (filename : String) (maxPasses : Nat) (p : Progress) : Prompt where
  filename := filename
  source := p.current.text
  diagnostics := shown w p.current
  memory := p.memory.promptText?
  known := (w.catalog.map (w.offers (p.records.length + 1))).getD []
  pass := p.records.length + 1
  maxPasses := maxPasses

/-- What a model's reply proposes; a reply without an object is counted. -/
def readReply (raw : String) : Run (Option Reply.Proposal) := do
  match Reply.extraction? raw with
  | none => return none
  | some e =>
    if e.isFailure then
      Session.count fun m => { m with extractionFailures := m.extractionFailures + 1 }
    return Reply.proposalFrom raw e

def propose (w : Workshop) (filename : String) (maxPasses : Nat) (p : Progress) :
    Run (Option Reply.Proposal) := do
  match w.generate with
  | none => return none
  | some generate =>
    let context := (promptFor w filename maxPasses p).context
    Session.count fun m => { m with patchCalls := m.patchCalls + 1 }
    let n ← Session.note (.generate Prompt.instructions context)
    match generate n Prompt.instructions context with
    | .ok raw => readReply raw
    | .error _ => return none

/-- Whether two texts differ in more than the blanks around them. -/
def differs (a b : String) : Bool := trim a.toList != trim b.toList

/-- The note that a patch leaves: its own summary, or else the first error that it was for. -/
def noteOf (summary : Option String) (errors : List Diagnostic) : Option String :=
  summary.or (errors.head?.map fun d => "fixed: " ++ d.message)

/-- A pass that proposes nothing new. -/
def idlePass (p : Progress) : Progress :=
  let errors := p.current.errors
  { p with records := p.records ++ [⟨p.records.length + 1, errors, errors, false, none⟩] }

def cleanedUp (code : String) : String := String.ofList (Component.cleanup code.toList)

/-- A pass that tries a proposal. -/
def tryPass (w : Workshop) (filename : String) (p : Progress) (proposal : Reply.Proposal) :
    Run Progress := do
  let cleaned := cleanedUp proposal.code
  let changed := differs cleaned p.current.text
  let next ← checkText w filename cleaned true
  if changed then Session.count fun m => { m with patchesApplied := m.patchesApplied + 1 }
  let memory := match noteOf proposal.summary (shown w p.current) with
    | some note => if changed then p.memory.remember note else p.memory
    | none => p.memory
  let record : PassRecord :=
    ⟨p.records.length + 1, p.current.errors, next.errors, changed, proposal.summary⟩
  return { current := next, memory, records := p.records ++ [record] }

def onePass (w : Workshop) (filename : String) (maxPasses : Nat) (p : Progress) : Run Progress := do
  match ← propose w filename maxPasses p with
  | some proposal =>
    if differs proposal.code p.current.text then tryPass w filename p proposal
    else return idlePass p
  | none => return idlePass p

/-- Passes while errors are left, `left` of them at most. -/
def passes (w : Workshop) (filename : String) (maxPasses : Nat) :
    (left : Nat) → Progress → Run Progress
  | 0, p => return p
  | left + 1, p => do
    if p.current.errors = 0 then return p
    passes w filename maxPasses left (← onePass w filename maxPasses p)

/-! ### The end -/

/-- A component from the catalog with what is wrong with it. -/
def catalogFallback (w : Workshop) (r : Request) : Run (Option Checked) := do
  match w.catalog with
  | none => return none
  | some catalog =>
    if !r.allowCatalog then return none
    let stem := Catalog.stemOf r.filename
    let n ← Session.note (.lookUp stem)
    match w.gives n catalog stem with
    | none => return none
    | some source =>
      Session.count fun m => { m with catalogSubstitutions := m.catalogSubstitutions + 1 }
      return some (← checkText w r.filename source true)

/-- The text that a repair returns, its diagnostics, and how it came about. -/
structure Verdict where
  text : String
  diagnostics : List Diagnostic
  provenance : Provenance

def conclude (w : Workshop) (r : Request) (given : String) (initial : Checked) (p : Progress) :
    Run Verdict := do
  if p.current.errors = 0 then
    let provenance :=
      if p.records.any (·.changed) then Provenance.aiRepair else .alreadyValid
    return ⟨p.current.text, p.current.diagnostics, provenance⟩
  match ← catalogFallback w r with
  | some c => return ⟨c.text, c.diagnostics, .catalog⟩
  | none => return ⟨given, initial.diagnostics, .asGiven⟩

def outcomeOf (p : Progress) (v : Verdict) : Outcome where
  passes := p.records.length
  fixedCode := v.text
  finalDiagnostics := v.diagnostics
  provenance := v.provenance
  records := p.records
  memory := p.memory.entries

/-- The record of a finished repair. Its number of errors is a word of 32 bits. -/
def auditOf (key : FileKey) (o : Outcome) : Audit where
  key := key
  passes := o.passes
  errors := min o.errors Word.greatest32
  provenance := o.provenance.name

/-- Keeps an outcome; what cannot be written is left out. -/
def persist (fails : StoreFailures) (key : FileKey) (o : Outcome) : Run Unit := do
  changeStore fails (.upsertFile o.fixedCode) key
  changeStore fails (.saveMemory o.memory) key
  changeStore fails (.appendAudit (auditOf key o)) key

def keep (w : Workshop) (r : Request) (o : Outcome) : Run Unit :=
  match keptAt w r with
  | some (fails, key) => persist fails key o
  | none => pure ()

/-- The number of passes that a request may have. -/
def passBudget (w : Workshop) (r : Request) : Nat :=
  min (r.maxPasses.getD w.policy.maxPasses) w.policy.ceiling

/-- What comes before the first check: the repair is counted, and its memory is read. -/
def opening (w : Workshop) (r : Request) : Run (List String) := do
  Session.count fun m => { m with repairsStarted := m.repairsStarted + 1 }
  loadMemory (keptAt w r)

/-- A repair whose source is known. -/
def repairSource (w : Workshop) (r : Request) (given : String) : Run Outcome := do
  let loaded ← opening w r
  let initial ← checkText w r.filename given false
  let start : Progress := { current := initial, memory := .ofList (loaded ++ r.memory) }
  let p ← passes w r.filename (passBudget w r) (passBudget w r) start
  let v ← conclude w r given initial p
  let o := outcomeOf p v
  keep w r o
  return o

def repair (w : Workshop) (r : Request) : Run (Except Fault Outcome) := do
  if Reply.blank r.filename then return .error (.invalidRequest "filename is required")
  match ← resolveSource w r with
  | .error e => return .error e
  | .ok given => return .ok (← repairSource w r given)

end Mender.Repair
