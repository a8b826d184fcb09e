import Mender.Preview.Runner
import Mender.Server.Settings
import Mender.Tool.Chat
import Mender.Tool.Findings

/-!
From settings to a service: every collaborator that they name is put in its place.
-/

namespace Mender.Server

/-- What the service finds around it. -/
structure Host where
  exec : Tool.Exec
  /-- The files of a directory with their texts, if it can be read. -/
  files : (directory : String) → Option (List (String × String))
  /-- Whether a database lets the service in. -/
  admits : (url : String) → (credentials : Option (String × String)) → Bool
  post : Tool.Posting → Tool.PostingEnd

/-- A host on which nothing that is named exists, except databases in memory. -/
def Host.bare : Host where
  exec _ := .notStarted "No such file or directory (os error 2)"
  files _ := none
  admits url credentials := credentials.isNone && Text.startsWith "mem:".toList url.toList
  post _ := .unsent "error sending request"

inductive StartupFault
  | emptyCommand
  | catalog (directory : String)
  | database (url : String)
  deriving DecidableEq

def StartupFault.message : StartupFault → String
  | .emptyCommand => Settings.emptyCommand
  | .catalog directory => "reading catalog dir " ++ directory
  | .database url => "connecting to SurrealDB at " ++ url

structure Wired where
  workshop : Repair.Workshop
  service : Preview.Service

namespace Wired

variable (h : Host) (s : Settings)

def command (line : String) : Except StartupFault Tool.Command :=
  match s.command? line with
  | some c => .ok c
  | none => .error .emptyCommand

/-- The command of an option that may be left out. -/
def command? : Option String → Except StartupFault (Option Tool.Command)
  | none => .ok none
  | some line => (command s line).map some

def openDatabase : Except StartupFault Unit :=
  match s.database with
  | none => .ok ()
  | some url => if h.admits url s.credentials then .ok () else .error (.database url)

def loadCatalog : Except StartupFault (Option Repair.Catalog) :=
  match s.catalog with
  | none => .ok none
  | some directory =>
    match h.files directory with
    | some files => .ok (some (.ofFiles files))
    | none => .error (.catalog directory)

def validationTools (lint format compiler : Tool.Command) : Validation.Tools where
  start _ := Tool.pingBoth h.exec lint format
  lint _ path source := .ofExcept (Tool.Wrapper.lint h.exec lint path source)
  format _ parser source := .ofExcept (Tool.Wrapper.format h.exec format parser source)
  formatAll := some fun _ jobs => .ofExcept (Tool.Wrapper.formatAll h.exec format jobs)
  compile := some fun _ mode file source =>
    .ofExcept (Tool.Wrapper.compile h.exec compiler mode file source)

/-- The model that patches are asked of, if there is a key for it. -/
def model? : Option Tool.ChatModel :=
  s.modelKey.map fun key => { baseUrl := s.modelUrl, model := s.model, key := some key }

def sandbox : Option Tool.Command → Preview.Sandbox
  | none => .disabled
  | some c =>
    { runner := some (Preview.commandRunner h.exec c)
      controls := s.controls
      policy := s.modulePolicy }

/-- The service that settings describe; its commands are looked at in a fixed order. -/
def ofSettings : Except StartupFault Wired := do
  let lint ← command s s.lint
  let format ← command s s.format
  let compiler ← command s s.compiler
  openDatabase h s
  let checker ← command? s s.typecheck
  let catalog ← loadCatalog h s
  let runner ← command? s s.runner
  let workshop : Repair.Workshop := {
    tools := validationTools h lint format compiler
    policy := s.repairPolicy
    generate := (model? s).map fun m _ instructions context =>
      Tool.Completion.read (h.post (m.posting instructions context))
    check := checker.map fun c _ file source => Tool.checkTypes h.exec c file source
    catalog := catalog
    store := some fun _ _ _ => none }
  let service : Preview.Service := {
    compiler := fun _ mode file source => Tool.Wrapper.compile h.exec compiler mode file source
    sandbox := sandbox h s runner
    workshop := some workshop
    expiry := s.expiry }
  return { workshop, service }

end Wired

end Mender.Server
