import Mender.Number.Word
import Mender.Preview.Service
import Mender.Server.Address
import Mender.Server.Options
import Mender.Tool.Command

/-!
The settings of the service, and how they are given on its command line.
-/

namespace Mender.Server

def version : String := "0.1.0"

structure Settings where
  bind : Address := .v4 [127, 0, 0, 1] 8787
  verbose : Bool := false
  /-- Whether the log is written as JSON. -/
  jsonLog : Bool := false
  lint : String := "node tools/lint.mjs"
  format : String := "node tools/format.mjs"
  compiler : String := "node tools/compile.mjs"
  /-- Types are not checked when absent. -/
  typecheck : Option String := none
  /-- Previews are not executed when absent. -/
  runner : Option String := none
  /-- Where the runner finds the packages that it may load. -/
  moduleRoot : Option String := none
  /-- The packages that a preview may load, with commas between them. -/
  allowedPackages : String := ""
  toolSeconds : Nat := 30
  executionMilliseconds : Nat := 5000
  modelUrl : String := "https://api.openai.com/v1"
  model : String := "gpt-4o-mini"
  /-- Files are only validated when absent. -/
  modelKey : Option String := none
  maxPasses : Nat := 3
  passCeiling : Nat := 10
  catalog : Option String := none
  bundleSeconds : Nat := 300
  /-- Projects are kept in memory when absent. -/
  database : Option String := none
  databaseUser : Option String := none
  databasePassword : Option String := none

namespace Settings

/-! ### Values on the command line -/

/-- A whole number with a sign perhaps. -/
def signed? : List Char → Option Int
  | '+' :: t => (Text.decimal? (Word.negative64 - 1) t).map Int.ofNat
  | '-' :: t => (Text.decimal? Word.negative64 t).map fun n => -Int.ofNat n
  | t => (Text.decimal? (Word.negative64 - 1) t).map Int.ofNat

/-- A 32 bit word; a zero may have any sign. -/
def word32? (s : String) : Option Nat :=
  match signed? s.toList with
  | some (.ofNat n) => if n ≤ Word.greatest32 then some n else none
  | _ => none

/-- A 64 bit word, perhaps with a plus sign. -/
def word64? (s : String) : Option Nat :=
  match s.toList with
  | '+' :: t => Text.decimal? Word.greatest64 t
  | t => Text.decimal? Word.greatest64 t

def anyText : Demand := .value fun _ => true
def aWord32 : Demand := .value fun s => (word32? s).isSome
def aWord64 : Demand := .value fun s => (word64? s).isSome
def anAddress : Demand := .value fun s => (Address.ofString? s).isSome

def options : List OptionForm := [
  { name := "bind", demand := anAddress },
  { name := "verbose", demand := .flag, letter := some 'v' },
  { name := "json", demand := .flag },
  { name := "lint-cmd", demand := anyText },
  { name := "format-cmd", demand := anyText },
  { name := "compiler-cmd", demand := anyText },
  { name := "typecheck-cmd", demand := anyText },
  { name := "runner-cmd", demand := anyText },
  { name := "module-root", demand := .file },
  { name := "allow-packages", demand := anyText },
  { name := "tool-timeout-secs", demand := aWord64 },
  { name := "exec-timeout-ms", demand := aWord64 },
  { name := "llm-base-url", demand := anyText },
  { name := "llm-model", demand := anyText },
  { name := "llm-api-key", demand := anyText },
  { name := "max-passes", demand := aWord32 },
  { name := "pass-ceiling", demand := aWord32 },
  { name := "catalog-dir", demand := .file },
  { name := "bundle-ttl-secs", demand := aWord64 },
  { name := "surrealdb-url", demand := anyText },
  { name := "surrealdb-username", demand := anyText },
  { name := "surrealdb-password", demand := anyText },
  { name := "help", demand := .help, letter := some 'h' },
  { name := "version", demand := .version, letter := some 'V' }]

/-- The settings that given values make of the usual ones. -/
def ofGiven (given : List (String × String)) : Settings :=
  let usual : Settings := {}
  let text (name : String) (d : String) : String := (given.lookup name).getD d
  let word (name : String) (read : String → Option Nat) (d : Nat) : Nat :=
    ((given.lookup name).bind read).getD d
  { bind := ((given.lookup "bind").bind Address.ofString?).getD usual.bind
    verbose := (given.lookup "verbose").isSome
    jsonLog := (given.lookup "json").isSome
    lint := text "lint-cmd" usual.lint
    format := text "format-cmd" usual.format
    compiler := text "compiler-cmd" usual.compiler
    typecheck := given.lookup "typecheck-cmd"
    runner := given.lookup "runner-cmd"
    moduleRoot := given.lookup "module-root"
    allowedPackages := text "allow-packages" usual.allowedPackages
    toolSeconds := word "tool-timeout-secs" word64? usual.toolSeconds
    executionMilliseconds := word "exec-timeout-ms" word64? usual.executionMilliseconds
    modelUrl := text "llm-base-url" usual.modelUrl
    model := text "llm-model" usual.model
    modelKey := given.lookup "llm-api-key"
    maxPasses := word "max-passes" word32? usual.maxPasses
    passCeiling := word "pass-ceiling" word32? usual.passCeiling
    catalog := given.lookup "catalog-dir"
    bundleSeconds := word "bundle-ttl-secs" word64? usual.bundleSeconds
    database := given.lookup "surrealdb-url"
    databaseUser := given.lookup "surrealdb-username"
    databasePassword := given.lookup "surrealdb-password" }

def ofArguments (arguments : List String) : Except LineFault Settings :=
  (readLine options arguments).map ofGiven

/-! ### What follows from them -/

/-- Milliseconds that a tool may take. -/
def toolLimit (s : Settings) : Nat := s.toolSeconds * 1000

/-- The command that a command line names, if it names one. -/
def command? (s : Settings) (line : String) : Option Tool.Command :=
  Tool.Command.ofLine? s.toolLimit line

def repairPolicy (s : Settings) : Repair.Policy :=
  { maxPasses := s.maxPasses, ceiling := s.passCeiling }

/-- How long bundles and results are kept, in nanoseconds. -/
def expiry (s : Settings) : Preview.Expiry := ⟨s.bundleSeconds * 1000000000, 60000000000⟩

def controls (s : Settings) : Preview.Controls :=
  { timeout := UInt64.ofNat s.executionMilliseconds }

def modulePolicy (s : Settings) : Module.Policy :=
  Module.Policy.standard.allowingList s.allowedPackages

/-- Who signs in to the database, if a user and a password are given. -/
def credentials (s : Settings) : Option (String × String) :=
  match s.databaseUser, s.databasePassword with
  | some user, some password => some (user, password)
  | _, _ => none

/-- What is said of a command line without a command. -/
def emptyCommand : String := "empty tool command"

def commandJson (s : Settings) (line : String) : Json :=
  match s.command? line with
  | some c => c.toJson
  | none => .ofFields [("error", .str "Command"), ("message", .str emptyCommand)]

/-- The settings with what follows from them. -/
def toJson (s : Settings) : Json :=
  .ofFields [("bind", .str s.bind.text), ("verbose", .bool s.verbose), ("json", .bool s.jsonLog),
    ("lint", s.commandJson s.lint), ("format", s.commandJson s.format),
    ("compiler", s.commandJson s.compiler), ("typecheck", .ofOption s.commandJson s.typecheck),
    ("runner", .ofOption s.commandJson s.runner), ("module_root", .ofOption .str s.moduleRoot),
    ("catalog_dir", .ofOption .str s.catalog), ("llm", .ofStrings [s.modelUrl, s.model]),
    ("llm_api_key", .ofOption .str s.modelKey), ("repair", s.repairPolicy.toJson),
    ("resolver", s.modulePolicy.toJson), ("sandbox", s.controls.toJson),
    ("surreal", .arr ([s.database, s.databaseUser, s.databasePassword].map (.ofOption .str))),
    ("ttl_ms", .ofNat (s.bundleSeconds * 1000)), ("sweep_ms", .ofNat (s.expiry.interval / 1000000))]

end Settings

end Mender.Server
