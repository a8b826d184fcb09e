import Mender.Http.MediaType
import Mender.Http.Message
import Mender.Server.Wiring

/-!
The routes of the service: its health, repairing a file, previewing a component, and the
modules of earlier previews.
-/

namespace Mender.Server

open Mender.Http

/-! ### Problems -/

/-- Why a request is not answered as it hopes. -/
inductive Problem
  | invalidRequest (reason : String)
  | notFound (what : String)
  | badSource (message : String) (line column : Option Nat)
  | evaluation (message : String)
  | unavailable (reason : String)
  deriving DecidableEq

namespace Problem

def status : Problem → Nat
  | .invalidRequest _ => 400
  | .notFound _ => 404
  | .badSource .. | .evaluation _ => 422
  | .unavailable _ => 503

def kind : Problem → String
  | .invalidRequest _ => "invalid_request"
  | .notFound _ => "not_found"
  | .badSource .. => "syntax"
  | .evaluation _ => "evaluation"
  | .unavailable _ => "unavailable"

/-- What is told; a bad source is told as the compiler put it. -/
def message : Problem → String
  | .invalidRequest reason => "invalid request: " ++ reason
  | .notFound what => "not found: " ++ what
  | .badSource message _ _ => message
  | .evaluation message => "evaluation failed: " ++ message
  | .unavailable reason => "service unavailable: " ++ reason

def line? : Problem → Option Nat
  | .badSource _ line _ => line
  | _ => none

def column? : Problem → Option Nat
  | .badSource _ _ column => column
  | _ => none

def response (p : Problem) : Response :=
  .json p.status (.ofPresent [("error", some (.str p.kind)), ("message", some (.str p.message)),
    ("line", p.line?.map .ofNat), ("column", p.column?.map .ofNat)])

def ofRepair : Repair.Fault → Problem
  | .invalidRequest reason => .invalidRequest reason
  | f@(.fileNotFound ..) => .notFound f.message
  | .storage f => .unavailable f.message

def ofPreview : Preview.Failure → Problem
  | .invalidRequest reason => .invalidRequest reason
  | .badSource message line column => .badSource message line column
  | .evaluation message => .evaluation message
  | .compilerUnavailable reason => .unavailable reason

end Problem

/-! ### Bodies -/

/-- The greatest number of bytes in a request's body. -/
def bodyLimit : Nat := 2097152

def wrongType : String := "Expected request with \x60Content-Type: application/json\x60"

/-- What is said of a body that is no JSON, or not of the form asked for. -/
def bodyFault (e : Json.Failure) (body : List Char) : String :=
  match e.fault with
  | .text _ => "Failed to parse the request body as JSON: " ++ e.locatedIn body
  | .shape _ =>
    "Failed to deserialize the JSON body into the target type: " ++ e.locatedIn body

def hasJson (r : Request) : Bool :=
  ((r.contentType.bind MediaType.ofString?).map MediaType.isJson).getD false

/-- The value that begins the body of a request. -/
def readBody (α : Type) [Json.Coded α] (r : Request) : Except Problem α :=
  let body := r.body.toList
  if !hasJson r then .error (.invalidRequest wrongType)
  else if bodyLimit < Text.width body then
    .error (.invalidRequest "Failed to buffer the request body: length limit exceeded")
  else match (Json.Coded.form α).parseFront body with
    | .ok j => .ok (Json.Coded.ofJson j)
    | .error e => .error (.invalidRequest (bodyFault e body))

/-! ### Routes -/

inductive Route
  | health
  | repair
  | compile
  | bundle (segment : List Char)
  deriving DecidableEq

namespace Route

/-- The route of a path. A bundle's path has its id, in one segment, after a fixed beginning. -/
def ofPath? (path : List Char) : Option Route :=
  if path = "/health".toList then some .health
  else if path = "/repair".toList then some .repair
  else if path = "/compile".toList then some .compile
  else match Text.after? "/runtime/".toList path with
    | some (c :: r) => if (c :: r).contains '/' then none else some (.bundle (c :: r))
    | _ => none

/-- The method that a route answers to. -/
def method : Route → String
  | .health | .bundle _ => "GET"
  | .repair | .compile => "POST"

end Route

/-! ### Answers -/

def healthResponse (w : Wired) (h : Preview.Holdings) : Response :=
  .json 200 (.ofFields [("status", .str "ok"), ("version", .str version),
    ("bundles", .ofNat h.bundles.size), ("sandbox", .bool w.service.sandbox.isEnabled)])

def outcomeJson (o : Repair.Outcome) : Json :=
  .ofFields [("passes", .ofNat o.passes), ("fixedCode", .str o.fixedCode),
    ("finalDiagnostics", .arr (o.finalDiagnostics.map Diagnostic.toJson)),
    ("source", .str o.provenance.name),
    ("records", .arr (o.records.map Repair.PassRecord.toJson))]

def repairResponse (w : Wired) (r : Request) : Run Response := do
  match readBody Repair.Request r with
  | .error p => return p.response
  | .ok request =>
    match ← Repair.repair w.workshop request with
    | .ok o => return .json 200 (outcomeJson o)
    | .error f => return (Problem.ofRepair f).response

def compileResponse (w : Wired) (now : Nat) (r : Request) (h : Preview.Holdings) :
    Run (Response × Preview.Holdings) := do
  match readBody Preview.Request r with
  | .error p => return (p.response, h)
  | .ok request =>
    match ← w.service.compile now request h with
    | (.ok o, h) => return (.json 200 o.toJson, h)
    | (.error f, h) => return ((Problem.ofPreview f).response, h)

def bundleResponse (w : Wired) (now : Nat) (segment : List Char) (h : Preview.Holdings) :
    Run (Response × Preview.Holdings) := do
  match segmentText? segment with
  | none => return (.plain 400 "Invalid URL: Invalid UTF-8 in \x60id\x60", h)
  | some id =>
    match ← w.service.bundle now id h with
    | (some b, h) => return (⟨200, some "text/javascript; charset=utf-8", b.code⟩, h)
    | (none, h) => return ((Problem.notFound ("runtime bundle " ++ id)).response, h)

def routeResponse (w : Wired) (now : Nat) (r : Request) (h : Preview.Holdings) :
    Route → Run (Response × Preview.Holdings)
  | .health => return (healthResponse w h, h)
  | .repair => return (← repairResponse w r, h)
  | .compile => compileResponse w now r h
  | .bundle segment => bundleResponse w now segment h

/-- Answers a request at a point in time, in nanoseconds. Where a body may be fetched its head
may be fetched alone. -/
def respond (w : Wired) (now : Nat) (r : Request) (h : Preview.Holdings) :
    Run (Response × Preview.Holdings) := do
  match Route.ofPath? r.path with
  | none => return (.empty 404, h)
  | some route =>
    if r.method = route.method then routeResponse w now r h route
    else if r.method = "HEAD" ∧ route.method = "GET" then
      let (response, h) ← routeResponse w now r h route
      return (response.bodiless, h)
    else return (.empty 405, h)

end Mender.Server
