import Mender.Server.Routes

/-!
The command line.

The arguments give the settings. Requests come on standard input, one JSON object on a line,
and each is answered by one line. Programs and networks cannot be reached from here, so tools
count as missing.
-/

namespace Mender.Main

open Mender.Server

def usage : String :=
  "Repairs and previews generated components.\n\n" ++
    "Usage: mender [OPTIONS]\n\nOptions:\n" ++
    String.join (Settings.options.map fun f => "  --" ++ f.name ++ "\n")

/-- What a command line comes to when it starts no service: a text and an exit code. -/
def lineEnd : LineFault → String × UInt32
  | .helpAsked => (usage, 0)
  | .versionAsked => ("mender " ++ version ++ "\n", 0)
  | .unknownArgument => ("error: unexpected argument\n", 2)
  | .missingValue => ("error: a value is required\n", 2)
  | .invalidValue => ("error: invalid value\n", 2)
  | .unneededValue => ("error: unexpected value\n", 2)
  | .repeated => ("error: an option is given twice\n", 2)

/-- A service with what it keeps. -/
structure State where
  wired : Wired
  holdings : Preview.Holdings := {}
  session : Session := {}

/-- Answers a line at a point in time, in nanoseconds. The calls of a request are forgotten
when it has been answered. -/
def State.answer (s : State) (now : Nat) (line : String) : String × State :=
  let t := line.toList
  match Http.Request.form.parse t with
  | .error e => ((Http.Response.plain 400 (e.messageIn t)).toJson.compact, s)
  | .ok j =>
    let ((r, holdings), session) := (respond s.wired now (.ofJson j) s.holdings).run s.session
    (r.toJson.compact, { s with holdings, session := { session with calls := [] } })

partial def serve (input output : IO.FS.Stream) (s : State) : IO Unit := do
  let line ← input.getLine
  if line.isEmpty then return
  let (answer, s) := s.answer (← IO.monoNanosNow) line
  output.putStrLn answer
  output.flush
  serve input output s

end Mender.Main

open Mender.Main Mender.Server in
def main (arguments : List String) : IO UInt32 := do
  match Settings.ofArguments arguments with
  | .error f =>
    let (text, code) := lineEnd f
    (if code = 0 then IO.print else IO.eprint) text
    return code
  | .ok settings =>
    match Wired.ofSettings .bare settings with
    | .error f =>
      IO.eprintln ("error: " ++ f.message)
      return 1
    | .ok wired =>
      serve (← IO.getStdin) (← IO.getStdout) { wired }
      return 0
