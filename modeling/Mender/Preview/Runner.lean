import Mender.Preview.Sandbox
import Mender.Tool.Wrapper

/-!
A runner that is a command: it reads the graph and prints an envelope with what it rendered.
-/

namespace Mender.Preview

open Mender.Tool

/-- Has a graph rendered by a command. -/
def askRunner (exec : Exec) (c : Command) (g : Module.Graph) : Except Fault Rendered :=
  match ask exec "runner" c Rendered.form g.toJson with
  | .ok j => .ok (.ofJson j)
  | .error f => .error (.ofTool f)

/-- The runner that a command is. Only a run that is cut off takes time. -/
def commandRunner (exec : Exec) (c : Command) : Runner := fun _ g =>
  let result := askRunner exec c g
  match result with
  | .error (.timedOut _) => { duration := c.limit, result }
  | _ => { result }

end Mender.Preview
