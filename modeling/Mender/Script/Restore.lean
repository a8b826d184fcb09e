import Mender.Script.Cell
import Mender.Script.Tree
import Mender.Text.Width

/-!
From places among the cells of a script to places in the script.

The grammar counts the cells still to come, and what it says of a stretch is in signs; here bytes
are counted from the start, and the texts are put back.
-/

namespace Mender.Script

open Mender.Text

section

variable (cs : List Cell)

/-- The last cells, as many as are still to come. -/
def lastCells (left : Nat) : List Cell := cs.drop (cs.length - left)

/-- The place in the script where a number of cells is still to come. -/
def placeOf (left : Nat) : Nat := width (joined cs) - width (joined (lastCells cs left))

def Extent.restore (e : Extent) : Extent := ⟨placeOf cs e.first, placeOf cs e.last⟩

def Part.restore (p : Part) : Part where
  extent := p.extent.restore cs
  text := String.ofList (joined ((lastCells cs p.extent.first).take (p.extent.first - p.extent.last)))

def Expr.restore : Expr → Expr
  | .literal kind part => .literal kind (part.restore cs)
  | .call callee => .call (callee.restore cs)
  | .group (some inner) => .group (some inner.restore)
  | .group none => .group none
  | .other => .other

mutual

def Pattern.restore : Pattern → Pattern
  | .name n => .name n
  | .object fields => .object (restoreFields fields)
  | .array items => .array (restorePatterns items)
  | .rest p => .rest p.restore
  | .withDefault p value => .withDefault p.restore (value.restore cs)

def Field.restore : Field → Field
  | .short n => .short n
  | .shortDefault n value => .shortDefault n (value.restore cs)
  | .pair key p => .pair (key.restore cs) p.restore
  | .rest p => .rest p.restore

def restoreFields : List Field → List Field
  | [] => []
  | f :: fs => f.restore :: restoreFields fs

def restorePatterns : List Pattern → List Pattern
  | [] => []
  | p :: ps => p.restore :: restorePatterns ps

end

def Declarator.restore (d : Declarator) : Declarator :=
  ⟨d.pattern.restore cs, d.value.map (Expr.restore cs)⟩

def Declaration.restore : Declaration → Declaration
  | .bindings ds => .bindings (ds.map (Declarator.restore cs))
  | d => d

def ImportedName.restore (n : ImportedName) : ImportedName := { n with name := n.name.restore cs }

def Import.restore (i : Import) : Import :=
  { i with
    source := i.source.map (Part.restore cs)
    names := i.names.map (ImportedName.restore cs) }

def ExportedName.restore (n : ExportedName) : ExportedName :=
  { n with name := n.name.restore cs, newName := n.newName.map (Part.restore cs) }

def Export.restore : Export → Export
  | .declaration d extent isDefault => .declaration (d.restore cs) (extent.restore cs) isDefault
  | .value extent => .value (extent.restore cs)
  | .names ns source => .names (ns.map (ExportedName.restore cs)) (source.map (Part.restore cs))
  | .all source => .all (source.restore cs)
  | .whole name source => .whole (name.restore cs) (source.restore cs)
  | e => e

def Form.restore : Form → Form
  | .imports i => .imports (i.restore cs)
  | .exports e => .exports (e.restore cs)
  | .declares d => .declares (d.restore cs)
  | .other => .other

def Statement.restore (s : Statement) : Statement := ⟨s.extent.restore cs, s.form.restore cs⟩

def Tree.restore (t : Tree) : Tree :=
  ⟨t.statements.map (Statement.restore cs), t.fault.map (placeOf cs)⟩

end

end Mender.Script
