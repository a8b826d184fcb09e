import Mender.Proofs.Script.Extents
import Mender.Proofs.Script.SameStatement

/-!
What the imports of a script bring.

An import brings bindings of a module: each has the module, what it is there and its name here. What a
statement brings is told by its cells: two statements with the same cells up to the module bring the
same, each in its own script.
-/

namespace Mender.Script

open Mender.Text TwoPlaces

/-! ### Bindings -/

/-- What is taken of a module; an import without names takes nothing, but the module is loaded. -/
inductive Taken
  | nothing
  | default
  | whole
  | named (name : String)
  deriving DecidableEq

/-- A binding that an import brings: the module, what is taken of it and the name it gets. -/
structure Binding where
  module : String
  taken : Taken
  localName : Option String
  deriving DecidableEq

/-- The bindings that an import takes of a module. -/
def Import.takesOf (i : Import) (module : String) : List Binding :=
  i.default.toList.map (fun n => ⟨module, .default, some n⟩) ++
    i.whole.toList.map (fun n => ⟨module, .whole, some n⟩) ++
    i.names.map fun n => ⟨module, .named n.name.value, some n.localName⟩

/-- What an import brings: its bindings, or the module alone. An import without a module has its value
from a call. -/
def Import.brings (i : Import) : List Binding :=
  match i.source.map Part.value with
  | none => []
  | some module =>
    match i.takesOf module with
    | [] => [⟨module, .nothing, none⟩]
    | bs => bs

def Statement.brings (s : Statement) : List Binding :=
  match s.form with
  | .imports i => i.brings
  | _ => []

/-- Imports that say the same bring the same. -/
lemma TwoPlaces.SameImport.brings {m : TwoPlaces} {i i' : Import} (h : m.SameImport i i') :
    (i.restore m.script).brings = (i'.restore m.script').brings := by
  obtain ⟨typeOnly, source, default, whole, names⟩ := i
  obtain ⟨typeOnly', source', default', whole', names'⟩ := i'
  obtain ⟨-, rfl, rfl, hnames, hsource⟩ := h
  dsimp only at hnames hsource
  have hpart {p p' : Part} (h : m.SamePart p p') :
      (p.restore m.script).value = (p'.restore m.script').value := by
    unfold Part.value
    rw [h]
  have hmap (module : String) : (names.map (ImportedName.restore m.script)).map (fun n : ImportedName =>
        (⟨module, .named n.name.value, some n.localName⟩ : Binding)) =
      (names'.map (ImportedName.restore m.script')).map fun n : ImportedName =>
        (⟨module, .named n.name.value, some n.localName⟩ : Binding) := by
    induction hnames with
    | nil => rfl
    | @cons n n' ns ns' hn _ ih =>
      refine congrArg₂ List.cons ?_ ih
      have hname := hpart hn.name
      have hnew := hn.newName
      simp only [ImportedName.restore, ImportedName.localName, hname, hnew]
  have hmodule : (source.map (Part.restore m.script)).map Part.value =
      (source'.map (Part.restore m.script')).map Part.value := by
    cases hsource with
    | none => rfl
    | some hp => exact congrArg some (hpart hp)
  simp only [Import.brings, Import.takesOf, Import.restore, hmodule, hmap]

/-! ### The cells of a statement -/

variable {loose : Bool} {t t' : List Char} {s s' : Statement}

/-- The cells of a statement of a script. -/
def pieceOf (t : List Char) (s : Statement) : List Cell :=
  (lastCells (cells t) s.extent.first).take (s.extent.first - s.extent.last)

lemma readStatement_suffix (v : List Char) : (readStatement v).2.2 <:+ v := by
  obtain ⟨a, ha, -⟩ := ready_readStatement (List.suffix_refl v)
  exact ⟨a, ha.symm⟩

lemma formBetween_readStatement {v : List Char} (h : (readStatement v).1 = some s) :
    ∃ rest, rest <:+ v ∧ rest.length = s.extent.last ∧ FormBetween v s.form rest := by
  unfold readStatement at h
  split at h
  · next form c hread =>
    cases h
    refine ⟨c.rest, ((run _ _).forward hread).rest, rfl, ?_⟩
    rw [fuelFor_eq] at hread
    exact post_statementRule (post_importNames _) (.atStart v) form c hread
  · cases h

/-- Every statement of a row is read from its first sign. -/
lemma exists_readStatement {n : Nat} {v : List Char} (h : s ∈ (readStatements n v).1) :
    ∃ u, u <:+ v ∧ (readStatement u).1 = some s ∧ s.extent.first = u.length := by
  induction n generalizing v with
  | zero => cases h
  | succ n ih =>
    have hstart := statementStart_suffix v.length v
    rw [readStatements] at h
    generalize statementStart v.length v = u at h hstart
    split at h
    · cases h
    · next hne =>
      rcases List.mem_append.1 h with h | h
      · rw [Option.mem_toList] at h
        exact ⟨u, hstart, h, (extent_readStatement h hne).1⟩
      · obtain ⟨w, hw, hread, hfirst⟩ := ih h
        exact ⟨w, (hw.trans (readStatement_suffix u)).trans hstart, hread, hfirst⟩

/-- The end of the signs of a row are the signs of its end. -/
lemma exists_signs {cs : List Cell} {r : List Char} (h : r <:+ signs cs) :
    ∃ ds, ds <:+ cs ∧ r = signs ds := by
  obtain ⟨a, ha⟩ := h
  obtain ⟨as, ds, rfl, -, hds⟩ := List.map_eq_append_iff.1 ha.symm
  exact ⟨ds, List.suffix_append _ _, hds.symm⟩

/-- A statement is read from its cells and what comes behind them. -/
lemma exists_pieceOf (h : s ∈ rowOf t) : ∃ r, pieceOf t s ++ r <:+ cells t ∧
    (readStatement (signs (pieceOf t s ++ r))).1 = some s ∧
    s.extent = ⟨(pieceOf t s ++ r).length, r.length⟩ := by
  obtain ⟨u, hu, hread, hfirst⟩ := exists_readStatement h
  obtain ⟨ds, hds, rfl⟩ := exists_signs hu
  rw [length_signs] at hfirst
  have hle := (mem_rowOf h).1
  have hsplit := List.take_append_drop (s.extent.first - s.extent.last) ds
  have hpiece : pieceOf t s = ds.take (s.extent.first - s.extent.last) := by
    rw [pieceOf, hfirst, lastCells_suffix hds]
  refine ⟨ds.drop (s.extent.first - s.extent.last), ?_, ?_, ?_⟩
  · rwa [hpiece, hsplit]
  · rwa [hpiece, hsplit]
  · have hlast : s.extent.last = (ds.drop (s.extent.first - s.extent.last)).length := by
      rw [List.length_drop]
      omega
    rw [hpiece, hsplit, ← hfirst, ← hlast]

/-- The module of an import is a literal among its cells. -/
lemma exists_module (h : s ∈ rowOf t) {i : Import} (hi : s.form = .imports i) {p : Part}
    (hp : i.source = some p) : ∃ y u w r, pieceOf t s = y ++ .literal u :: w ∧
      y ++ .literal u :: (w ++ r) <:+ cells t ∧
      (readStatement (signs (y ++ .literal u :: (w ++ r)))).1 = some s ∧
      p.extent.last = (w ++ r).length := by
  obtain ⟨r, hsuffix, hread, hplace⟩ := exists_pieceOf h
  obtain ⟨rest, -, hlength, hform⟩ := formBetween_readStatement hread
  have hlast : s.extent.last = r.length := congrArg Extent.last hplace
  obtain ⟨mid, hmid, hpart, -⟩ := hform i hi p hp
  obtain ⟨u, ds, hds, hextent⟩ := (hpart.mono hmid (List.suffix_refl _)).exists_literal
  have hle : rest.length ≤ ds.length := by
    have hbetween := hpart.between.last
    rwa [hextent] at hbetween
  obtain ⟨w, rfl⟩ : r <:+ ds :=
    List.suffix_of_suffix_length_le (List.suffix_append _ r)
      ((List.suffix_cons _ ds).trans hds) (by omega)
  obtain ⟨y, hy⟩ := hds
  have hpiece : pieceOf t s = y ++ .literal u :: w := by
    have hrow : pieceOf t s ++ r = (y ++ .literal u :: w) ++ r := by
      rw [← hy, List.append_assoc, List.cons_append]
    exact List.append_cancel_right hrow
  exact ⟨y, u, w, r, hpiece, hy ▸ hsuffix, hy ▸ hread, congrArg Extent.last hextent⟩

/-! ### Pieces that tell the same -/

/-- Whatever literal of the first row is a module, the second one has it too, behind cells that are alike. -/
def Tells (loose : Bool) (v v' : List Cell) : Prop :=
  ∀ y u w, v = y ++ .literal u :: w → (loose = true → NoLine y) ∧
    ∃ y' w', v' = y' ++ .literal u :: w' ∧ Alike loose y y'

lemma tells_of_eq {v v' : List Cell} (h : v = v') : Tells false v v' :=
  fun y _ w hy => ⟨fun hl => absurd hl Bool.false_ne_true, y, w, h ▸ hy, .refl _ y⟩

/-- An import with a module brings what a statement that tells the same brings. -/
lemma brings_of_import (hs : s ∈ rowOf t) (hs' : s' ∈ rowOf t')
    (h : Tells loose (pieceOf t s) (pieceOf t' s')) {i : Import} (hi : s.form = .imports i) {p : Part}
    (hp : i.source = some p) :
    (∃ i' p', s'.form = .imports i' ∧ i'.source = some p') ∧
      (s.restore (cells t)).brings = (s'.restore (cells t')).brings := by
  obtain ⟨y, u, w, r, hpiece, hsuffix, hread, hlast⟩ := exists_module hs hi hp
  obtain ⟨hline, y', w', hpiece', halike⟩ := h y u w hpiece
  obtain ⟨r', hsuffix', hread', -⟩ := exists_pieceOf hs'
  have hrow : pieceOf t' s' ++ r' = y' ++ .literal u :: (w' ++ r') := by rw [hpiece']; simp
  rw [hrow] at hsuffix' hread'
  let m : TwoPlaces := ⟨loose, u, cells t, w ++ r, cells t', w' ++ r'⟩
  have hahead : m.Ahead (y'.length + 1) (signs (y ++ .literal u :: (w ++ r)))
      (signs (y' ++ .literal u :: (w' ++ r'))) :=
    .mk (m := m) halike hline (Nat.lt_succ_self _) hsuffix hsuffix'
  obtain ⟨i', hi', hsame⟩ := sameImport_readStatement hahead hread hread' hi hp hlast
  obtain ⟨p', hp'⟩ : ∃ p', i'.source = some p' := by
    have hsource := hsame.source
    rw [hp] at hsource
    cases hsource' : i'.source with
    | none =>
      rw [hsource'] at hsource
      cases hsource
    | some p' => exact ⟨p', rfl⟩
  refine ⟨⟨i', p', hi', hp'⟩, ?_⟩
  simp only [Statement.brings, Statement.restore, hi, hi', Form.restore]
  exact hsame.brings

/-- Without a module nothing is brought. -/
lemma brings_eq_nil {cs : List Cell} (h : ∀ i p, s.form = .imports i → i.source ≠ some p) :
    (s.restore cs).brings = [] := by
  cases hs : s.form with
  | imports i =>
    have hnone : i.source = none := Option.eq_none_iff_forall_ne_some.2 fun p => h i p hs
    simp [Statement.brings, Statement.restore, hs, Form.restore, Import.brings, Import.restore, hnone]
  | _ => simp [Statement.brings, Statement.restore, hs, Form.restore]

/-- **Statements that tell the same bring the same.** -/
theorem brings_eq (hs : s ∈ rowOf t) (hs' : s' ∈ rowOf t') (h : Tells loose (pieceOf t s) (pieceOf t' s'))
    (h' : Tells loose (pieceOf t' s') (pieceOf t s)) :
    (s.restore (cells t)).brings = (s'.restore (cells t')).brings := by
  by_cases hmodule : ∃ i p, s.form = .imports i ∧ i.source = some p
  · obtain ⟨i, p, hi, hp⟩ := hmodule
    exact (brings_of_import hs hs' h hi hp).2
  · by_cases hmodule' : ∃ i p, s'.form = .imports i ∧ i.source = some p
    · obtain ⟨i, p, hi, hp⟩ := hmodule'
      exact ((brings_of_import hs' hs h' hi hp).2).symm
    · rw [brings_eq_nil fun i p hi hp => hmodule ⟨i, p, hi, hp⟩,
        brings_eq_nil fun i p hi hp => hmodule' ⟨i, p, hi, hp⟩]

end Mender.Script
