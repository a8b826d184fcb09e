import Mender.Proofs.Coupled
import Mender.Validation.Stages

/-!
What the stages of a validation make of the answers of the tools.

Each stage makes one call, with the text that the file has by then, and goes by the answer to it alone.
What it finds it records under its own phase.
-/

namespace Mender.Validation

open Session Tool

/-! ### Answers -/

/-- The call has come to nothing. -/
def Broken {α : Type} : Reply α → Prop
  | .answered _ => False
  | .failed _ | .crashed _ => True

/-- What is recorded of a call that has come to nothing. -/
def breakage? {α : Type} (origin : Mender.Origin) (phase : Phase) : Reply α → Option Diagnostic
  | .answered _ => none
  | .failed f => some (f.diagnostic origin phase)
  | .crashed detail => some (crashed phase origin detail)

lemma phase_of_breakage {α : Type} {x : Reply α} {origin : Mender.Origin} {phase : Phase}
    {d : Diagnostic} (h : breakage? origin phase x = some d) : d.phase = some phase := by
  cases x with
  | answered => cases h
  | failed | crashed =>
    obtain rfl := Option.some.inj h
    rfl

/-! ### What comes of an answer -/

/-- The file after the linter's answer. -/
def lintEnd (r : Result) (x : Reply LintReport) : Result :=
  match x with
  | .answered report =>
    let messages := report.messages.map LintMessage.diagnostic
    match report.fixed.filter fun f => f != r.formatted with
    | some fixed => { r with formatted := fixed, fixApplied := true }.add messages
    | none => r.add messages
  | x => r.add (breakage? .lint .lint x).toList

/-- A text that the linter leaves as it is. -/
lemma lintEnd_of_kept {r : Result} {report : LintReport}
    (h : ∀ fixed ∈ report.fixed, fixed = r.formatted) :
    lintEnd r (.answered report) = r.add (report.messages.map LintMessage.diagnostic) := by
  have hnone : report.fixed.filter (fun f => f != r.formatted) = none := by
    rw [Option.filter_eq_none_iff]
    intro fixed hmem
    simp [h fixed hmem]
  simp only [lintEnd, hnone]

lemma lintEnd_of_broken (r : Result) {x : Reply LintReport} (h : Broken x) :
    ∃ d, d.phase = some .lint ∧ lintEnd r x = r.add [d] := by
  cases x with
  | answered => exact h.elim
  | failed | crashed => exact ⟨_, rfl, rfl⟩

/-- The file after the formatter's answer. -/
def formatEnd (r : Result) (x : Reply String) : Result :=
  match x with
  | .answered text => r.withText text
  | x => r.add (breakage? .format .format x).toList

lemma formatEnd_of_kept (r : Result) : formatEnd r (.answered r.formatted) = r := if_pos rfl

lemma formatEnd_of_broken (r : Result) {x : Reply String} (h : Broken x) :
    ∃ d, d.phase = some .format ∧ formatEnd r x = r.add [d] := by
  cases x with
  | answered => exact h.elim
  | failed | crashed => exact ⟨_, rfl, rfl⟩

/-- The file after a compiler's answer. -/
def compileEnd (m : Mode) (r : Result) (x : Reply Compiled) : Result :=
  match x with
  | .answered _ => r.succeed m
  | x => r.add (breakage? .compiler m.phase x).toList

lemma compileEnd_of_broken (m : Mode) (r : Result) {x : Reply Compiled} (h : Broken x) :
    ∃ d, d.phase = some m.phase ∧ compileEnd m r x = r.add [d] := by
  cases x with
  | answered => exact h.elim
  | failed | crashed => exact ⟨_, rfl, rfl⟩

/-! ### Stages -/

section Stages

variable (t : Tools) (path : String) (r : Result)

lemma lintStage_eq : lintStage t path r = (do
    let n ← Session.note (.lint path r.formatted)
    return lintEnd r (t.lint n path r.formatted)) := by
  unfold lintStage lintEnd
  refine bind_congr fun n => ?_
  cases t.lint n path r.formatted with
  | answered report =>
    dsimp only
    cases report.fixed.filter fun f => f != r.formatted <;> rfl
  | failed | crashed => rfl

lemma formatStage_eq (parser : String) : formatStage t parser r = (do
    let n ← Session.note (.format parser r.formatted)
    return formatEnd r (t.format n parser r.formatted)) := by
  unfold formatStage formatEnd
  refine bind_congr fun n => ?_
  cases t.format n parser r.formatted <;> rfl

lemma compileStage_eq (compile : Nat → Mode → (file source : String) → Reply Compiled) (m : Mode) :
    compileStage compile path m r = (do
      let n ← Session.note (.tryCompile m path r.formatted)
      return compileEnd m r (compile n m path r.formatted)) := by
  unfold compileStage compileEnd
  refine bind_congr fun n => ?_
  cases compile n m path r.formatted <;> rfl

/-- A file goes through all stages. -/
lemma validateFile_eq (c : Config) (content : String) : validateFile t c path content = (do
    let fault ← startTools t
    let r ← inspect t fault (FileKind.ofPath path) path
      (.pending content (FileKind.ofPath path == .component))
    let r ← arrange t fault (FileKind.ofPath path) path r
    let r ← tryModes t (FileKind.ofPath path) path r
    return findHazards c (FileKind.ofPath path) r) := by
  refine bind_congr fun fault => ?_
  unfold validateOne
  generalize FileKind.ofPath path = kind
  rfl

end Stages

/-! ### Stages in alike sessions -/

/-- Alike sessions stay alike when a stage asks its tool, and the tool cannot tell one from the other. -/
structure AskedAlike (t : Tools) (R : Session → Session → Prop) : Prop where
  lint : ∀ path source, Coupled R (fun n m => t.lint n = t.lint m)
    (note (.lint path source)) (note (.lint path source))
  format : ∀ parser source, Coupled R (fun n m => t.format n = t.format m)
    (note (.format parser source)) (note (.format parser source))
  compile : ∀ compile ∈ t.compile, ∀ mode path source, Coupled R (fun n m => compile n = compile m)
    (note (.tryCompile mode path source)) (note (.tryCompile mode path source))

section Alike

variable {R : Session → Session → Prop} {t : Tools} (h : AskedAlike t R) (path : String) (r : Result)
  (fault : Option Fault) (kind : FileKind)

include h

lemma steady_inspect : Steady R (inspect t fault kind path r) := by
  unfold inspect
  split
  · exact .pure rfl
  · split
    · split
      · rw [lintStage_eq]
        exact (h.lint _ _).bind fun n m hn => .pure (by rw [hn])
      · exact .pure rfl
    · exact .pure rfl

lemma steady_arrange : Steady R (arrange t fault kind path r) := by
  unfold arrange
  split
  · rw [formatStage_eq]
    exact (h.format _ _).bind fun n m hn => .pure (by rw [hn])
  · exact .pure rfl

lemma steady_tryModes : Steady R (tryModes t kind path r) := by
  unfold tryModes
  split
  · split
    · next compile hcompile =>
      have hstage (mode : Mode) (r : Result) : Steady R (compileStage compile path mode r) := by
        rw [compileStage_eq]
        exact (h.compile compile hcompile mode _ _).bind fun n m hn => .pure (by rw [hn])
      exact .bind_eq (hstage .static r) fun r => hstage .interactive r
    · exact .pure rfl
  · exact .pure rfl

/-- **One file** is judged alike in alike sessions. -/
lemma steady_validateOne (c : Config) (content text : String) :
    Steady R (validateOne t c fault path content text) := by
  unfold validateOne
  exact .bind_eq (steady_inspect h path _ fault _) fun r =>
    .bind_eq (steady_arrange h path r fault _) fun r =>
      .bind_eq (steady_tryModes h path r _) fun r => .pure rfl

end Alike

end Mender.Validation
