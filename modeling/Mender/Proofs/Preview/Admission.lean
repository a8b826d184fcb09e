import Mender.Preview.Sandbox
import Mender.Proofs.Preview.Graph

/-!
What the sandbox lets a runner execute.

Packages of the installation are loaded only when the policy allows them, every other text was
scanned for hazards before it was closed, and the rest are stand-ins. A hazard that is found on
the way stops the walk, so that nothing is executed.
-/

namespace Mender.Preview

open Mender.Module

/-- The text that a module of some key is closed from. -/
inductive IsText (code : String) (vs : List Visit) : String → String → Prop
  | entry : IsText code vs entryKey code
  | dependency {k text : String} (apart : k ≠ entryKey) (h : ⟨k, some text⟩ ∈ vs) :
    IsText code vs k text

/-- What a module of an executed graph may be. -/
inductive AdmittedNode (s : Scope) (code : String) (vs : List Visit) (k : String) (n : Node) : Prop
  | host (ho : n.origin.isHost = true) (ha : s.policy.evaluate k = .allowed) (hc : n.code = none)
  | scanned {text : String} {c : Closed} (ho : n.origin = .local) (ht : IsText code vs k text)
    (safe : Hazard.scan text.toList = []) (hclose : close text = .ok c) (hc : n.code = some c.code)
  | standIn (ho : n.origin = .stub) (hc : n.code = some (stubFor s k))

structure Admitted (s : Scope) (code : String) (vs : List Visit) (g : Graph) : Prop where
  entry : Hazard.scan code.toList = []
  nodes : ∀ k n, g.modules.get? k = some n → AdmittedNode s code vs k n

variable {s : Scope} {code : String} {vs : List Visit} {entry : Closed}

lemma IsForm.text {k : String} {c : Closed} (h : IsForm entry vs k c)
    (hentry : close code = .ok entry) (hscan : Hazard.scan code.toList = [])
    (safe : ∀ v ∈ vs, v.hazards = []) :
    ∃ text, IsText code vs k text ∧ Hazard.scan text.toList = [] ∧ close text = .ok c := by
  cases h with
  | entry => exact ⟨code, .entry, hscan, hentry⟩
  | @dependency _ text _ h apart hc =>
    exact ⟨text, .dependency apart h, Visit.hazards_some k text ▸ safe _ h, hc⟩

/-- The modules of a walk without hazards are admitted. -/
lemma Invariant.admitted {w : Walk} (h : Invariant s entry vs w) (hentry : close code = .ok entry)
    (hscan : Hazard.scan code.toList = []) (props : KeyMap Json) :
    Admitted s code vs { entry := entryKey, modules := w.modules, props } := by
  refine ⟨hscan, fun k n hn => ?_⟩
  have hp := h.sound.placed k n hn
  cases ho : n.origin with
  | runtime | environment =>
    obtain ⟨hnode, ha⟩ := hp.of_host (by rw [ho]; rfl)
    exact .host (by rw [ho]; rfl) ha (by rw [hnode]; rfl)
  | stub => exact .standIn ho (by rw [hp.of_stub ho]; rfl)
  | «local» =>
    obtain ⟨c, hf, hnode⟩ := hp.of_local ho
    obtain ⟨text, ht, safe, hclose⟩ := hf.text hentry hscan h.safe
    exact .scanned ho ht safe hclose (by rw [hnode]; rfl)

/-! ### Execution -/

section Execution

variable (c : Controls) (runner : Runner) (g : Graph)

/-- What of a session a runner has no part in. -/
def beyondRunner (σ : Session) : Metrics × Store × Tool.Toolchain :=
  (σ.metrics, σ.store, σ.toolchain)

lemma makes_pass (p : Call → Prop) (n : Nat) : Session.Makes p beyondRunner (Session.pass n) :=
  .modify (fun _ => rfl) fun _ => rfl

lemma makes_attemptRun : Session.Makes (· = .run g) beyondRunner (attemptRun c runner g) := by
  refine .bind (.note rfl fun _ => rfl) fun n => ?_
  dsimp only
  split
  · exact .bind (makes_pass _ _) fun _ => .pure _
  · exact .bind (makes_pass _ _) fun _ => .pure _

lemma makes_attemptFrom (left n : Nat) (last : String) (b : Breaker) :
    Session.Makes (· = .run g) beyondRunner (attemptFrom c runner g left n last b) := by
  induction left generalizing n last b with
  | zero => exact .pure _
  | succ left ih =>
    rw [attemptFrom]
    split
    · exact .pure _
    refine .bind (makes_attemptRun c runner g) fun r => ?_
    split
    · exact .pure _
    · exact .pure _
    · split
      · dsimp only
        split
        · exact ih _ _ _
        · exact .bind (makes_pass _ _) fun _ => ih _ _ _
      · exact .pure _

/-- All attempts run the given graph. -/
lemma makes_execute (b : Breaker) :
    Session.Makes (· = .run g) beyondRunner (execute c runner g b) :=
  makes_attemptFrom c runner g _ _ _ b

end Execution

/-! ### The sandbox -/

/-- The dependencies that are taken up when a module is rendered, in order. -/
def takenToRender (compile : LocalCompiler) (σ : Session) (s : Scope) (code : String) :
    List String :=
  match refuseHazards code, close code with
  | .ok _, .ok entry => takenFrom compile σ s entry
  | _, _ => []

def Inputs.scope (inputs : Inputs) (policy : Policy) : Scope :=
  .of policy inputs.dependencies inputs.stubs

def visitsToRender (compile : LocalCompiler) (σ : Session) (s : Scope) (code : String) :
    List Visit :=
  σ.answer (takeUp compile s (takenToRender compile σ s code))

/-- The session when the dependencies have been taken up. -/
def sessionToRender (compile : LocalCompiler) (σ : Session) (s : Scope) (code : String) : Session :=
  σ.after (takeUp compile s (takenToRender compile σ s code))

/-- What is made sure of when `m` renders a module with the visits `vs`, which leave the session
`τ` behind. -/
structure Guarded (runner : Runner) (controls : Controls) (s : Scope) (code : String) (b : Breaker)
    (σ : Session) (m : Run (Except Fault Rendered × Breaker)) (vs : List Visit) (τ : Session) :
    Prop where
  /-- A hazard of the entry or of a visit is answered, and nothing more is done. -/
  refused : Hazard.scan code.toList ≠ [] ∨ (∃ v ∈ vs, v.hazards ≠ []) →
    (∃ z ∈ Hazard.scan code.toList ++ vs.flatMap Visit.hazards,
      σ.answer m = (.error (.hazard z.kind.name z.line), b)) ∧ σ.after m = τ
  /-- If more is done, it is to run an admitted graph. -/
  admitted : σ.after m = τ ∨
    ∃ g, Admitted s code vs g ∧ Session.Extends (· = .run g) beyondRunner τ (σ.after m)
  /-- Without a hazard a module that can be closed is executed. -/
  executed : Hazard.scan code.toList = [] → (∀ v ∈ vs, v.hazards = []) →
    (∃ entry, close code = .ok entry) →
      ∃ g, Admitted s code vs g ∧ σ.answer m = τ.answer (execute controls runner g b) ∧
        σ.after m = τ.after (execute controls runner g b)

section Render

variable (compile : LocalCompiler) (σ : Session)

variable (runner : Runner) (controls : Controls) (policy : Policy) (code : String)
  (inputs : Inputs) (b : Breaker)

lemma render_of_hazard {z : Hazard} {zs : List Hazard} (h : Hazard.scan code.toList = z :: zs) :
    let m := Sandbox.render ⟨some runner, controls, policy⟩ compile code inputs b
    σ.answer m = (.error (.hazard z.kind.name z.line), b) ∧ σ.after m = σ := by
  simp [Sandbox.render, Sandbox.graphOf, refuseHazards, h]

lemma render_of_unclosed (h : Hazard.scan code.toList = []) {e : Refusal}
    (hc : close code = .error e) :
    σ.after (Sandbox.render ⟨some runner, controls, policy⟩ compile code inputs b) = σ := by
  simp [Sandbox.render, Sandbox.graphOf, refuseHazards, h, hc]

/-- A module that can be closed is executed, if its graph is found. -/
lemma render_of_closed (h : Hazard.scan code.toList = []) {entry : Closed}
    (hc : close code = .ok entry) :
    let m := Sandbox.render ⟨some runner, controls, policy⟩ compile code inputs b
    let r := buildGraph compile (inputs.scope policy) entry inputs.props
    σ.answer m =
      (match σ.answer r with
        | .error e => (.error e, b)
        | .ok g => (σ.after r).answer (execute controls runner g b)) ∧
    σ.after m =
      (match σ.answer r with
        | .error _ => σ.after r
        | .ok g => (σ.after r).after (execute controls runner g b)) := by
  simp only [Sandbox.render, Sandbox.graphOf, refuseHazards, h, hc, Session.answer_bind,
    Session.after_bind, Inputs.scope]
  split <;> simp [*]

lemma takenToRender_of_hazard (s : Scope) {z : Hazard} {zs : List Hazard}
    (h : Hazard.scan code.toList = z :: zs) : takenToRender compile σ s code = [] := by
  simp [takenToRender, refuseHazards, h]

lemma takenToRender_of_unclosed (s : Scope) {e : Refusal} (hc : close code = .error e) :
    takenToRender compile σ s code = [] := by
  unfold takenToRender
  rw [hc]
  cases refuseHazards code <;> rfl

lemma takenToRender_of_closed (s : Scope) (h : Hazard.scan code.toList = []) {entry : Closed}
    (hc : close code = .ok entry) :
    takenToRender compile σ s code = takenFrom compile σ s entry := by
  simp [takenToRender, refuseHazards, h, hc]

/-- A module that can be closed: either the walk stops at a hazard, or the graph is executed. -/
lemma guarded_of_closed (h : Hazard.scan code.toList = []) {entry : Closed}
    (hc : close code = .ok entry) :
    let s := inputs.scope policy
    let r := takeUp compile s (takenFrom compile σ s entry)
    Guarded runner controls s code b σ
      (Sandbox.render ⟨some runner, controls, policy⟩ compile code inputs b)
      (σ.answer r) (σ.after r) := by
  intro s r
  obtain ⟨hanswer, hafter⟩ := render_of_closed compile σ runner controls policy code inputs b h hc
  have hgraph := buildGraph_holds compile σ s entry inputs.props
  rw [after_buildGraph compile σ entry inputs.props] at hanswer hafter
  cases hg : σ.answer (buildGraph compile s entry inputs.props) with
  | error e =>
    rw [hg] at hanswer hafter hgraph
    obtain ⟨v, hv, z, zs, hz, rfl⟩ := hgraph.hazard
    have hmem : z ∈ Hazard.scan code.toList ++ (σ.answer r).flatMap Visit.hazards :=
      List.mem_append_right _ (List.mem_flatMap.2 ⟨v, hv, by simp [hz]⟩)
    have hunsafe : ¬ ∀ v ∈ σ.answer r, v.hazards = [] := by
      intro hsafe
      rw [hsafe v hv] at hz
      cases hz
    exact
      { refused := fun _ => ⟨⟨z, hmem, hanswer⟩, hafter⟩
        admitted := .inl hafter
        executed := fun _ hsafe => absurd hsafe hunsafe }
  | ok g =>
    rw [hg] at hanswer hafter hgraph
    obtain ⟨w, hw, _, rfl⟩ := hgraph
    have hadmitted := hw.admitted hc h inputs.props
    have hruns := makes_execute controls runner
      { entry := entryKey, modules := w.modules, props := inputs.props } b (σ.after r)
    refine
      { refused := fun hbad => ?_
        admitted := .inr ⟨_, hadmitted, hafter ▸ hruns⟩
        executed := fun _ _ _ => ⟨_, hadmitted, hanswer, hafter⟩ }
    rcases hbad with hbad | ⟨v, hv, hbad⟩
    · exact absurd h hbad
    · exact absurd (hw.safe v hv) hbad

/-- **The sandbox guards its runner.** A hazard anywhere on the way is answered and nothing is
run; otherwise what is run is a graph of allowed packages, scanned modules and stand-ins. -/
theorem render_guarded :
    Guarded runner controls (inputs.scope policy) code b σ
      (Sandbox.render ⟨some runner, controls, policy⟩ compile code inputs b)
      (visitsToRender compile σ (inputs.scope policy) code)
      (sessionToRender compile σ (inputs.scope policy) code) := by
  unfold visitsToRender sessionToRender
  cases hz : Hazard.scan code.toList with
  | cons z zs =>
    obtain ⟨hanswer, hafter⟩ := render_of_hazard compile σ runner controls policy code inputs b hz
    rw [takenToRender_of_hazard compile σ code _ hz, answer_takeUp_nil, after_takeUp_nil]
    exact
      { refused := fun _ => ⟨⟨z, by simp [hz], hanswer⟩, hafter⟩
        admitted := .inl hafter
        executed := fun hno => by simp [hz] at hno }
  | nil =>
    cases hc : close code with
    | error e =>
      have hafter := render_of_unclosed compile σ runner controls policy code inputs b hz hc
      rw [takenToRender_of_unclosed compile σ code _ hc, answer_takeUp_nil, after_takeUp_nil]
      exact
        { refused := fun hbad => by simp [hz] at hbad
          admitted := .inl hafter
          executed := fun _ _ ⟨entry, hno⟩ => by simp [hc] at hno }
    | ok entry =>
      rw [takenToRender_of_closed compile σ code _ hz hc]
      exact guarded_of_closed compile σ runner controls policy code inputs b hz hc

end Render

-- a hazard of a dependency
example :
    (({} : Session).answer (Sandbox.render
      ⟨some fun _ _ => { result := .ok { html := "ran" } }, {}, .standard⟩
      (fun _ _ => return .error (.unavailable "")) "import { run } from './util.js';"
      { dependencies := .ofList [("./util.js", "export const run = (s) => eval(s);")] } {})).1 =
      .error (.hazard "eval" 1) := by
  decide +kernel

end Mender.Preview
