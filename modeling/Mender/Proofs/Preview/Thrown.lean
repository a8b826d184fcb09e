import Mender.Proofs.Preview.Admission
import Mender.Proofs.Repair.Checks

/-!
What the sandbox says of a module that throws, and what it leaves alone.

That a module has thrown is said only if the runner has found it, when it was called last; a dependency
that does not compile is not taken for that. Nothing that the sandbox does concerns the store.
-/

namespace Mender.Preview

open Session

/-! ### Throwing -/

/-- The last call of the session was one of the runner, which came back in time with a module that
had thrown. -/
def Threw (c : Controls) (runner : Runner) (message : String) (τ : Session) : Prop :=
  ∃ g, τ.calls.getLast? = some (.run g) ∧
    (runner (τ.callsOf .runner) g).duration ≤ c.timeout.toNat ∧
    (runner (τ.callsOf .runner) g).result = .error (.evaluation message)

section Throwing

variable {c : Controls} {runner : Runner} {g : Module.Graph} {message : String}

lemma threw_attemptRun {σ : Session}
    (h : σ.answer (attemptRun c runner g) = .error (.evaluation message)) :
    Threw c runner message (σ.after (attemptRun c runner g)) := by
  have hcount (d : Nat) : Session.callsOf .runner
      { σ with calls := σ.calls ++ [.run g], clock := σ.clock + d } = σ.callsOf .runner + 1 := by
    simp [Session.callsOf, Call.collaborator]
  have hnote : σ.answer (Session.note (.run g)) = σ.callsOf .runner + 1 := answer_note σ _
  unfold attemptRun at h ⊢
  rw [answer_bind, hnote] at h
  rw [after_bind, hnote, after_note]
  by_cases hd : (runner (σ.callsOf .runner + 1) g).duration ≤ c.timeout.toNat
  · rw [if_pos hd, answer_bind, answer_pure] at h
    rw [if_pos hd, after_bind, after_pure, after_pass]
    exact ⟨g, by simp, by rw [hcount]; exact hd, by rw [hcount]; exact h⟩
  · rw [if_neg hd, answer_bind, answer_pure] at h
    cases h

lemma threw_attemptFrom {left n : Nat} {last : String} {b : Breaker} {σ : Session}
    (h : (σ.answer (attemptFrom c runner g left n last b)).1 = .error (.evaluation message)) :
    Threw c runner message (σ.after (attemptFrom c runner g left n last b)) := by
  induction left generalizing n last b σ with
  | zero =>
    rw [attemptFrom, answer_pure] at h
    cases h
  | succ left ih =>
    rw [attemptFrom] at h ⊢
    by_cases hb : b.isOpen c.threshold = true
    · rw [if_pos hb, answer_pure] at h
      cases h
    rw [if_neg hb, answer_bind] at h
    rw [if_neg hb, after_bind]
    cases hrun : σ.answer (attemptRun c runner g) with
    | ok m =>
      rw [hrun, answer_pure] at h
      cases h
    | error f =>
      cases f with
      | evaluation m =>
        rw [hrun, answer_pure, Except.error.injEq] at h
        rw [after_pure]
        exact threw_attemptRun (h ▸ hrun)
      | execution | inputOutput =>
        -- the runner is called again, perhaps after a pause
        rw [hrun] at h
        simp only [isRunnerFault, if_true] at h ⊢
        by_cases hleft : left = 0
        · rw [if_pos hleft] at h ⊢
          exact ih h
        · rw [if_neg hleft, answer_bind] at h
          rw [if_neg hleft, after_bind]
          exact ih h
      | _ =>
        rw [hrun] at h
        simp [isRunnerFault] at h

variable (box : Sandbox) {compile : LocalCompiler} {code : String} {inputs : Inputs} {b : Breaker}

/-- A dependency that does not compile is no reason for a graph not to be found. -/
lemma graphOf_ne_evaluation (σ : Session) :
    σ.answer (box.graphOf compile code inputs) ≠ .error (.evaluation message) := by
  intro h
  unfold Sandbox.graphOf refuseHazards at h
  cases hscan : Hazard.scan code.toList with
  | cons z zs =>
    rw [hscan, answer_pure] at h
    cases h
  | nil =>
    rw [hscan] at h
    cases hclose : Module.close code with
    | error e =>
      rw [hclose, answer_pure] at h
      cases h
    | ok entry =>
      rw [hclose] at h
      have hbuilt := buildGraph_holds compile σ (inputs.scope box.policy) entry inputs.props
      rw [show σ.answer (buildGraph compile (inputs.scope box.policy) entry inputs.props) = _ from h]
        at hbuilt
      obtain ⟨v, hv, z, zs, hz, he⟩ := hbuilt.hazard
      cases he

/-- **Only a module that threw** is reported as such. -/
lemma threw_render {σ : Session}
    (h : (σ.answer (box.render compile code inputs b)).1 = .error (.evaluation message)) :
    ∃ runner, box.runner = some runner ∧
      Threw box.controls runner message (σ.after (box.render compile code inputs b)) := by
  unfold Sandbox.render at h ⊢
  cases hrunner : box.runner with
  | none =>
    rw [hrunner, answer_pure] at h
    cases h
  | some runner =>
    rw [hrunner] at h
    dsimp only at h ⊢
    rw [answer_bind] at h
    rw [after_bind]
    refine ⟨runner, rfl, ?_⟩
    cases hg : σ.answer (box.graphOf compile code inputs) with
    | error e =>
      rw [hg, answer_pure] at h
      obtain rfl := Except.error.inj h
      exact absurd hg (graphOf_ne_evaluation box σ)
    | ok g =>
      rw [hg] at h
      exact threw_attemptFrom h

end Throwing

/-! ### The store -/

section Store

variable {compile : LocalCompiler} (hcompile : ∀ path source, Spares (compile path source))

include hcompile

lemma spares_takeUp (s : Scope) (ks : List String) : Spares (takeUp compile s ks) := by
  induction ks with
  | nil => exact .pure _
  | cons k ks ih =>
    refine .bind ?_ fun text => .bind ih fun vs => .pure _
    unfold dependencyText
    split
    · exact .pure _
    · split
      · exact .bind (hcompile _ _) fun _ => .pure _
      · exact .pure _

lemma spares_render (box : Sandbox) (code : String) (inputs : Inputs) (b : Breaker) :
    Spares (box.render compile code inputs b) := by
  have hgraph : Spares (box.graphOf compile code inputs) := by
    unfold Sandbox.graphOf
    split
    · exact .pure _
    · split
      · exact .pure _
      · intro σ
        rw [after_buildGraph]
        exact spares_takeUp hcompile _ _ σ
  unfold Sandbox.render
  split
  · exact .pure _
  · refine .bind hgraph fun g => ?_
    split
    · exact .pure _
    · next g =>
      refine (makes_execute box.controls _ g b).mono (fun c hc => ?_) fun σ τ hsame => ?_
      · rw [hc]
        nofun
      · obtain ⟨hmetrics, hrest⟩ := Prod.mk.inj hsame
        rw [lasting, lasting, hmetrics, (Prod.mk.inj hrest).1]

end Store

end Mender.Preview
