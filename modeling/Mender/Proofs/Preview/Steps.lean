import Mathlib.Tactic.Common
import Mathlib.Tactic.Lemma
import Mender.Preview.Walk
import Mender.Proofs.KeyMap
import Mender.Proofs.Session

/-!
What following an import does.

A key that was met before is passed over. Any other becomes the key of a module at once, or,
when it is a dependency that can be closed, of a module whose own imports are to be followed.
Only taking up a dependency makes calls, so the calls of a whole walk are those for the
dependencies that it takes up, one after the other.
-/

namespace Mender.Preview

open Mender.Module

/-! ### Where a specifier leads -/

/-- The ways for a specifier to lead to a target, in the order in which they are tried. -/
inductive Leads (s : Scope) (dir i : String) : Target → Prop
  | runtime (h : s.policy.isRuntime i = true) : Leads s dir i ⟨.runtime, i⟩
  | prepared (hr : ¬ s.policy.isRuntime i = true) (h : isStub i = true) : Leads s dir i ⟨.stub, i⟩
  | dependency {k : String} (hr : ¬ s.policy.isRuntime i = true) (hs : ¬ isStub i = true)
    (hl : isLocal i = true)
    (h : (candidates (normalize dir i)).find? s.dependencies.contains = some k) :
    Leads s dir i ⟨.local, k⟩
  | missing (hr : ¬ s.policy.isRuntime i = true) (hs : ¬ isStub i = true) (hl : isLocal i = true)
    (h : (candidates (normalize dir i)).find? s.dependencies.contains = none) :
    Leads s dir i ⟨.stub, normalize dir i⟩
  | allowed (hr : ¬ s.policy.isRuntime i = true) (hs : ¬ isStub i = true)
    (hl : ¬ isLocal i = true) (h : s.policy.evaluate i = .allowed) :
    Leads s dir i ⟨.environment, i⟩
  | denied {reason : String} (hr : ¬ s.policy.isRuntime i = true) (hs : ¬ isStub i = true)
    (hl : ¬ isLocal i = true) (h : s.policy.evaluate i = .denied reason) :
    Leads s dir i ⟨.stub, i⟩

section Locate

variable (s : Scope) (dir i : String)

theorem leads_locate : Leads s dir i (locate s dir i) := by
  unfold locate
  by_cases hr : s.policy.isRuntime i = true
  · rw [if_pos hr]
    exact .runtime hr
  rw [if_neg hr]
  by_cases hs : isStub i = true
  · rw [if_pos hs]
    exact .prepared hr hs
  rw [if_neg hs]
  by_cases hl : isLocal i = true
  · rw [if_pos hl]
    dsimp only
    split
    · next k h => exact .dependency hr hs hl h
    · next h => exact .missing hr hs hl h
  rw [if_neg hl]
  split
  · next h => exact .allowed hr hs hl h
  · next h => exact .denied hr hs hl h

lemma locate_host (h : (locate s dir i).origin.isHost = true) :
    s.policy.evaluate (locate s dir i).key = .allowed := by
  have hleads := leads_locate s dir i
  generalize locate s dir i = t at h hleads
  cases hleads with
  | runtime hr => exact if_pos hr
  | allowed _ _ _ hallowed => exact hallowed
  | prepared | dependency | missing | denied => cases h

lemma locate_local (h : (locate s dir i).origin = .local) :
    s.dependencies.contains (locate s dir i).key = true := by
  have hleads := leads_locate s dir i
  generalize locate s dir i = t at h hleads
  cases hleads with
  | dependency _ _ _ hfound => exact List.find?_some hfound
  | runtime | prepared | missing | allowed | denied => cases h

end Locate

/-! ### Taking up dependencies -/

/-- A dependency that was taken up, with its text if it has one. -/
structure Visit where
  key : String
  text : Option String

namespace Visit

/-- What a visit finds in a text. -/
def hazards (v : Visit) : List Hazard := v.text.toList.flatMap fun t => Hazard.scan t.toList

@[simp] lemma hazards_some (k text : String) :
    (⟨k, some text⟩ : Visit).hazards = Hazard.scan text.toList := by
  simp [hazards]

/-- The closed form that a visit ends with, if it ends with one. -/
def closed? (v : Visit) : Option Closed := v.text.bind fun t => (close t).toOption

end Visit

/-- Takes up some dependencies, one after the other. -/
def takeUp (compile : LocalCompiler) (s : Scope) : List String → Run (List Visit)
  | [] => return []
  | k :: ks => do
    let text ← dependencyText compile s k
    return ⟨k, text⟩ :: (← takeUp compile s ks)

variable (compile : LocalCompiler) (s : Scope) (σ : Session)

@[simp] lemma answer_takeUp_nil : σ.answer (takeUp compile s []) = [] := by simp [takeUp]

@[simp] lemma after_takeUp_nil : σ.after (takeUp compile s []) = σ := by simp [takeUp]

lemma answer_takeUp_append (ks ls : List String) :
    σ.answer (takeUp compile s (ks ++ ls)) =
      σ.answer (takeUp compile s ks) ++
        (σ.after (takeUp compile s ks)).answer (takeUp compile s ls) := by
  induction ks generalizing σ with
  | nil => simp
  | cons k ks ih => simp [takeUp, ih]

lemma after_takeUp_append (ks ls : List String) :
    σ.after (takeUp compile s (ks ++ ls)) =
      (σ.after (takeUp compile s ks)).after (takeUp compile s ls) := by
  induction ks generalizing σ with
  | nil => simp
  | cons k ks ih => simp [takeUp, ih]

lemma keys_takeUp (ks : List String) :
    (σ.answer (takeUp compile s ks)).map Visit.key = ks := by
  induction ks generalizing σ with
  | nil => simp
  | cons k ks ih => simp [takeUp, ih]

@[simp] lemma answer_takeUp_single (k : String) :
    σ.answer (takeUp compile s [k]) = [⟨k, σ.answer (dependencyText compile s k)⟩] := by
  simp [takeUp]

@[simp] lemma after_takeUp_single (k : String) :
    σ.after (takeUp compile s [k]) = σ.after (dependencyText compile s k) := by
  simp [takeUp]

/-- If the compiler notes the paths that it is given, it notes those of the components among
the dependencies, in order. -/
lemma log_takeUp {log : Session → List String}
    (hlog : ∀ τ path source, log (Session.after τ (compile path source)) = log τ ++ [path])
    {ks : List String} (hks : ∀ k ∈ ks, s.dependencies.contains k = true) :
    log (σ.after (takeUp compile s ks)) = log σ ++ ks.filter isComponentPath := by
  induction ks generalizing σ with
  | nil => simp
  | cons k ks ih =>
    obtain ⟨source, hk⟩ := KeyMap.contains_iff.1 (hks k List.mem_cons_self)
    have hrest := fun τ => ih τ fun l hl => hks l (List.mem_cons_of_mem _ hl)
    have hfirst : log (σ.after (dependencyText compile s k)) =
        log σ ++ [k].filter isComponentPath := by
      rw [dependencyText, hk]
      by_cases hc : isComponentPath k = true <;> simp [hc, hlog]
    have hsplit : σ.after (takeUp compile s (k :: ks)) =
        (σ.after (dependencyText compile s k)).after (takeUp compile s ks) := by
      simp [takeUp]
    rw [hsplit, hrest, hfirst, List.append_assoc, ← List.filter_append, List.singleton_append]

/-! ### Which dependencies are taken up -/

/-- The dependency that is taken up when an import is followed. -/
def takenBy (dir : String) (w : Walk) (i : String) : List String :=
  let t := locate s dir i
  if t.origin = .local ∧ t.key ∉ w.seen then [t.key] else []

def takenByAll (dir : String) : Session → Walk → List String → List String
  | _, _, [] => []
  | σ, w, i :: is =>
    let r := follow compile s dir w i
    takenBy s dir w i ++
      match σ.answer r with
      | .error _ => []
      | .ok w => takenByAll dir (σ.after r) w is

/-- The dependencies that a walk takes up, in order. -/
def taken : (steps : Nat) → Session → Walk → List String
  | 0, _, _ => []
  | n + 1, σ, w =>
    match w.pending with
    | [] => []
    | (key, c) :: rest =>
      let w := { w with pending := rest }
      let r := followAll compile s (directoryOf key) w c.imports
      takenByAll compile s (directoryOf key) σ w c.imports ++
        match σ.answer r with
        | .error _ => []
        | .ok w => taken n (σ.after r) (w.finish key (nodeOf s key c))

/-! ### One step -/

/-- What following a specifier that leads to `t` may come to, with the visits that it makes. -/
inductive Step (t : Target) (w : Walk) : List Visit → Except Fault Walk → Prop
  | met (h : t.key ∈ w.seen) : Step t w [] (.ok w)
  | host (new : t.key ∉ w.seen) (h : t.origin.isHost = true) :
    Step t w [] (.ok (w.add t.key (.host t.origin)))
  | standIn (new : t.key ∉ w.seen) (h : t.origin = .stub) :
    Step t w [] (.ok (w.add t.key (standIn s t.key)))
  | closed {text : String} {c : Closed} (new : t.key ∉ w.seen) (h : t.origin = .local)
    (safe : Hazard.scan text.toList = []) (hc : close text = .ok c) :
    Step t w [⟨t.key, some text⟩] (.ok (w.enqueue t.key c))
  | failed {v : Visit} (new : t.key ∉ w.seen) (h : t.origin = .local) (hv : v.key = t.key)
    (safe : v.hazards = []) (hc : v.closed? = none) :
    Step t w [v] (.ok (w.add t.key (standIn s t.key)))
  | refused {v : Visit} {z : Hazard} {zs : List Hazard} (new : t.key ∉ w.seen)
    (h : t.origin = .local) (hv : v.key = t.key) (hz : v.hazards = z :: zs) :
    Step t w [v] (.error (.hazard z.kind.name z.line))

lemma closeDependency_of_safe {text : String} (h : Hazard.scan text.toList = []) :
    closeDependency text = .ok (close text).toOption := by
  simp [closeDependency, refuseHazards, h]

lemma closeDependency_of_hazard {text : String} {z : Hazard} {zs : List Hazard}
    (h : Hazard.scan text.toList = z :: zs) :
    closeDependency text = .error (.hazard z.kind.name z.line) := by
  simp [closeDependency, refuseHazards, h]

lemma answer_materialize (k : String) :
    σ.answer (materialize compile s k) =
      match σ.answer (dependencyText compile s k) with
      | none => .ok none
      | some text => closeDependency text := by
  rw [materialize, Session.answer_bind]
  split <;> simp [*]

lemma after_materialize (k : String) :
    σ.after (materialize compile s k) = σ.after (dependencyText compile s k) := by
  rw [materialize, Session.after_bind]
  split <;> simp

/-- What becomes of a dependency that is met for the first time. -/
def settle (s : Scope) (k : String) (w : Walk) : Except Fault (Option Closed) → Except Fault Walk
  | .error e => .error e
  | .ok (some c) => .ok (w.enqueue k c)
  | .ok none => .ok (w.add k (standIn s k))

lemma step_settle {w : Walk} {k : String} (new : k ∉ w.seen) :
    Step s ⟨.local, k⟩ w [⟨k, σ.answer (dependencyText compile s k)⟩]
      (settle s k w (σ.answer (materialize compile s k))) := by
  rw [answer_materialize]
  generalize σ.answer (dependencyText compile s k) = text
  cases text with
  | none => exact .failed new rfl rfl rfl rfl
  | some text =>
    dsimp only
    cases hz : Hazard.scan text.toList with
    | cons z zs =>
      rw [closeDependency_of_hazard hz]
      exact .refused new rfl rfl (by simpa using hz)
    | nil =>
      rw [closeDependency_of_safe hz]
      cases hc : close text with
      | ok c => exact .closed new rfl hz hc
      | error e =>
        have hnone : (⟨k, some text⟩ : Visit).closed? = none := by
          simp [Visit.closed?, hc, Except.toOption]
        exact .failed new rfl rfl (by simpa using hz) hnone

/-- Following an import makes a step, and no other calls than those of its visits. -/
theorem follow_step (dir : String) (w : Walk) (i : String) :
    Step s (locate s dir i) w (σ.answer (takeUp compile s (takenBy s dir w i)))
        (σ.answer (follow compile s dir w i)) ∧
      σ.after (follow compile s dir w i) =
        σ.after (takeUp compile s (takenBy s dir w i)) := by
  unfold follow takenBy
  generalize locate s dir i = t
  obtain ⟨o, k⟩ := t
  dsimp only
  by_cases new : k ∈ w.seen
  · simpa [new] using Step.met new
  have hn : ¬ w.seen.contains k = true := by simpa using new
  rw [if_neg hn]
  cases o with
  | runtime => simpa using Step.host new rfl
  | environment => simpa using Step.host new rfl
  | stub => simpa using Step.standIn new rfl
  | «local» =>
    rw [if_pos ⟨rfl, new⟩, answer_takeUp_single, after_takeUp_single, Session.answer_bind,
      Session.after_bind, after_materialize]
    have h := step_settle compile s σ new
    split
    · next e he => simpa [he, settle] using h
    · next c hc => simpa [hc, settle] using h
    · next hn => simpa [hn, settle] using h

/-! ### Whole walks -/

lemma answer_followAll_cons (dir : String) (w : Walk) (i : String) (is : List String) :
    σ.answer (followAll compile s dir w (i :: is)) =
      match σ.answer (follow compile s dir w i) with
      | .error e => .error e
      | .ok w' => (σ.after (follow compile s dir w i)).answer (followAll compile s dir w' is) := by
  rw [followAll, Session.answer_bind]
  split <;> simp [*]

lemma after_followAll_cons (dir : String) (w : Walk) (i : String) (is : List String) :
    σ.after (followAll compile s dir w (i :: is)) =
      match σ.answer (follow compile s dir w i) with
      | .error _ => σ.after (follow compile s dir w i)
      | .ok w' => (σ.after (follow compile s dir w i)).after (followAll compile s dir w' is) := by
  rw [followAll, Session.after_bind]
  split <;> simp [*]

/-- Following some imports makes no other calls than those of its visits. -/
lemma after_followAll (dir : String) (w : Walk) (is : List String) :
    σ.after (followAll compile s dir w is) =
      σ.after (takeUp compile s (takenByAll compile s dir σ w is)) := by
  induction is generalizing σ w with
  | nil => simp [followAll, takenByAll]
  | cons i is ih =>
    rw [after_followAll_cons, takenByAll, after_takeUp_append,
      ← (follow_step compile s σ dir w i).2]
    cases σ.answer (follow compile s dir w i) with
    | error e => simp
    | ok w' => exact ih _ w'

lemma answer_walk_succ {w : Walk} {m : String × Closed} {rest : List (String × Closed)}
    (h : w.pending = m :: rest) (n : Nat) :
    let r := followAll compile s (directoryOf m.1) { w with pending := rest } m.2.imports
    σ.answer (walk compile s (n + 1) w) =
      match σ.answer r with
      | .error e => .error e
      | .ok w' => (σ.after r).answer (walk compile s n (w'.finish m.1 (nodeOf s m.1 m.2))) := by
  rw [walk, h]
  dsimp only
  rw [Session.answer_bind]
  split <;> simp [*]

lemma after_walk_succ {w : Walk} {m : String × Closed} {rest : List (String × Closed)}
    (h : w.pending = m :: rest) (n : Nat) :
    let r := followAll compile s (directoryOf m.1) { w with pending := rest } m.2.imports
    σ.after (walk compile s (n + 1) w) =
      match σ.answer r with
      | .error _ => σ.after r
      | .ok w' => (σ.after r).after (walk compile s n (w'.finish m.1 (nodeOf s m.1 m.2))) := by
  rw [walk, h]
  dsimp only
  rw [Session.after_bind]
  split <;> simp [*]

/-- Where imports are followed without a fault, the first of them is followed, and then the others,
with the visits of both. -/
lemma exists_of_followAll_cons {dir i : String} {is : List String} {w w' : Walk}
    (h : σ.answer (followAll compile s dir w (i :: is)) = .ok w') :
    ∃ w₁ vs τ, Step s (locate s dir i) w vs (.ok w₁) ∧
      Session.answer τ (followAll compile s dir w₁ is) = .ok w' ∧
      σ.answer (takeUp compile s (takenByAll compile s dir σ w (i :: is))) =
        vs ++ τ.answer (takeUp compile s (takenByAll compile s dir τ w₁ is)) := by
  obtain ⟨hstep, hafter⟩ := follow_step compile s σ dir w i
  rw [answer_followAll_cons] at h
  rw [takenByAll, answer_takeUp_append, ← hafter]
  cases hf : σ.answer (follow compile s dir w i) with
  | error e =>
    rw [hf] at h
    cases h
  | ok w₁ =>
    rw [hf] at h hstep
    exact ⟨w₁, _, _, hstep, h, rfl⟩

/-- Where a walk goes on without a fault, all imports of its first module are followed, and then the
other modules, with the visits of both. -/
lemma exists_of_walk_succ {w w' : Walk} {m : String × Closed} {rest : List (String × Closed)}
    (hp : w.pending = m :: rest) {n : Nat} (h : σ.answer (walk compile s (n + 1) w) = .ok w') :
    let first : Walk := { w with pending := rest }
    ∃ w₁ τ, σ.answer (followAll compile s (directoryOf m.1) first m.2.imports) = .ok w₁ ∧
      Session.answer τ (walk compile s n (w₁.finish m.1 (nodeOf s m.1 m.2))) = .ok w' ∧
      σ.answer (takeUp compile s (taken compile s (n + 1) σ w)) =
        σ.answer (takeUp compile s
          (takenByAll compile s (directoryOf m.1) σ first m.2.imports)) ++
        τ.answer (takeUp compile s
          (taken compile s n τ (w₁.finish m.1 (nodeOf s m.1 m.2)))) := by
  intro first
  rw [answer_walk_succ compile s σ hp] at h
  rw [taken, hp]
  dsimp only
  rw [answer_takeUp_append, ← after_followAll]
  cases hf : σ.answer (followAll compile s (directoryOf m.1) first m.2.imports) with
  | error e =>
    rw [hf] at h
    cases h
  | ok w₁ =>
    rw [hf] at h
    exact ⟨w₁, _, rfl, h, rfl⟩

lemma walk_of_drained {w : Walk} (h : w.pending = []) (n : Nat) :
    walk compile s n w = return .ok w := by
  cases n with
  | zero => rfl
  | succ n => rw [walk, h]

lemma taken_of_drained {w : Walk} (h : w.pending = []) (n : Nat) : taken compile s n σ w = [] := by
  cases n with
  | zero => rfl
  | succ n => rw [taken, h]

/-- A walk makes no other calls than those of its visits. -/
theorem after_walk (n : Nat) (w : Walk) :
    σ.after (walk compile s n w) = σ.after (takeUp compile s (taken compile s n σ w)) := by
  induction n generalizing σ w with
  | zero => simp [walk, taken]
  | succ n ih =>
    cases hp : w.pending with
    | nil => simp [walk_of_drained, taken_of_drained, hp]
    | cons m rest =>
      rw [after_walk_succ compile s σ hp, taken, hp]
      dsimp only
      rw [after_takeUp_append, ← after_followAll]
      cases σ.answer (followAll compile s (directoryOf m.1) { w with pending := rest }
          m.2.imports) with
      | error e => simp
      | ok w' => exact ih _ _

end Mender.Preview
