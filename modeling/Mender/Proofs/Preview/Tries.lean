import Mender.Preview.Service
import Mender.Proofs.Repair.Remembered

/-!
How both modules of a preview come about.

The interactive module is tried once, or twice when the compiler rejects the source and a repair gives
another text. What the last try says is what counts; the static module is compiled from its text.
-/

namespace Mender.Preview

open Session Tool

/-! ### Tries -/

/-- A try to compile the interactive module from a text, in a session. -/
structure Try where
  text : String
  session : Session

/-- The compiler does not take the text as it is; this is no failure of its own. -/
def Rejects (f : Tool.Fault) : Prop := ∃ message line column, f = .rejected message line column

namespace Try

variable (s : Service) (r : Request) (t : Try)

def prepared : Component.Prepared := Component.prepare t.text r.dependencies

def result : Except Tool.Fault Compiled :=
  t.session.answer (s.callCompiler .interactive r.name (t.prepared r).source)

def after : Session :=
  t.session.after (s.callCompiler .interactive r.name (t.prepared r).source)

lemma answer_compilePrepared : t.session.answer (s.compilePrepared r.name t.text r.dependencies) =
    (t.prepared r, t.result s r) := by
  unfold Service.compilePrepared result prepared
  rw [answer_bind, answer_pure]

lemma after_compilePrepared :
    t.session.after (s.compilePrepared r.name t.text r.dependencies) = t.after s r := by
  unfold Service.compilePrepared after prepared
  rw [after_bind, after_pure]

end Try

section Tries

variable (s : Service) (r : Request) (σ : Session)

def firstTry : Try := ⟨r.source, σ⟩

/-- The workshop that repairs the source: there is one after a rejection only. -/
def delegate? : Option Repair.Workshop :=
  match (firstTry r σ).result s r with
  | .error (.rejected ..) => if s.repairs then s.workshop else none
  | _ => none

/-- The repair of the source. -/
def repairBy (w : Repair.Workshop) : Run (Except Repair.Fault Repair.Outcome) :=
  Repair.repair w (Service.mendRequest r.name r.source)

/-- The text that a repair gives, if it has made one itself. -/
def mended? : Option String :=
  match delegate? s r σ with
  | none => none
  | some w =>
    match ((firstTry r σ).after s r).answer (repairBy r w) with
    | .ok o => if o.provenance = .aiRepair then some o.fixedCode else none
    | .error _ => none

/-- The session when a repair, if there is one, is over. -/
def mendedSession : Session :=
  match delegate? s r σ with
  | none => (firstTry r σ).after s r
  | some w => ((firstTry r σ).after s r).after (repairBy r w)

/-- The second try if a repair gives a text for it, or else the first. -/
def lastTry : Try :=
  match mended? s r σ with
  | none => firstTry r σ
  | some text => ⟨text, mendedSession s r σ⟩

lemma delegate?_eq_some {w : Repair.Workshop} : delegate? s r σ = some w ↔
    s.repairs = true ∧ s.workshop = some w ∧
      ∃ f, (firstTry r σ).result s r = .error f ∧ Rejects f := by
  unfold delegate? Rejects
  cases hres : (firstTry r σ).result s r with
  | ok c => simp
  | error f => cases f <;> simp

lemma delegate?_of_error {f : Tool.Fault} (h : (firstTry r σ).result s r = .error f)
    (hf : ¬ Rejects f) : delegate? s r σ = none := by
  rw [Option.eq_none_iff_forall_ne_some]
  intro w hw
  obtain ⟨-, -, f', hf', hrej⟩ := (delegate?_eq_some s r σ).1 hw
  rw [h, Except.error.injEq] at hf'
  exact hf (hf' ▸ hrej)

lemma delegate?_of_ok {c : Compiled} (h : (firstTry r σ).result s r = .ok c) :
    delegate? s r σ = none := by
  rw [delegate?, h]

lemma mended?_of_no_delegate (h : delegate? s r σ = none) :
    mended? s r σ = none ∧ mendedSession s r σ = (firstTry r σ).after s r := by
  rw [mended?, mendedSession, h]
  exact ⟨rfl, rfl⟩

/-- After a rejection the repair is made, if there is anyone to make it. -/
lemma mendSource_rejected {f : Tool.Fault} (hres : (firstTry r σ).result s r = .error f)
    (hf : Rejects f) :
    ((firstTry r σ).after s r).answer (s.mendSource r.name r.source) = mended? s r σ ∧
      ((firstTry r σ).after s r).after (s.mendSource r.name r.source) = mendedSession s r σ := by
  obtain ⟨message, line, column, rfl⟩ := hf
  rw [mended?, mendedSession, delegate?, hres]
  generalize (firstTry r σ).after s r = τ
  unfold Service.mendSource repairBy
  cases s.workshop with
  | none => simp
  | some w =>
    cases s.repairs with
    | false => simp
    | true =>
      simp only [Bool.not_true, Bool.false_eq_true, if_false, if_true, answer_bind, after_bind]
      cases τ.answer (Repair.repair w (Service.mendRequest r.name r.source)) <;> simp

/-- The session when the interactive module has been made, or has not. -/
def triedSession : Session :=
  match mended? s r σ with
  | none => mendedSession s r σ
  | some _ => (lastTry s r σ).after s r

/-- **The interactive module** is that of the last try. -/
lemma interactive_lastTry :
    σ.answer (s.interactive r.name r) =
      (match (lastTry s r σ).result s r with
      | .ok c => .ok ⟨(lastTry s r σ).text, (lastTry s r σ).prepared r, c, (mended? s r σ).isSome⟩
      | .error f => .error (.ofTool f)) ∧
    σ.after (s.interactive r.name r) = triedSession s r σ := by
  have hfirst : σ.answer (s.compilePrepared r.name r.source r.dependencies) = _ :=
    (firstTry r σ).answer_compilePrepared s r
  have hafter : σ.after (s.compilePrepared r.name r.source r.dependencies) = _ :=
    (firstTry r σ).after_compilePrepared s r
  unfold Service.interactive triedSession
  rw [answer_bind, after_bind, hfirst, hafter, lastTry]
  cases hres : (firstTry r σ).result s r with
  | ok c =>
    obtain ⟨hno, hsession⟩ := mended?_of_no_delegate s r σ (delegate?_of_ok s r σ hres)
    rw [hno, hsession]
    dsimp only
    rw [hres]
    exact ⟨answer_pure _ _, after_pure _ _⟩
  | error f =>
    by_cases hf : Rejects f
    · obtain ⟨hmended, hsession⟩ := mendSource_rejected s r σ hres hf
      obtain ⟨message, line, column, rfl⟩ := hf
      dsimp only
      rw [answer_bind, after_bind, hmended, hsession]
      cases mended? s r σ with
      | none =>
        dsimp only
        rw [hres]
        exact ⟨answer_pure _ _, after_pure _ _⟩
      | some text =>
        have hsecond := (⟨text, mendedSession s r σ⟩ : Try).answer_compilePrepared s r
        have hlast := (⟨text, mendedSession s r σ⟩ : Try).after_compilePrepared s r
        dsimp only at hsecond hlast ⊢
        rw [answer_bind, after_bind, hsecond, hlast]
        cases (⟨text, mendedSession s r σ⟩ : Try).result s r with
        | ok c => exact ⟨answer_pure _ _, after_pure _ _⟩
        | error f => exact ⟨answer_pure _ _, after_pure _ _⟩
    · obtain ⟨hno, hsession⟩ := mended?_of_no_delegate s r σ (delegate?_of_error s r σ hres hf)
      rw [hno, hsession]
      dsimp only
      rw [hres]
      cases f with
      | rejected message line column => exact absurd ⟨_, _, _, rfl⟩ hf
      | _ => exact ⟨answer_pure _ _, after_pure _ _⟩

end Tries

/-! ### Both modules -/

section Modules

variable (s : Service) (r : Request) (σ : Session)

/-- The static module, which is compiled after the interactive one. -/
def staticResult : Except Tool.Fault Compiled :=
  ((lastTry s r σ).after s r).answer
    (s.callCompiler .static r.name ((lastTry s r σ).prepared r).source)

/-- The component with an interactive module. -/
def interactiveOf (c : Compiled) : Interactive :=
  ⟨(lastTry s r σ).text, (lastTry s r σ).prepared r, c, (mended? s r σ).isSome⟩

/-- Both modules are there. -/
structure Compiles (c static : Compiled) : Prop where
  interactive : (lastTry s r σ).result s r = .ok c
  static : staticResult s r σ = .ok static

/-- The last try fails, or the compilation of the static module does. -/
def CompileFails (f : Tool.Fault) : Prop :=
  (lastTry s r σ).result s r = .error f ∨
    ∃ c, (lastTry s r σ).result s r = .ok c ∧ staticResult s r σ = .error f

lemma triedSession_of_ok {c : Compiled} (h : (lastTry s r σ).result s r = .ok c) :
    triedSession s r σ = (lastTry s r σ).after s r := by
  rw [triedSession]
  cases hm : mended? s r σ with
  | some text => rfl
  | none =>
    rw [lastTry, hm] at h ⊢
    exact (mended?_of_no_delegate s r σ (delegate?_of_ok s r σ h)).2

/-- **Both modules** are compiled from the text of the last try, or one of them fails. -/
lemma modules_cases :
    (∃ f, CompileFails s r σ f ∧ σ.answer (s.modules r) = .error (.ofTool f)) ∨
    ∃ c static, Compiles s r σ c static ∧
      σ.answer (s.modules r) = .ok (interactiveOf s r σ c, static) := by
  obtain ⟨hanswer, hafter⟩ := interactive_lastTry s r σ
  unfold Service.modules
  rw [answer_bind, hanswer, hafter]
  cases hlast : (lastTry s r σ).result s r with
  | error f => exact .inl ⟨f, .inl hlast, answer_pure _ _⟩
  | ok c =>
    dsimp only
    rw [triedSession_of_ok s r σ hlast, answer_bind]
    cases hstatic : staticResult s r σ with
    | error f =>
      have hfails : CompileFails s r σ f := .inr ⟨c, hlast, hstatic⟩
      rw [staticResult] at hstatic
      rw [hstatic]
      exact .inl ⟨f, hfails, answer_pure _ _⟩
    | ok static =>
      have hcompiles : Compiles s r σ c static := ⟨hlast, hstatic⟩
      rw [staticResult] at hstatic
      rw [hstatic]
      exact .inr ⟨c, static, hcompiles, answer_pure _ _⟩

variable {s r σ}

lemma Compiles.unique {c static c' static' : Compiled} (h : Compiles s r σ c static)
    (h' : Compiles s r σ c' static') : c' = c ∧ static' = static :=
  ⟨Except.ok.inj (h'.interactive.symm.trans h.interactive),
    Except.ok.inj (h'.static.symm.trans h.static)⟩

lemma Compiles.not_fails {c static : Compiled} (h : Compiles s r σ c static) {f : Tool.Fault} :
    ¬ CompileFails s r σ f := by
  rintro (hlast | ⟨_, -, hstatic⟩)
  · cases h.interactive.symm.trans hlast
  · cases h.static.symm.trans hstatic

lemma CompileFails.unique {f f' : Tool.Fault} (h : CompileFails s r σ f)
    (h' : CompileFails s r σ f') : f' = f := by
  rcases h with h | ⟨_, h, hs⟩
  · rcases h' with h' | ⟨_, h', -⟩
    · exact Except.error.inj (h'.symm.trans h)
    · cases h'.symm.trans h
  · rcases h' with h' | ⟨_, -, hs'⟩
    · cases h.symm.trans h'
    · exact Except.error.inj (hs'.symm.trans hs)

end Modules

/-! ### The store -/

/-- A session that has gone on without the store; a number of repairs have been begun. -/
structure Onward (n : Nat) (σ τ : Session) : Prop where
  apart : Extends (¬ Call.OfStore ·) Session.store σ τ
  begun : τ.metrics.repairsStarted = σ.metrics.repairsStarted + n

namespace Onward

lemma trans {m n : Nat} {σ τ υ : Session} (h : Onward m σ τ) (h' : Onward n τ υ) :
    Onward (m + n) σ υ :=
  ⟨h.apart.trans h'.apart, by rw [h'.begun, h.begun, Nat.add_assoc]⟩

lemma refl (σ : Session) : Onward 0 σ σ := ⟨⟨⟨[], by simp, by simp⟩, rfl⟩, rfl⟩

lemma of_spares {α : Type} {m : Run α} (h : Spares m) (σ : Session) : Onward 0 σ (σ.after m) := by
  obtain ⟨hstore, hbegun⟩ := Prod.mk.inj (h σ).same
  exact ⟨⟨(h σ).calls, hstore⟩, hbegun⟩

end Onward

section Store

variable (s : Service) (r : Request) (σ : Session)

lemma spares_callCompiler (mode : Mode) (file source : String) :
    Spares (s.callCompiler mode file source) :=
  .bind (spares_note nofun) fun _ => .pure _

lemma Try.onward (t : Try) : Onward 0 t.session (t.after s r) :=
  .of_spares (spares_callCompiler s _ _ _) _

/-- One repair is begun if there is someone to make it; a component without a name has none. -/
def repairsBegun : Nat :=
  if (delegate? s r σ).isSome ∧ ¬ Reply.blank r.name = true then 1 else 0

lemma onward_mendedSession :
    Onward (repairsBegun s r σ) ((firstTry r σ).after s r) (mendedSession s r σ) := by
  unfold repairsBegun mendedSession
  cases delegate? s r σ with
  | none => exact .refl _
  | some w =>
    by_cases hname : Reply.blank r.name = true
    · have hrefused : repairBy r w = pure (.error (.invalidRequest "filename is required")) := by
        unfold repairBy Repair.repair
        exact if_pos hname
      simp only [hname, not_true, and_false, if_false]
      rw [hrefused, after_pure]
      exact .refl _
    · obtain ⟨hapart, hbegun⟩ := Repair.repair_spares_store (w := w)
        (r := Service.mendRequest r.name r.source) (s := (firstTry r σ).after s r) rfl rfl hname
      simp only [Option.isSome_some, hname, Bool.false_eq_true, not_false_eq_true, and_self, if_true]
      exact ⟨hapart, hbegun⟩

lemma onward_triedSession : Onward (repairsBegun s r σ) σ (triedSession s r σ) := by
  have hmended := ((firstTry r σ).onward s r).trans (onward_mendedSession s r σ)
  rw [Nat.zero_add] at hmended
  rw [triedSession]
  cases hm : mended? s r σ with
  | none => exact hmended
  | some text =>
    rw [lastTry, hm]
    exact hmended.trans ((⟨text, mendedSession s r σ⟩ : Try).onward s r)

/-- No more than one repair is begun until both modules have been compiled, or one has failed. -/
lemma onward_modules : Onward (repairsBegun s r σ) σ (σ.after (s.modules r)) := by
  obtain ⟨-, hafter⟩ := interactive_lastTry s r σ
  unfold Service.modules
  rw [after_bind, hafter]
  refine (onward_triedSession s r σ).trans (n := 0) (.of_spares ?_ _)
  split
  · exact .pure _
  · refine .bind (spares_callCompiler s _ _ _) fun c => ?_
    split <;> exact .pure _

end Store

end Mender.Preview
