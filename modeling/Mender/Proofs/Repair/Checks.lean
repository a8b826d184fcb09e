import Mender.Proofs.Validation.Stages
import Mender.Repair.Loop

/-!
What a check does.

It asks the tools, and goes by what they answer; so it comes to the same in sessions in which they answer
alike. It makes no other calls, and changes nothing of a session but these and whether the tools have
been started.

A repair that is made twice asks the other collaborators too. The sessions of its two runs may differ in
what none of them goes by: in the store, say, or, if the collaborators heed only what they are asked, in the
calls that have been made. Between the reading of the file and the writing of the outcome both runs then
come to the same.
-/

namespace Mender

open Session

/-- A call of a tool that looks at a file: linter, formatter, compiler or type checker. -/
def Call.OfTools (c : Call) : Prop :=
  c.collaborator ∈ [Collaborator.linter, .formatter, .trialCompiler, .checker]

def Call.OfStore (c : Call) : Prop := c.collaborator = .store

/-- A call that has the store tell what it holds. -/
def Call.Reads : Call → Prop
  | .store .readFile _ | .store .loadMemory _ => True
  | _ => False

lemma Call.Reads.ofStore {c : Call} (h : c.Reads) : c.OfStore := by
  cases c with
  | store => rfl
  | _ => exact h.elim

/-- A call of a collaborator that is neither the model nor the catalog. -/
def Call.Aside (c : Call) : Prop := c.collaborator ≠ .generator ∧ c.collaborator ≠ .catalog

lemma Call.OfTools.aside {c : Call} (h : c.OfTools) : c.Aside := by
  unfold OfTools at h
  constructor
  · intro hc; simp [hc] at h
  · intro hc; simp [hc] at h

lemma Call.OfStore.aside {c : Call} (h : c.OfStore) : c.Aside := by
  unfold OfStore at h
  constructor <;> simp [h]

lemma Call.OfTools.not_ofStore {c : Call} (h : c.OfTools) : ¬ c.OfStore := by
  intro hstore
  unfold OfTools at h
  unfold OfStore at hstore
  simp [hstore] at h

lemma Session.callsTo_of_aside {l : List Call} (h : ∀ c ∈ l, c.Aside) :
    callsTo .generator l = 0 ∧ callsTo .catalog l = 0 :=
  ⟨callsTo_eq_zero fun c hc => (h c hc).1, callsTo_eq_zero fun c hc => (h c hc).2⟩

/-- What of a session the tools have no part in. -/
def Session.beyondTools (s : Session) : Metrics × Store × Nat := (s.metrics, s.store, s.clock)

lemma Session.metrics_of_beyondTools {s t : Session} (h : t.beyondTools = s.beyondTools) :
    t.metrics = s.metrics := by
  unfold beyondTools at h
  exact (Prod.mk.inj h).1

/-- What of a session only the beginning and the end of a repair change. -/
def Session.lasting (s : Session) : Store × Nat := (s.store, s.metrics.repairsStarted)

/-- The store is not called and left as it is, and no repair is begun. -/
abbrev Session.Spares {α : Type} (m : Run α) : Prop := Makes (¬ Call.OfStore ·) lasting m

namespace Session

lemma spares_of_tools {α : Type} {m : Run α} (h : Makes Call.OfTools beyondTools m) : Spares m := by
  refine h.mono (fun _ hc => hc.not_ofStore) fun s t hsame => ?_
  obtain ⟨hmetrics, hrest⟩ := Prod.mk.inj hsame
  rw [lasting, lasting, hmetrics, (Prod.mk.inj hrest).1]

lemma spares_count {f : Metrics → Metrics} (hf : ∀ m, (f m).repairsStarted = m.repairsStarted) :
    Spares (Session.count f) :=
  .modify (fun _ => rfl) fun s => congrArg (Prod.mk s.store) (hf s.metrics)

lemma spares_note {c : Call} (h : ¬ c.OfStore) : Spares (Session.note c) :=
  .note h fun _ => rfl

end Session

variable {R : Session → Session → Prop}

namespace Repair

/-- A collaborator other than the store answers alike in calls of these numbers. -/
def Workshop.SameAnswers (w : Workshop) (c : Collaborator) (n m : Nat) : Prop :=
  match c with
  | .linter => w.tools.lint n = w.tools.lint m
  | .formatter => w.tools.format n = w.tools.format m
  | .trialCompiler => ∀ compile ∈ w.tools.compile, compile n = compile m
  | .checker => ∀ check ∈ w.check, check n = check m
  | .generator => ∀ generate ∈ w.generate, generate n = generate m
  | .catalog => w.gives n = w.gives m
  | _ => True

/-- The numbers of calls do not matter where they are the same. -/
lemma Workshop.sameAnswers_refl (w : Workshop) (c : Collaborator) (n : Nat) : w.SameAnswers c n n := by
  cases c <;> simp [SameAnswers]

/-- Alike sessions stay alike when both ask a tool or begin to use the tools, and the tools cannot tell
one from the other. -/
structure ChecksAlike (w : Workshop) (R : Session → Session → Prop) : Prop where
  note : ∀ c : Call, c.OfTools →
    Coupled R (w.SameAnswers c.collaborator) (Session.note c) (Session.note c)
  start : Steady R (Validation.startTools w.tools)

end Repair

open Repair

/-! ### Stages -/

namespace Validation

open Tool

lemma makes_startTools (t : Tools) : Makes Call.OfTools beyondTools (startTools t) :=
  .bind (.modify (fun _ => rfl) fun _ => rfl) fun _ => .bind .get fun _ => .pure _

variable {w : Workshop} (h : ChecksAlike w R)

include h

lemma askedAlike : AskedAlike w.tools R where
  lint path source := h.note (.lint path source) (by simp [Call.OfTools, Call.collaborator])
  format parser source := h.note (.format parser source) (by simp [Call.OfTools, Call.collaborator])
  compile compile hcompile mode path source :=
    (h.note (.tryCompile mode path source) (by simp [Call.OfTools, Call.collaborator])).mono
      fun _ _ hn => hn compile hcompile

lemma steady_validateFile (path : String) (c : Config) (content : String) :
    Steady R (validateFile w.tools c path content) :=
  .bind_eq h.start fun fault => steady_validateOne (askedAlike h) path fault c content content

end Validation

/-! ### Checks -/

namespace Repair

section

variable {w : Workshop} (h : ChecksAlike w R) (file text : String)

include h

lemma steady_checkText (afterPatch : Bool) :
    Steady R (checkText w file text afterPatch) := by
  unfold checkText
  refine .bind_eq (Validation.steady_validateFile h file _ text) fun r => ?_
  dsimp only
  split
  · next check hcheck =>
    split
    · have hcall : Call.OfTools (.check file r.formatted) := by simp [Call.OfTools, Call.collaborator]
      refine (h.note _ hcall).bind fun n n' hn => .pure ?_
      rw [show check n = check n' from hn check hcheck]
    · exact .pure rfl
  · exact .pure rfl

end

section

variable (w : Workshop) (file text : String)

/-- A check makes calls of the tools only. -/
theorem makes_checkText (afterPatch : Bool) :
    Makes Call.OfTools beyondTools (checkText w file text afterPatch) := by
  have halike : ∀ s₀, ChecksAlike w (Since Call.OfTools beyondTools s₀) := fun s₀ =>
    { note := fun c hc => ((Makes.note hc fun _ => rfl).steady s₀).mono
        fun n _ h => h ▸ w.sameAnswers_refl c.collaborator n
      start := (Validation.makes_startTools w.tools).steady s₀ }
  exact makes_of_steady fun s₀ => steady_checkText (halike s₀) file text afterPatch

end

/-! ### A repair that is made twice -/

/-- Alike sessions stay alike when both make a call, begin to use the tools or count, and the
collaborators cannot tell one from the other. -/
structure Repeats (w : Workshop) (R : Session → Session → Prop) : Prop where
  note : ∀ c : Call, ¬ c.OfStore →
    Coupled R (w.SameAnswers c.collaborator) (Session.note c) (Session.note c)
  count : ∀ f : Metrics → Metrics, (∀ m, (f m).repairsStarted = m.repairsStarted) →
    Steady R (Session.count f)
  start : Steady R (Validation.startTools w.tools)

/-- A session is always like itself; here it is one in which the store has been left alone since `s₀`. -/
lemma repeats_since (w : Workshop) (s₀ : Session) :
    Repeats w (Since (¬ Call.OfStore ·) lasting s₀) where
  note c hc := ((spares_note hc).steady s₀).mono
    fun n _ h => h ▸ w.sameAnswers_refl c.collaborator n
  count _ hf := (spares_count hf).steady s₀
  start := (spares_of_tools (Validation.makes_startTools w.tools)).steady s₀

variable {w : Workshop}

lemma Repeats.checks (h : Repeats w R) : ChecksAlike w R where
  note c hc := h.note c hc.not_ofStore
  start := h.start

variable (h : Repeats w R) (file : String)

include h

/-! ### Passes -/

lemma steady_readReply (raw : String) : Steady R (readReply raw) := by
  unfold readReply
  split
  · exact .pure rfl
  · dsimp only
    split
    · exact .bind_eq (h.count _ fun _ => rfl) fun _ => .pure rfl
    · exact .pure rfl

variable (budget : Nat) (p : Progress)

lemma steady_propose : Steady R (propose w file budget p) := by
  unfold propose
  split
  · exact .pure rfl
  · next generate hgenerate =>
    refine .bind_eq (h.count _ fun _ => rfl) fun _ =>
      (h.note (.generate _ _) nofun).bind fun n n' hn => ?_
    rw [show generate n = generate n' from hn generate hgenerate]
    split
    · exact steady_readReply h _
    · exact .pure rfl

lemma steady_tryPass (proposal : Reply.Proposal) : Steady R (tryPass w file p proposal) := by
  refine .bind_eq (steady_checkText h.checks file _ true) fun next => ?_
  dsimp only
  split
  · exact .bind_eq (h.count _ fun _ => rfl) fun _ => .pure rfl
  · exact .pure rfl

lemma steady_onePass : Steady R (onePass w file budget p) := by
  refine .bind_eq (steady_propose h file budget p) fun q => ?_
  split
  · split
    · exact steady_tryPass h file p _
    · exact .pure rfl
  · exact .pure rfl

lemma steady_passes (left : Nat) : Steady R (passes w file budget left p) := by
  induction left generalizing p with
  | zero => exact .pure rfl
  | succ left ih =>
    rw [passes]
    split
    · exact .pure rfl
    · exact .bind_eq (steady_onePass h file budget p) fun q => ih q

/-! ### The end -/

variable (r : Request) (given : String)

omit file in
lemma steady_catalogFallback : Steady R (catalogFallback w r) := by
  unfold catalogFallback
  split
  · exact .pure rfl
  · split
    · exact .pure rfl
    · refine (h.note (.lookUp _) nofun).bind fun n n' hn => ?_
      rw [show w.gives n = w.gives n' from hn]
      split
      · exact .pure rfl
      · exact .bind_eq (h.count _ fun _ => rfl) fun _ =>
          .bind_eq (steady_checkText h.checks _ _ true) fun _ => .pure rfl

omit file in
lemma steady_conclude (initial : Checked) : Steady R (conclude w r given initial p) := by
  unfold conclude
  split
  · exact .pure rfl
  · refine .bind_eq (steady_catalogFallback h r) fun o => ?_
    split <;> exact .pure rfl

/-! ### The source -/

omit h in
/-- The source depends on the file that the store holds, and on how the call for it ends. -/
lemma coupled_resolveSource {w' : Workshop} {fails fails' : StoreFailures} {key : FileKey}
    (hproject : r.project = some key.project) (hfilename : r.filename = key.file)
    (hstore : w.store = some fails) (hstore' : w'.store = some fails')
    (hcall : Coupled R Eq (callStore fails .readFile key) (callStore fails' .readFile key))
    (hfile : ∀ s t, R s t → s.store.file? key = t.store.file? key) :
    Coupled R Eq (resolveSource w r) (resolveSource w' r) := by
  unfold resolveSource
  rw [hproject, hstore, hstore', hfilename]
  cases r.code with
  | some code => exact .pure rfl
  | none =>
    refine .bind_eq hcall fun fault => ?_
    cases fault with
    | some f => exact .pure rfl
    | none =>
      refine .bind .get fun s t hst => ?_
      have hsame : s.store.file? ⟨key.project, key.file⟩ = t.store.file? ⟨key.project, key.file⟩ :=
        hfile s t hst
      rw [hsame]
      split <;> exact .pure rfl

end Repair

end Mender
