import Mender.Proofs.Preview.Requests
import Mender.Proofs.Preview.Thrown
import Mender.Proofs.Preview.Tries

/-!
How a preview ends.

It fails for what is wrong with the source, or because the module threw; nothing that goes wrong
around the runner, or in a dependency, makes it fail. A failed preview leaves no result behind, and
the store is never touched.
-/

namespace Mender.Preview

open Session Tool

/-! ### The store -/

section Store

variable (s : Service)

lemma spares_register (e : Expiry) (code : String) (now : Nat) (b : Bundles) :
    Spares (Bundles.register e code now b) :=
  .bind (.bind (spares_count fun _ => rfl) fun _ => .pure _) fun _ =>
    .bind (spares_count fun _ => rfl) fun _ => .pure _

lemma spares_picture (code source : String) (inputs : Inputs) (b : Breaker) :
    Spares (s.picture code source inputs b) := by
  have hdependency (path text : String) : Spares (s.compileDependency path text) := by
    refine .bind (spares_callCompiler s _ _ _) fun c => ?_
    split <;> exact .pure _
  unfold Service.picture
  split
  · exact .pure _
  · refine .bind (spares_render hdependency _ _ _ _) fun x => ?_
    split
    · exact .pure _
    · exact .pure _
    · exact .bind (spares_count fun _ => rfl) fun _ => .pure _

end Store

/-! ### The picture -/

/-- What a picture is made of that the sandbox has answered. -/
def drawn (source : String) : Except Fault Rendered → Except Failure Picture
  | .ok m => .ok ⟨m, true⟩
  | .error (.evaluation message) => .error (.evaluation message)
  | .error f => .ok (Service.sourceShown source f.message)

section Picture

variable {s : Service} {code source : String} {inputs : Inputs} {b : Breaker} (σ : Session)

lemma picture_of_not_executes (h : ¬ s.executes = true) :
    s.picture code source inputs b =
      pure (.ok (Service.sourceShown source "execution disabled"), b) := by
  unfold Service.picture
  rw [Bool.not_eq_true] at h
  rw [h]
  rfl

lemma answer_picture (h : s.executes = true) :
    (σ.answer (s.picture code source inputs b)).1 =
      drawn source (σ.answer (s.sandbox.render s.compileDependency code inputs b)).1 := by
  unfold Service.picture
  rw [h, if_neg (by simp), answer_bind]
  generalize σ.answer (s.sandbox.render s.compileDependency code inputs b) = x
  obtain ⟨x, b'⟩ := x
  cases x with
  | ok m =>
    dsimp only
    rw [answer_pure, drawn]
  | error f =>
    cases f with
    | evaluation message =>
      dsimp only
      rw [answer_pure, drawn]
    | _ =>
      dsimp only
      rw [answer_bind, answer_pure, drawn]
      nofun

lemma after_picture_of_evaluation (h : s.executes = true) {message : String}
    (hx : (σ.answer (s.sandbox.render s.compileDependency code inputs b)).1 =
      .error (.evaluation message)) :
    σ.after (s.picture code source inputs b) =
      σ.after (s.sandbox.render s.compileDependency code inputs b) := by
  unfold Service.picture
  rw [h, if_neg (by simp), after_bind]
  generalize σ.after (s.sandbox.render s.compileDependency code inputs b) = τ
  generalize σ.answer (s.sandbox.render s.compileDependency code inputs b) = x at hx
  obtain ⟨x, b'⟩ := x
  dsimp only at hx
  rw [hx]
  exact after_pure _ _

end Picture

/-! ### A preview that is made -/

section Making

variable (s : Service) (m : Moments) (r : Request) (h : Holdings) (σ : Session)

/-- What the sandbox answers when it is asked to render the static module. -/
def sandboxAnswer (c static : Compiled) : Except Fault Rendered :=
  ((renderSession s m r h σ (interactiveOf s r σ c)).answer (s.sandbox.render s.compileDependency
    static.code ((interactiveOf s r σ c).inputs r.dependencies) h.breaker)).1

/-- The preview with a picture. -/
def outputWith (c static : Compiled) (p : Picture) : Output :=
  (interactiveOf s r σ c).output static (Bundles.idOf c.code) p

/-- What a preview comes to that is made anew. -/
inductive Comes : Except Failure Output → Prop
  | uncompiled {f : Tool.Fault} (hf : CompileFails s r σ f) : Comes (.error (.ofTool f))
  | unexecuted {c static : Compiled} (hc : Compiles s r σ c static) (hx : ¬ s.executes = true) :
    Comes (.ok (outputWith s r σ c static
      (Service.sourceShown (lastTry s r σ).text "execution disabled")))
  | rendered {c static : Compiled} {x : Rendered} (hc : Compiles s r σ c static)
    (hx : s.executes = true) (hs : sandboxAnswer s m r h σ c static = .ok x) :
    Comes (.ok (outputWith s r σ c static ⟨x, true⟩))
  | threw {c static : Compiled} {message : String} (hc : Compiles s r σ c static)
    (hx : s.executes = true)
    (hs : sandboxAnswer s m r h σ c static = .error (.evaluation message)) :
    Comes (.error (.evaluation message))
  | fellBack {c static : Compiled} {f : Fault} (hc : Compiles s r σ c static)
    (hx : s.executes = true) (hs : sandboxAnswer s m r h σ c static = .error f)
    (hf : ∀ message, f ≠ .evaluation message) :
    Comes (.ok (outputWith s r σ c static (Service.sourceShown (lastTry s r σ).text f.message)))

lemma drawn_cases (source : String) (x : Except Fault Rendered) :
    (∃ y, x = .ok y ∧ drawn source x = .ok ⟨y, true⟩) ∨
    (∃ message, x = .error (.evaluation message) ∧
      drawn source x = .error (.evaluation message)) ∨
    ∃ f, x = .error f ∧ (∀ message, f ≠ .evaluation message) ∧
      drawn source x = .ok (Service.sourceShown source f.message) := by
  cases x with
  | ok y => exact .inl ⟨y, rfl, rfl⟩
  | error f =>
    cases f with
    | evaluation message => exact .inr (.inl ⟨message, rfl, rfl⟩)
    | _ => exact .inr (.inr ⟨_, rfl, nofun, rfl⟩)

/-- **What a preview comes to** that is made anew. -/
lemma comes_makePreview (kept : Expiring Output) :
    Comes s m r h σ (σ.answer (s.makePreview m r { h with results := kept })).1 := by
  rcases modules_cases s r σ with ⟨f, hf, hm⟩ | ⟨c, static, hc, hm⟩
  · rw [makePreview_of_error s m r _ σ hm]
    exact .uncompiled hf
  · rw [(makePreview_of_modules s m r _ σ hm).1]
    dsimp only [previewOf, pictureOf]
    by_cases hx : s.executes = true
    · rw [answer_picture _ hx]
      rcases drawn_cases (lastTry s r σ).text (sandboxAnswer s m r h σ c static) with
        ⟨x, hs, hd⟩ | ⟨message, hs, hd⟩ | ⟨f, hs, hf, hd⟩
      · exact congrArg (Except.map _) hd ▸ .rendered hc hx hs
      · exact congrArg (Except.map _) hd ▸ .threw hc hx hs
      · exact congrArg (Except.map _) hd ▸ .fellBack hc hx hs hf
    · rw [picture_of_not_executes hx, answer_pure]
      exact .unexecuted hc hx

/-- The sandbox is asked to render the component, and this is what it says. -/
def SandboxSays (x : Except Fault Rendered) : Prop :=
  ∃ c static, Compiles s r σ c static ∧ s.executes = true ∧ sandboxAnswer s m r h σ c static = x

/-- What a preview that was made anew tells of itself is so. -/
structure Tells (o : Output) : Prop where
  executed : o.executed = true ↔ ∃ x, SandboxSays s m r h σ (.ok x)
  /-- What the sandbox rendered is what is shown. -/
  drawn : ∀ x, SandboxSays s m r h σ (.ok x) → o.html = x.html ∧ o.head = x.head
  /-- Otherwise the source is shown that was compiled, with the reason. -/
  shown : o.executed = false → ∃ reason,
    o.html = Component.fallback (lastTry s r σ).text reason ∧ o.head = none ∧
      (s.executes = false ∧ reason = "execution disabled" ∨
        ∃ f, SandboxSays s m r h σ (.error f) ∧ reason = f.message)
  compiled : ∃ c static, Compiles s r σ c static ∧ o.code = c.code
  props : o.props = Component.initialProps (lastTry s r σ).text
  stubs : o.stubs = (Component.prepare (lastTry s r σ).text r.dependencies).stubs
  /-- The text of a repair was compiled in place of the source. -/
  repaired : o.repaired = true ↔
    ∃ text, mended? s r σ = some text ∧ (lastTry s r σ).text = text

variable {s m r h σ}

lemma SandboxSays.unique {x y : Except Fault Rendered} (hx : SandboxSays s m r h σ x)
    (hy : SandboxSays s m r h σ y) : y = x := by
  obtain ⟨c, static, hc, -, rfl⟩ := hx
  obtain ⟨c', static', hc', -, rfl⟩ := hy
  obtain ⟨rfl, rfl⟩ := hc.unique hc'
  rfl

lemma CompileFails.not_said {f : Tool.Fault} (hf : CompileFails s r σ f) (x : Except Fault Rendered) :
    ¬ SandboxSays s m r h σ x := by
  rintro ⟨c, static, hc, -⟩
  exact hc.not_fails hf

namespace Comes

variable {a : Except Failure Output}

/-- A preview that is made anew fails with a compilation, or because the module threw. -/
lemma failed_iff (ha : Comes s m r h σ a) {e : Failure} : a = .error e ↔
    (∃ f, CompileFails s r σ f ∧ e = .ofTool f) ∨
      ∃ message, SandboxSays s m r h σ (.error (.evaluation message)) ∧ e = .evaluation message := by
  cases ha with
  | @uncompiled f hf =>
    rw [Except.error.injEq]
    constructor
    · rintro rfl
      exact .inl ⟨f, hf, rfl⟩
    · rintro (⟨f', hf', rfl⟩ | ⟨message, hs, -⟩)
      · rw [hf.unique hf']
      · exact absurd hs (hf.not_said _)
  | @threw c static message hc hx hs =>
    have hsaid : SandboxSays s m r h σ (.error (.evaluation message)) := ⟨c, static, hc, hx, hs⟩
    rw [Except.error.injEq]
    constructor
    · rintro rfl
      exact .inr ⟨message, hsaid, rfl⟩
    · rintro (⟨f, hf, -⟩ | ⟨message', hs', rfl⟩)
      · exact absurd hsaid (hf.not_said _)
      · cases hsaid.unique hs'
        rfl
  | unexecuted hc hx =>
    refine iff_of_false nofun ?_
    rintro (⟨f, hf, -⟩ | ⟨message, ⟨-, -, -, hx', -⟩, -⟩)
    · exact hc.not_fails hf
    · exact hx hx'
  | @rendered c static x hc hx hs =>
    have hsaid : SandboxSays s m r h σ (.ok x) := ⟨c, static, hc, hx, hs⟩
    refine iff_of_false nofun ?_
    rintro (⟨f, hf, -⟩ | ⟨message, hs', -⟩)
    · exact hf.not_said _ hsaid
    · cases hsaid.unique hs'
  | @fellBack c static f hc hx hs hf =>
    have hsaid : SandboxSays s m r h σ (.error f) := ⟨c, static, hc, hx, hs⟩
    refine iff_of_false nofun ?_
    rintro (⟨f', hf', -⟩ | ⟨message, hs', -⟩)
    · exact hf'.not_said _ hsaid
    · exact hf message (Except.error.inj (hsaid.unique hs')).symm

lemma mended?_iff : (mended? s r σ).isSome = true ↔
    ∃ text, mended? s r σ = some text ∧ (lastTry s r σ).text = text := by
  rw [Option.isSome_iff_exists, lastTry]
  refine exists_congr fun text => ⟨fun h => ⟨h, by rw [h]⟩, And.left⟩

-- unfolding `Component.prepare` is what a bare `rfl` would try
lemma stubs_outputWith (c static : Compiled) (p : Picture) : (outputWith s r σ c static p).stubs =
    (Component.prepare (lastTry s r σ).text r.dependencies).stubs := by
  simp only [outputWith, Interactive.output, interactiveOf, Try.prepared]

/-- **What a preview tells of itself** is so. -/
lemma tells {o : Output} (ha : Comes s m r h σ (.ok o)) : Tells s m r h σ o := by
  have hsaid {c static : Compiled} (hc : Compiles s r σ c static) (hx : s.executes = true) :
      SandboxSays s m r h σ (sandboxAnswer s m r h σ c static) := ⟨c, static, hc, hx, rfl⟩
  cases ha with
  | @unexecuted c static hc hx =>
    have hno (x : Except Fault Rendered) : ¬ SandboxSays s m r h σ x :=
      fun ⟨_, _, _, hx', _⟩ => hx hx'
    exact
      { executed := iff_of_false nofun fun ⟨x, hs⟩ => hno _ hs
        drawn := fun x hs => absurd hs (hno _)
        shown := fun _ => ⟨"execution disabled", rfl, rfl, .inl ⟨by simpa using hx, rfl⟩⟩
        compiled := ⟨c, static, hc, rfl⟩
        props := rfl
        stubs := stubs_outputWith c static _
        repaired := mended?_iff }
  | @rendered c static x hc hx hs =>
    have hsaid := hs ▸ hsaid hc hx
    refine
      { executed := iff_of_true rfl ⟨x, hsaid⟩
        drawn := fun y hy => ?_
        shown := nofun
        compiled := ⟨c, static, hc, rfl⟩
        props := rfl
        stubs := stubs_outputWith c static _
        repaired := mended?_iff }
    cases hsaid.unique hy
    exact ⟨rfl, rfl⟩
  | @fellBack c static f hc hx hs hf =>
    have hsaid := hs ▸ hsaid hc hx
    refine
      { executed := iff_of_false nofun fun ⟨x, hx⟩ => ?_
        drawn := fun x hx => ?_
        shown := fun _ => ⟨f.message, rfl, rfl, .inr ⟨f, hsaid, rfl⟩⟩
        compiled := ⟨c, static, hc, rfl⟩
        props := rfl
        stubs := stubs_outputWith c static _
        repaired := mended?_iff }
    · cases hsaid.unique hx
    · cases hsaid.unique hx

end Comes

end Making

lemma ofTool_ne_evaluation (f : Tool.Fault) (message : String) :
    Failure.ofTool f ≠ .evaluation message := by
  cases f <;> nofun

section Ending

variable (s : Service) (m : Moments) (r : Request) (h : Holdings) (σ : Session)

lemma onward_makePreview :
    Onward (repairsBegun s r σ) σ (σ.after (s.makePreview m r h)) := by
  unfold Service.makePreview
  rw [after_bind]
  refine (onward_modules s r σ).trans (n := 0) (.of_spares ?_ _)
  split
  · exact .pure _
  · refine .bind (spares_register _ _ _ _) fun b => .bind (spares_picture s _ _ _ _) fun x => ?_
    dsimp only
    split <;> exact .pure _

/-- If a preview that is made anew fails because the module threw, the runner has said so. -/
lemma threw_makePreview {kept : Expiring Output} {message : String}
    (ha : (σ.answer (s.makePreview m r { h with results := kept })).1 =
      .error (.evaluation message)) :
    ∃ runner, s.sandbox.runner = some runner ∧ Threw s.sandbox.controls runner message
      (σ.after (s.makePreview m r { h with results := kept })) := by
  rw [(comes_makePreview s m r h σ kept).failed_iff] at ha
  rcases ha with ⟨f, -, he⟩ | ⟨message', ⟨c, static, hc, hx, hs⟩, he⟩
  · exact absurd he.symm (ofTool_ne_evaluation f message)
  · obtain rfl := Failure.evaluation.inj he
    rcases modules_cases s r σ with ⟨f, hf, -⟩ | ⟨c', static', hc', hm⟩
    · exact absurd hf hc.not_fails
    · obtain ⟨rfl, rfl⟩ := hc.unique hc'
      have hτ : σ.after (s.makePreview m r { h with results := kept }) =
          (renderSession s m r h σ (interactiveOf s r σ c')).after
            (pictureOf s r h (interactiveOf s r σ c') static') :=
        (makePreview_of_modules s m r _ σ hm).2
      rw [hτ, pictureOf, after_picture_of_evaluation _ hx hs]
      exact threw_render s.sandbox hs

/-- How a preview ends. -/
structure Ends : Prop where
  /-- It fails for a blank source, or with a fault of the compiler in the last try or for the static
  module, or because the sandbox says that the module threw; and never else. -/
  failed : ∀ e, (σ.answer (s.compileAt m r h)).1 = .error e ↔
    (Reply.blank r.source = true ∧ e = .invalidRequest "source is required") ∨
    IsNew s m r h ∧ ((∃ f, CompileFails s r σ f ∧ e = .ofTool f) ∨
      ∃ message, SandboxSays s m r h σ (.error (.evaluation message)) ∧ e = .evaluation message)
  /-- It was the runner that found that the module throws, and nothing before it: no dependency that
  does not compile is taken for a module that throws. -/
  thrown : ∀ message, (σ.answer (s.compileAt m r h)).1 = .error (.evaluation message) →
    ∃ runner, s.sandbox.runner = some runner ∧
      Threw s.sandbox.controls runner message (σ.after (s.compileAt m r h))
  /-- Whatever else the sandbox says, and if it is not asked, there is a preview. -/
  answered : IsNew s m r h → (∃ c static, Compiles s r σ c static) →
    (∀ message, ¬ SandboxSays s m r h σ (.error (.evaluation message))) →
      ∃ o, (σ.answer (s.compileAt m r h)).1 = .ok o
  tells : IsNew s m r h → ∀ o, (σ.answer (s.compileAt m r h)).1 = .ok o → Tells s m r h σ o
  /-- A failure is not kept. -/
  unkept : ∀ e, (σ.answer (s.compileAt m r h)).1 = .error e → ∀ k slot,
    (σ.answer (s.compileAt m r h)).2.results.slots.get? k = some slot →
      h.results.slots.get? k = some slot
  /-- One repair is begun if the compiler rejects the source and there is someone to make it, and none
  for any other reason. The store is neither called nor changed. -/
  onward : (IsNew s m r h → Onward (repairsBegun s r σ) σ (σ.after (s.compileAt m r h))) ∧
    (¬ IsNew s m r h → Onward 0 σ (σ.after (s.compileAt m r h)))

/-- A request is refused, is answered with a result that is kept, or has a preview made. -/
lemma compileAt_cases :
    (Reply.blank r.source = true ∧
      s.compileAt m r h = pure (.error (.invalidRequest "source is required"), h)) ∨
    (∃ o, ¬ Reply.blank r.source = true ∧ cached? s m.asked r h = some o ∧
      (σ.answer (s.compileAt m r h)).1 = .ok o ∧ Onward 0 σ (σ.after (s.compileAt m r h))) ∨
    IsNew s m r h ∧ s.compileAt m r h = s.makePreview m r (sweptHoldings s m.asked h) := by
  by_cases hb : Reply.blank r.source = true
  · exact .inl ⟨hb, compileAt_of_blank hb m h⟩
  · cases ho : cached? s m.asked r h with
    | none => exact .inr (.inr ⟨⟨hb, ho⟩, compileAt_of_uncached hb ho⟩)
    | some o =>
      rw [compileAt_of_cached hb ho, answer_map, after_map]
      exact .inr (.inl ⟨o, hb, rfl, rfl, .of_spares (spares_register _ _ _ _) σ⟩)

/-- What is kept after a preview that fails was kept before it. -/
lemma kept_of_failed {e : Failure} (ha : (σ.answer (s.compileAt m r h)).1 = .error e) {k : String}
    {slot : Slot Output} (hk : (σ.answer (s.compileAt m r h)).2.results.slots.get? k = some slot) :
    h.results.slots.get? k = some slot := by
  rcases kept_compileAt σ hk with hk | ⟨-, -, -, hok⟩
  · exact hk
  · cases ha.symm.trans hok

lemma ends_of_blank (hb : Reply.blank r.source = true)
    (hc : s.compileAt m r h = pure (.error (.invalidRequest "source is required"), h)) :
    Ends s m r h σ := by
  have hold : ¬ IsNew s m r h := fun hnew => hnew.given hb
  have ha : (σ.answer (s.compileAt m r h)).1 = .error (.invalidRequest "source is required") := by
    rw [hc, answer_pure]
  refine
    { failed := fun e => ?_
      thrown := fun message he => by cases ha.symm.trans he
      answered := fun hnew => absurd hnew hold
      tells := fun hnew => absurd hnew hold
      unkept := fun _ he _ _ => kept_of_failed s m r h σ he
      onward := ⟨fun hnew => absurd hnew hold, fun _ => ?_⟩ }
  · rw [ha, Except.error.injEq]
    constructor
    · rintro rfl
      exact .inl ⟨hb, rfl⟩
    · rintro (⟨-, rfl⟩ | ⟨hnew, -⟩)
      · rfl
      · exact absurd hnew hold
  · rw [hc, after_pure]
    exact .refl σ

lemma ends_of_cached {o : Output} (hb : ¬ Reply.blank r.source = true)
    (ho : cached? s m.asked r h = some o) (ha : (σ.answer (s.compileAt m r h)).1 = .ok o)
    (hτ : Onward 0 σ (σ.after (s.compileAt m r h))) : Ends s m r h σ := by
  have hold : ¬ IsNew s m r h := fun hnew => by cases hnew.unknown.symm.trans ho
  refine
    { failed := fun e => iff_of_false (fun he => by cases ha.symm.trans he) ?_
      thrown := fun message he => by cases ha.symm.trans he
      answered := fun hnew => absurd hnew hold
      tells := fun hnew => absurd hnew hold
      unkept := fun _ he _ _ => kept_of_failed s m r h σ he
      onward := ⟨fun hnew => absurd hnew hold, fun _ => hτ⟩ }
  rintro (⟨hb', -⟩ | ⟨hnew, -⟩)
  · exact hb hb'
  · exact hold hnew

lemma ends_of_isNew (hnew : IsNew s m r h)
    (hc : s.compileAt m r h = s.makePreview m r (sweptHoldings s m.asked h)) :
    Ends s m r h σ := by
  have hcomes : Comes s m r h σ (σ.answer (s.compileAt m r h)).1 := by
    rw [hc]
    exact comes_makePreview s m r h σ _
  refine
    { failed := fun e => hcomes.failed_iff.trans ⟨fun he => .inr ⟨hnew, he⟩, ?_⟩
      thrown := fun message he => ?_
      answered := fun _ ⟨c, static, hc⟩ hno => ?_
      tells := fun _ o ho => (ho ▸ hcomes).tells
      unkept := fun _ he _ _ => kept_of_failed s m r h σ he
      onward := ⟨fun _ => ?_, fun hold => absurd hnew hold⟩ }
  · rintro (⟨hb, -⟩ | ⟨-, he⟩)
    · exact absurd hb hnew.given
    · exact he
  · rw [hc] at he ⊢
    exact threw_makePreview s m r h σ he
  · cases ha : (σ.answer (s.compileAt m r h)).1 with
    | ok o => exact ⟨o, rfl⟩
    | error e =>
      rcases hcomes.failed_iff.1 ha with ⟨f, hf, -⟩ | ⟨message, hs, -⟩
      · exact absurd hf hc.not_fails
      · exact absurd hs (hno message)
  · rw [hc]
    exact onward_makePreview s m r _ σ

lemma ends_compileAt : Ends s m r h σ := by
  rcases compileAt_cases s m r h σ with ⟨hb, hc⟩ | ⟨o, hb, ho, ha, hτ⟩ | ⟨hnew, hc⟩
  · exact ends_of_blank s m r h σ hb hc
  · exact ends_of_cached s m r h σ hb ho ha hτ
  · exact ends_of_isNew s m r h σ hnew hc

/-- **How previews end.** A preview fails with a blank source, with what the compiler says in the last try
or of the static module, and with a module that threw, and is answered whatever else goes wrong. Its
answer tells what has been done; so does one that is given again, of the preview that it was made in.
No more than one repair is begun, after a rejection; no failure is kept; and the store is let alone. -/
theorem preview_ends : (∀ h, Ends s m r h σ) ∧
    ∀ es o, (σ.answer (s.compileAt m r (heldAfter s es))).1 = .ok o →
      ∃ before σ' m' q later, es ++ [.preview σ m r] = before ++ .preview σ' m' q :: later ∧
        q.digest = r.digest ∧ IsNew s m' q (heldAfter s before) ∧
        Tells s m' q (heldAfter s before) σ' o := by
  refine ⟨fun h => ends_compileAt s m r h σ, fun es o hok => ?_⟩
  rcases isNew_or_cached hok with hnew | ⟨-, ho⟩
  · exact ⟨es, σ, m, r, [], rfl, rfl, hnew, (ends_compileAt s m r _ σ).tells hnew o hok⟩
  · obtain ⟨q, ⟨before, σ', m', later, hes, hnew, hmade⟩, hq⟩ := exists_madeIn_of_cached ho
    exact ⟨before, σ', m', q, later ++ [.preview σ m r], by simp [hes], hq, hnew,
      (ends_compileAt s m' q _ σ').tells hnew o hmade⟩

end Ending

/-- The text `a` is rejected, and the model proposes `b` for it. -/
def mendingService : Service where
  compiler := fun _ _ _ source =>
    if source = "a" then .error (.rejected "bad" none none) else .ok { code := source }
  workshop := some { Repair.sample with
    tools := { Repair.sample.tools with
      format := fun _ _ source =>
        if source = "b" then .answered source else .failed (.rejected "bad" none none) }
    generate := some fun _ _ _ => .ok "b" }

def mendedRequest : Request := { source := "a", filename := some "note.txt" }

-- the preview is one of the text `b`, and one repair has been begun for it
theorem preview_ends_mended :
    ∃ o, (({} : Session).answer (mendingService.compileAt (.instant 0) mendedRequest {})).1 = .ok o ∧
      o.repaired = true ∧ o.props = Component.initialProps "b" ∧
      o.stubs = (Component.prepare "b" ∅).stubs ∧
      (({} : Session).after
        (mendingService.compileAt (.instant 0) mendedRequest {})).metrics.repairsStarted = 1 := by
  have hanswered :
      (({} : Session).answer (mendingService.compileAt (.instant 0) mendedRequest {})).1.isOk =
        true := by
    decide +kernel
  have hunknown : (cached? mendingService 0 mendedRequest {}).isNone = true := by decide +kernel
  have hnew : IsNew mendingService (.instant 0) mendedRequest {} :=
    ⟨by decide +kernel, Option.isNone_iff_eq_none.1 hunknown⟩
  have hmended : mended? mendingService mendedRequest {} = some "b" := by decide +kernel
  have htext : (lastTry mendingService mendedRequest {}).text = "b" := by rw [lastTry, hmended]
  have hbegun : repairsBegun mendingService mendedRequest {} = 1 := by decide +kernel
  obtain ⟨hends, -⟩ := preview_ends mendingService (.instant 0) mendedRequest {}
  cases hok : (({} : Session).answer
      (mendingService.compileAt (.instant 0) mendedRequest {})).1 with
  | error e =>
    rw [hok] at hanswered
    cases hanswered
  | ok o =>
    have htells := (hends {}).tells hnew o hok
    refine ⟨o, rfl, htells.repaired.2 ⟨"b", hmended, htext⟩, ?_, ?_, ?_⟩
    · rw [htells.props, htext]
    · rw [htells.stubs, htext]
      rfl
    · rw [((hends {}).onward.1 hnew).begun, hbegun]

end Mender.Preview
