import Mender.Proofs.Validation.Stages

/-!
A tool that fails does not spoil a validation.

A stage whose tool fails or crashes leaves one diagnostic of its own, and, if it is one that compiles,
its mode is not marked as fine. The text goes on to the later stages as if the tool had found nothing
to change, so these make the same calls and find the same.
-/

namespace Mender.Validation

open Session Tool

/-- A stage that asks a tool. -/
inductive Stage | lint | format | compile (m : Mode)
  deriving DecidableEq

namespace Stage

def phase : Stage → Phase
  | .lint => .lint
  | .format => .format
  | .compile m => m.phase

def collaborator : Stage → Collaborator
  | .lint => .linter
  | .format => .formatter
  | .compile _ => .trialCompiler

end Stage

namespace Result

def ok (m : Mode) (r : Result) : Bool :=
  match m with
  | .static => r.staticOk
  | .interactive => r.interactiveOk

section Succeed

variable (m m' : Mode) (r : Result)

lemma source_succeed : (r.succeed m).source = r.source := by cases m <;> rfl

lemma formatted_succeed : (r.succeed m).formatted = r.formatted := by cases m <;> rfl

lemma fixApplied_succeed : (r.succeed m).fixApplied = r.fixApplied := by cases m <;> rfl

lemma diagnostics_succeed : (r.succeed m).diagnostics = r.diagnostics := by cases m <;> rfl

lemma add_nil : r.add [] = r := by rw [add, List.append_nil]

lemma ok_succeed : (r.succeed m).ok m' = if m = m' then true else r.ok m' := by
  cases m <;> cases m' <;> rfl

end Succeed

end Result

/-! ### Results that differ in one stage -/

/-- Two results that agree but for what the stage `k` has left: its tool has succeeded in the first, and
failed in the second. -/
structure Differ (k : Stage) (r r' : Result) : Prop where
  source : r'.source = r.source
  formatted : r'.formatted = r.formatted
  fixApplied : r'.fixApplied = r.fixApplied
  diagnostics : ∃ before own d later, r.diagnostics = before ++ own ++ later ∧
    r'.diagnostics = before ++ [d] ++ later ∧ (∀ x ∈ own, x.phase = some k.phase) ∧
    d.phase = some k.phase ∧ ∀ x ∈ before ++ later, x.phase ≠ some k.phase
  ok : ∀ m, k ≠ .compile m → r'.ok m = r.ok m
  failed : ∀ m, k = .compile m → r.ok m = true ∧ r'.ok m = false

/-- One result, to which the stage `k` has not come yet. -/
structure Untouched (k : Stage) (r r' : Result) : Prop where
  same : r' = r
  diagnostics : ∀ d ∈ r.diagnostics, d.phase ≠ some k.phase
  ok : ∀ m, k = .compile m → r.ok m = false

/-- What holds of two results whatever the stages other than `k` make of them. -/
structure Persists (k : Stage) (Q : Result → Result → Prop) : Prop where
  formatted : ∀ {r r'}, Q r r' → r'.formatted = r.formatted
  add : ∀ {r r' ds}, Q r r' → (∀ d ∈ ds, d.phase ≠ some k.phase) → Q (r.add ds) (r'.add ds)
  fixed : ∀ {r r' text}, Q r r' → Q { r with formatted := text, fixApplied := true }
    { r' with formatted := text, fixApplied := true }
  withText : ∀ {r r' text}, Q r r' → Q (r.withText text) (r'.withText text)
  succeed : ∀ {r r' m}, Q r r' → k ≠ .compile m → Q (r.succeed m) (r'.succeed m)

section

variable {k : Stage} {r r' : Result} {ds : List Diagnostic}

lemma persists_differ (k : Stage) : Persists k (Differ k) where
  formatted h := h.formatted
  add := by
    intro r r' ds h hds
    obtain ⟨before, own, d, later, hr, hr', hown, hd, hrest⟩ := h.diagnostics
    refine { h with diagnostics := ⟨before, own, d, later ++ ds, ?_, ?_, hown, hd, fun x hx => ?_⟩ }
    · rw [Result.add, hr, List.append_assoc]
    · rw [Result.add, hr', List.append_assoc]
    · rw [← List.append_assoc] at hx
      exact (List.mem_append.1 hx).elim (hrest x) (hds x)
  fixed h := ⟨h.source, rfl, rfl, h.diagnostics, h.ok, h.failed⟩
  withText := by
    intro r r' text h
    unfold Result.withText
    rw [h.formatted]
    split
    · exact h
    · exact ⟨h.source, rfl, h.fixApplied, h.diagnostics, h.ok, h.failed⟩
  succeed := by
    intro r r' m h hk
    refine ⟨?_, ?_, ?_, ?_, fun m' hm' => ?_, fun m' hm' => ?_⟩
    · rw [Result.source_succeed, Result.source_succeed, h.source]
    · rw [Result.formatted_succeed, Result.formatted_succeed, h.formatted]
    · rw [Result.fixApplied_succeed, Result.fixApplied_succeed, h.fixApplied]
    · rw [Result.diagnostics_succeed, Result.diagnostics_succeed]
      exact h.diagnostics
    · rw [Result.ok_succeed, Result.ok_succeed, h.ok m' hm']
    · have hne : m ≠ m' := fun hm => hk (hm ▸ hm')
      rw [Result.ok_succeed, Result.ok_succeed, if_neg hne, if_neg hne]
      exact h.failed m' hm'

lemma persists_untouched (k : Stage) : Persists k (Untouched k) where
  formatted h := congrArg Result.formatted h.same
  add h hds := ⟨congrArg (Result.add _) h.same,
    fun d hd => (List.mem_append.1 hd).elim (h.diagnostics d) (hds d), h.ok⟩
  fixed h := ⟨by rw [h.same], h.diagnostics, h.ok⟩
  withText := by
    intro r r' text h
    obtain ⟨rfl, hdiagnostics, hok⟩ := h
    refine ⟨rfl, ?_, ?_⟩
    all_goals
      unfold Result.withText
      split
    · exact hdiagnostics
    · exact hdiagnostics
    · exact hok
    · exact hok
  succeed := by
    intro r r' m h hk
    obtain ⟨rfl, hdiagnostics, hok⟩ := h
    refine ⟨rfl, ?_, fun m' hm' => ?_⟩
    · rw [Result.diagnostics_succeed]
      exact hdiagnostics
    · have hne : m ≠ m' := fun hm => hk (hm ▸ hm')
      rw [Result.ok_succeed, if_neg hne]
      exact hok m' hm'

/-- The tool of the stage has found something, or has failed. -/
lemma Untouched.differ (h : Untouched k r r') {d : Diagnostic} (hk : ∀ m, k ≠ .compile m)
    (hds : ∀ x ∈ ds, x.phase = some k.phase) (hd : d.phase = some k.phase) :
    Differ k (r.add ds) (r'.add [d]) := by
  obtain ⟨rfl, hdiagnostics, -⟩ := h
  exact ⟨rfl, rfl, rfl, ⟨r'.diagnostics, ds, d, [], by simp [Result.add], by simp [Result.add], hds,
    hd, by simpa using hdiagnostics⟩, fun _ _ => rfl, fun m hm => absurd hm (hk m)⟩

/-- The compiler of the stage has succeeded, or has failed. -/
lemma Untouched.differ_compile {m : Mode} (h : Untouched (.compile m) r r') {d : Diagnostic}
    (hd : d.phase = some m.phase) : Differ (.compile m) (r.succeed m) (r'.add [d]) := by
  obtain ⟨rfl, hdiagnostics, hok⟩ := h
  refine ⟨(Result.source_succeed m r').symm, (Result.formatted_succeed m r').symm,
    (Result.fixApplied_succeed m r').symm, ?_, fun m' hm' => ?_, fun m' hm' => ?_⟩
  · rw [Result.diagnostics_succeed]
    exact ⟨r'.diagnostics, [], d, [], by simp, by simp [Result.add], by simp, hd,
      by simpa using hdiagnostics⟩
  · rw [Result.ok_succeed, if_neg fun hm => hm' (congrArg Stage.compile hm)]
    rfl
  · rw [Result.ok_succeed, if_pos (Stage.compile.inj hm')]
    exact ⟨rfl, hok m' hm'⟩

end

/-! ### The other stages -/

lemma Stage.eq_of_phase {k k' : Stage} (h : k.phase = k'.phase) : k = k' := by
  cases k with
  | lint | format =>
    cases k' with
    | lint | format => cases h <;> rfl
    | compile m => cases m <;> cases h
  | compile m =>
    cases k' with
    | lint | format => cases m <;> cases h
    | compile m' => cases m <;> cases m' <;> cases h <;> rfl

/-- A diagnostic of another stage is none of this one. -/
lemma Stage.phase_ne {k k' : Stage} (hk : k ≠ k') {d : Diagnostic} (hd : d.phase = some k'.phase) :
    d.phase ≠ some k.phase := by
  intro h
  rw [hd, Option.some_inj] at h
  exact hk (Stage.eq_of_phase h).symm

/-- Two sets of tools that answer alike in all stages but `k`. -/
structure AgreeBut (k : Stage) (t t' : Tools) : Prop where
  start : t'.start = t.start
  lint : k ≠ .lint → t'.lint = t.lint
  format : k ≠ .format → t'.format = t.format
  compile : ∀ m, k ≠ .compile m →
    (t'.compile.map fun compile n => compile n m) = t.compile.map fun compile n => compile n m

section

variable {k : Stage} {Q : Result → Result → Prop} {r r' : Result}

namespace Persists

lemma addBreakage (hQ : Persists k Q) {k' : Stage} (hk : k ≠ k') (h : Q r r') {α : Type}
    (x : Reply α) (origin : Mender.Origin) :
    Q (r.add (breakage? origin k'.phase x).toList) (r'.add (breakage? origin k'.phase x).toList) :=
  hQ.add h fun _ hd => Stage.phase_ne hk (phase_of_breakage (Option.mem_toList.1 hd))

lemma lintEnd (hQ : Persists k Q) (hk : k ≠ .lint) (h : Q r r') (x : Reply LintReport) :
    Q (lintEnd r x) (lintEnd r' x) := by
  unfold Validation.lintEnd
  cases x with
  | failed f => exact hQ.addBreakage hk h (.failed f) .lint
  | crashed detail => exact hQ.addBreakage hk h (.crashed detail) .lint
  | answered report =>
    have hmessages : ∀ d ∈ report.messages.map LintMessage.diagnostic, d.phase ≠ some k.phase := by
      intro d hd
      obtain ⟨message, -, rfl⟩ := List.mem_map.1 hd
      exact Stage.phase_ne hk rfl
    dsimp only
    rw [hQ.formatted h]
    cases report.fixed.filter fun f => f != r.formatted with
    | none => exact hQ.add h hmessages
    | some fixed => exact hQ.add (hQ.fixed h) hmessages

lemma formatEnd (hQ : Persists k Q) (hk : k ≠ .format) (h : Q r r') (x : Reply String) :
    Q (formatEnd r x) (formatEnd r' x) := by
  unfold Validation.formatEnd
  cases x with
  | failed f => exact hQ.addBreakage hk h (.failed f) .format
  | crashed detail => exact hQ.addBreakage hk h (.crashed detail) .format
  | answered text => exact hQ.withText h

lemma compileEnd (hQ : Persists k Q) {m : Mode} (hk : k ≠ .compile m) (h : Q r r')
    (x : Reply Compiled) : Q (compileEnd m r x) (compileEnd m r' x) := by
  unfold Validation.compileEnd
  cases x with
  | failed f => exact hQ.addBreakage hk h (.failed f) .compiler
  | crashed detail => exact hQ.addBreakage hk h (.crashed detail) .compiler
  | answered c => exact hQ.succeed h hk

lemma findHazards (hQ : Persists k Q) (h : Q r r') (c : Config) (kind : FileKind) :
    Q (findHazards c kind r) (findHazards c kind r') := by
  unfold Validation.findHazards
  split
  · rw [hQ.formatted h]
    refine hQ.add h fun d hd => ?_
    obtain ⟨z, -, rfl⟩ := List.mem_map.1 hd
    cases k with
    | lint | format => exact nofun
    | compile m => cases m <;> exact nofun
  · exact h

end Persists

end

section

variable {k : Stage} {Q : Result → Result → Prop} (hQ : Persists k Q) {t t' : Tools} {r r' : Result}
  (path : String)

include hQ

lemma coupled_lintStage (hk : k ≠ .lint) (ht : t'.lint = t.lint) (h : Q r r') :
    Coupled Eq Q (lintStage t path r) (lintStage t' path r') := by
  rw [lintStage_eq, lintStage_eq, hQ.formatted h, ht]
  exact .bind_eq (.refl _) fun n => .pure (hQ.lintEnd hk h _)

lemma coupled_formatStage (hk : k ≠ .format) (ht : t'.format = t.format) (parser : String)
    (h : Q r r') : Coupled Eq Q (formatStage t parser r) (formatStage t' parser r') := by
  rw [formatStage_eq, formatStage_eq, hQ.formatted h, ht]
  exact .bind_eq (.refl _) fun n => .pure (hQ.formatEnd hk h _)

lemma coupled_compileStage {m : Mode} (hk : k ≠ .compile m)
    {compile compile' : Nat → Mode → (file source : String) → Reply Compiled}
    (hc : ∀ n, compile' n m = compile n m) (h : Q r r') :
    Coupled Eq Q (compileStage compile path m r) (compileStage compile' path m r') := by
  rw [compileStage_eq, compileStage_eq, hQ.formatted h]
  refine .bind_eq (.refl _) fun n => .pure ?_
  rw [hc]
  exact hQ.compileEnd hk h _

variable (fault : Option Fault) (kind : FileKind)

lemma coupled_inspect (hk : k ≠ .lint) (ht : AgreeBut k t t') (h : Q r r') :
    Coupled Eq Q (inspect t fault kind path r) (inspect t' fault kind path r') := by
  unfold inspect
  split
  · rw [hQ.formatted h]
    refine .pure (hQ.add h fun d hd => ?_)
    unfold parseData at hd
    split at hd
    · cases hd
    · obtain rfl := List.mem_singleton.1 hd
      cases k with
      | lint | format => exact nofun
      | compile m => cases m <;> exact nofun
  · split
    · split
      · exact coupled_lintStage hQ path hk (ht.lint hk) h
      · exact .pure (hQ.add h fun d hd =>
          List.mem_singleton.1 hd ▸ Stage.phase_ne hk rfl)
    · exact .pure h

lemma coupled_arrange (hk : k ≠ .format) (ht : AgreeBut k t t') (h : Q r r') :
    Coupled Eq Q (arrange t fault kind path r) (arrange t' fault kind path r') := by
  unfold arrange
  split
  · exact coupled_formatStage hQ hk (ht.format hk) _ h
  · exact .pure (hQ.add h fun d hd =>
      List.mem_singleton.1 hd ▸ Stage.phase_ne hk rfl)

omit hQ in
/-- The compilers agree in a mode. -/
lemma AgreeBut.compile_eq (ht : AgreeBut k t t')
    {compile compile' : Nat → Mode → (file source : String) → Reply Compiled}
    (hc : t.compile = some compile) (hc' : t'.compile = some compile') {m : Mode}
    (hk : k ≠ .compile m) (n : Nat) : compile' n m = compile n m := by
  have h := ht.compile m hk
  rw [hc, hc', Option.map_some, Option.map_some, Option.some_inj] at h
  exact congrFun h n

lemma coupled_tryModes (hk : ∀ m, k ≠ .compile m) (ht : AgreeBut k t t') (h : Q r r') :
    Coupled Eq Q (tryModes t kind path r) (tryModes t' kind path r') := by
  unfold tryModes
  split
  · have hcompile := ht.compile .static (hk _)
    cases hc : t.compile with
    | none =>
      rw [hc, Option.map_none, Option.map_eq_none_iff] at hcompile
      rw [hcompile]
      exact .pure (hQ.add h fun d hd =>
        List.mem_singleton.1 hd ▸ Stage.phase_ne (hk .static) rfl)
    | some compile =>
      rw [hc, Option.map_some] at hcompile
      obtain ⟨compile', hc', -⟩ := Option.map_eq_some_iff.1 hcompile
      rw [hc']
      exact .bind (coupled_compileStage hQ path (hk _) (ht.compile_eq hc hc' (hk _)) h)
        fun a a' h => coupled_compileStage hQ path (hk _) (ht.compile_eq hc hc' (hk _)) h
  · exact .pure h

end

/-! ### The stage that fails -/

namespace Stage

/-- The stage asks its tool about files of this kind. -/
def Runs (fault : Option Fault) (kind : FileKind) : Stage → Prop
  | .lint => fault = none ∧ kind.isLintable = true
  | .format => fault = none
  | .compile _ => kind = .component

/-- The tool succeeds in its `n`-th call and leaves the text as it is. -/
def Keeps (t : Tools) (n : Nat) (path text : String) : Stage → Prop
  | .lint => ∃ report, t.lint n path text = .answered report ∧ ∀ fixed ∈ report.fixed, fixed = text
  | .format => t.format n ((FileKind.ofPath path).parser path) text = .answered text
  | .compile m => ∃ compile c, t.compile = some compile ∧ compile n m path text = .answered c

/-- The tool fails or crashes in its `n`-th call. -/
def Breaks (t : Tools) (n : Nat) (path text : String) : Stage → Prop
  | .lint => Broken (t.lint n path text)
  | .format => Broken (t.format n ((FileKind.ofPath path).parser path) text)
  | .compile m => ∃ compile, t.compile = some compile ∧ Broken (compile n m path text)

end Stage

/-- What is done between the formatting and the trial of a mode. -/
def upToMode (t : Tools) (path : String) (m : Mode) (r : Result) : Run Result :=
  match m, t.compile with
  | .interactive, some compile => compileStage compile path .static r
  | _, _ => pure r

/-- The way of a file to a stage. -/
def upTo (t : Tools) (path content : String) (k : Stage) : Run Result := do
  let fault ← startTools t
  let kind := FileKind.ofPath path
  let r := Result.pending content (kind == .component)
  match k with
  | .lint => return r
  | .format => inspect t fault kind path r
  | .compile m =>
    let r ← inspect t fault kind path r
    let r ← arrange t fault kind path r
    upToMode t path m r

/-- From the session `s`, the stage `k` asks its tool, which succeeds without a change if it is the one
of `t`, and fails if it is the one of `t'`. Otherwise these tools answer alike. -/
structure BreaksAt (k : Stage) (t t' : Tools) (path content : String) (s : Session) : Prop where
  agree : AgreeBut k t t'
  runs : k.Runs (s.answer (startTools t)) (FileKind.ofPath path)
  keeps : k.Keeps t ((s.after (upTo t path content k)).callsOf k.collaborator + 1) path
    (s.answer (upTo t path content k)).formatted
  breaks : k.Breaks t' ((s.after (upTo t path content k)).callsOf k.collaborator + 1) path
    (s.answer (upTo t path content k)).formatted

section

variable {t t' : Tools} {path : String} {s : Session} {r r' : Result}

lemma differ_lintStage (h : Untouched .lint r r')
    (hkeeps : Stage.lint.Keeps t (s.callsOf .linter + 1) path r.formatted)
    (hbreaks : Stage.lint.Breaks t' (s.callsOf .linter + 1) path r.formatted) :
    Differ .lint (s.answer (lintStage t path r)) (s.answer (lintStage t' path r')) ∧
      s.after (lintStage t path r) = s.after (lintStage t' path r') := by
  obtain ⟨report, hreport, hfixed⟩ := hkeeps
  obtain ⟨d, hphase, hd⟩ := lintEnd_of_broken r' hbreaks
  rw [lintStage_eq, lintStage_eq, (persists_untouched .lint).formatted h]
  simp only [answer_bind, answer_note, answer_pure, after_bind, after_note, after_pure,
    Call.collaborator, and_true]
  rw [hreport, lintEnd_of_kept hfixed, hd]
  refine h.differ nofun (fun x hx => ?_) hphase
  obtain ⟨message, -, rfl⟩ := List.mem_map.1 hx
  rfl

lemma differ_formatStage (h : Untouched .format r r')
    (hkeeps : Stage.format.Keeps t (s.callsOf .formatter + 1) path r.formatted)
    (hbreaks : Stage.format.Breaks t' (s.callsOf .formatter + 1) path r.formatted) :
    let parser := (FileKind.ofPath path).parser path
    Differ .format (s.answer (formatStage t parser r)) (s.answer (formatStage t' parser r')) ∧
      s.after (formatStage t parser r) = s.after (formatStage t' parser r') := by
  intro parser
  obtain ⟨d, hphase, hd⟩ := formatEnd_of_broken r' hbreaks
  have hkept : t.format (s.callsOf .formatter + 1) parser r.formatted = .answered r.formatted :=
    hkeeps
  rw [formatStage_eq, formatStage_eq, (persists_untouched .format).formatted h]
  simp only [answer_bind, answer_note, answer_pure, after_bind, after_note, after_pure,
    Call.collaborator, and_true]
  rw [hkept, formatEnd_of_kept, hd, ← Result.add_nil r]
  exact h.differ nofun (by simp) hphase

lemma differ_compileStage {m : Mode} (h : Untouched (.compile m) r r')
    {compile compile' : Nat → Mode → (file source : String) → Reply Compiled} {c : Compiled}
    (hkeeps : compile (s.callsOf .trialCompiler + 1) m path r.formatted = .answered c)
    (hbreaks : Broken (compile' (s.callsOf .trialCompiler + 1) m path r.formatted)) :
    Differ (.compile m) (s.answer (compileStage compile path m r))
        (s.answer (compileStage compile' path m r')) ∧
      s.after (compileStage compile path m r) = s.after (compileStage compile' path m r') := by
  obtain ⟨d, hphase, hd⟩ := compileEnd_of_broken m r' hbreaks
  rw [compileStage_eq, compileStage_eq, (persists_untouched (.compile m)).formatted h]
  simp only [answer_bind, answer_note, answer_pure, after_bind, after_note, after_pure,
    Call.collaborator, and_true]
  rw [hkeeps, hd]
  exact h.differ_compile hphase

/-- A component of which one mode fails to compile. -/
lemma differ_tryModes {m : Mode} (h : Untouched (.compile m) r r')
    (hagree : AgreeBut (.compile m) t t')
    (hkeeps : (Stage.compile m).Keeps t
      ((s.after (upToMode t path m r)).callsOf .trialCompiler + 1) path
      (s.answer (upToMode t path m r)).formatted)
    (hbreaks : (Stage.compile m).Breaks t'
      ((s.after (upToMode t path m r)).callsOf .trialCompiler + 1) path
      (s.answer (upToMode t path m r)).formatted) :
    Differ (.compile m) (s.answer (tryModes t .component path r))
        (s.answer (tryModes t' .component path r')) ∧
      s.after (tryModes t .component path r) = s.after (tryModes t' .component path r') := by
  obtain ⟨compile, answer, hc, hanswer⟩ := hkeeps
  obtain ⟨compile', hc', hbroken⟩ := hbreaks
  unfold tryModes
  rw [if_pos rfl, if_pos rfl, hc, hc']
  dsimp only
  cases m with
  | static =>
    unfold upToMode at hanswer hbroken
    rw [answer_pure, after_pure] at hanswer hbroken
    exact Coupled.bind_at (differ_compileStage h hanswer hbroken) fun q q' hq =>
      coupled_compileStage (persists_differ _) path (by decide)
        (hagree.compile_eq hc hc' (by decide)) hq
  | interactive =>
    unfold upToMode at hanswer hbroken
    rw [hc] at hanswer hbroken
    refine Coupled.then_at (coupled_compileStage (persists_untouched (.compile .interactive)) path
      (by decide) (hagree.compile_eq hc hc' (by decide)) h) rfl fun hq hafter => ?_
    rw [← hafter]
    exact differ_compileStage hq hanswer hbroken

lemma startTools_of_agree {k : Stage} (h : AgreeBut k t t') : startTools t' = startTools t := by
  unfold startTools
  rw [h.start]

lemma untouched_pending {k : Stage} (content : String) {kind : FileKind} {fault : Option Fault}
    (h : k.Runs fault kind) :
    Untouched k (.pending content (kind == .component)) (.pending content (kind == .component)) := by
  refine ⟨rfl, by simp [Result.pending], fun m hm => ?_⟩
  subst hm
  obtain rfl : kind = .component := h
  cases m <;> rfl

lemma inspect_of_isLintable {kind : FileKind} (hkind : kind.isLintable = true) (r : Result) :
    inspect t none kind path r = lintStage t path r := by
  have hdata : kind ≠ .data := by
    rintro rfl
    cases hkind
  unfold inspect
  rw [if_neg hdata, if_pos hkind]

lemma coupled_findHazards {k : Stage} (c : Config) (kind : FileKind) (h : Differ k r r') :
    Coupled Eq (Differ k) (pure (findHazards c kind r)) (pure (findHazards c kind r')) :=
  .pure ((persists_differ k).findHazards h c kind)

/-- Behind a stage that is none of the trials, these and the search for hazards keep the results apart as
they are. -/
lemma coupled_trials {k : Stage} (hk : ∀ m, k ≠ .compile m) (hagree : AgreeBut k t t') (c : Config)
    (kind : FileKind) (h : Differ k r r') :
    Coupled Eq (Differ k)
      (do
        let r ← tryModes t kind path r
        return findHazards c kind r)
      (do
        let r ← tryModes t' kind path r'
        return findHazards c kind r) :=
  .bind (coupled_tryModes (persists_differ k) path kind hk hagree h) fun _ _ =>
    coupled_findHazards c kind

/-- **A failing tool is isolated.** Whichever stage it fails in, the same calls are made as if it had
succeeded without a change, and the results differ in nothing but what the stage itself has left. -/
theorem stage_isolated {k : Stage} {content : String} (h : BreaksAt k t t' path content s)
    (c : Config) :
    Differ k (s.answer (validateFile t c path content)) (s.answer (validateFile t' c path content)) ∧
      s.after (validateFile t c path content) = s.after (validateFile t' c path content) := by
  obtain ⟨hagree, hruns, hkeeps, hbreaks⟩ := h
  have hfirst := untouched_pending content hruns
  rw [validateFile_eq, validateFile_eq, startTools_of_agree hagree]
  unfold upTo at hkeeps hbreaks
  simp only [answer_bind, after_bind] at hkeeps hbreaks
  refine Coupled.then_at (.refl (startTools t)) rfl fun _ _ => ?_
  generalize s.answer (startTools t) = fault at *
  generalize s.after (startTools t) = s₁ at *
  cases k with
  | lint =>
    obtain ⟨rfl, hkind⟩ := hruns
    simp only [Stage.collaborator, answer_pure, after_pure] at hkeeps hbreaks
    rw [inspect_of_isLintable hkind, inspect_of_isLintable hkind]
    refine Coupled.bind_at (differ_lintStage hfirst hkeeps hbreaks) fun r r' h => ?_
    exact .bind (coupled_arrange (persists_differ .lint) path none _ (by decide) hagree h)
      fun r r' => coupled_trials (by simp) hagree c _
  | format =>
    obtain rfl := hruns
    refine Coupled.then_at
      (coupled_inspect (persists_untouched .format) path none _ (by decide) hagree hfirst) rfl
      fun hlinted hafter => ?_
    rw [← hafter]
    exact Coupled.bind_at (differ_formatStage hlinted hkeeps hbreaks) fun r r' =>
      coupled_trials (by simp) hagree c _
  | compile m =>
    have hkind : FileKind.ofPath path = .component := hruns
    simp only [Stage.collaborator, answer_bind, after_bind] at hkeeps hbreaks
    refine Coupled.then_at
      (coupled_inspect (persists_untouched (.compile m)) path fault _ (by simp) hagree hfirst) rfl
      fun hlinted hafter => ?_
    rw [← hafter]
    refine Coupled.then_at
      (coupled_arrange (persists_untouched (.compile m)) path fault _ (by simp) hagree hlinted) rfl
      fun hformatted hafter => ?_
    rw [← hafter, hkind]
    rw [hkind] at hformatted hkeeps hbreaks
    exact Coupled.bind_at (differ_tryModes hformatted hagree hkeeps hbreaks) fun r r' =>
      coupled_findHazards c .component

end

/-- The linter ends each text with a semicolon, and the others accept everything. -/
def acceptingTools : Tools where
  start := fun _ => .ok ()
  lint := fun _ _ source => .answered { fixed := some (source ++ ";") }
  format := fun _ _ source => .answered source
  formatAll := none
  compile := some fun _ _ _ source => .answered { code := source }

def crashingTools : Tools := { acceptingTools with format := fun _ _ _ => .crashed "out of memory" }

-- the compilers get the text that the linter has mended, though the formatter crashes in between
theorem crash_isolated :
    let m (t : Tools) := validateFile t {} "App.svelte" "let a = 1"
    let σ : Session := {}
    BreaksAt .format acceptingTools crashingTools "App.svelte" "let a = 1" σ ∧
      (σ.answer (m crashingTools)).diagnostics = [crashed .format .format "out of memory"] ∧
      (σ.answer (m crashingTools)).formatted = "let a = 1;" ∧
      Differ .format (σ.answer (m acceptingTools)) (σ.answer (m crashingTools)) ∧
      σ.after (m acceptingTools) = σ.after (m crashingTools) := by
  intro m σ
  have h : BreaksAt .format acceptingTools crashingTools "App.svelte" "let a = 1" σ :=
    { agree := ⟨rfl, fun _ => rfl, fun hk => absurd rfl hk, fun _ _ => rfl⟩
      runs := (by decide +kernel : σ.answer (startTools acceptingTools) = none)
      keeps := rfl
      breaks := trivial }
  exact ⟨h, by decide +kernel, by decide +kernel, stage_isolated h {}⟩

end Mender.Validation
