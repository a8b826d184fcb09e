import Mathlib.Data.Finset.Card
import Mathlib.Data.Finset.SDiff
import Mender.Proofs.Preview.Sound

/-!
The graph that a walk builds.

A walk ends because each step takes one module off the pending ones, and a module is pending
only if a dependency was met for the first time.
-/

namespace Mender.Preview

open Mender.Module

variable {s : Scope} {entry : Closed} {vs : List Visit} {w : Walk}

/-! ### How long a walk takes -/

/-- An upper bound of the steps that are left: the pending modules, and the dependencies that
may become pending. -/
def Walk.left (s : Scope) (w : Walk) : Nat :=
  w.pending.length + (s.dependencies.keys.toFinset \ w.seen.toFinset).card

lemma left_start (s : Scope) (entry : Closed) :
    (Walk.start entry).left s ≤ s.dependencies.size + 1 := by
  have hsub : (s.dependencies.keys.toFinset \ (Walk.start entry).seen.toFinset).card ≤
      s.dependencies.keys.toFinset.card := Finset.card_le_card Finset.sdiff_subset
  have hkeys : s.dependencies.keys.toFinset.card ≤ s.dependencies.size := by
    simpa [KeyMap.keys, KeyMap.size] using s.dependencies.keys.toFinset_card_le
  have hpending : (Walk.start entry).pending.length = 1 := rfl
  unfold Walk.left
  omega

/-- The second walk is a later moment of the first: no key is forgotten, and no more steps are
left. -/
structure Grows (s : Scope) (w w' : Walk) : Prop where
  seen : w.seen ⊆ w'.seen
  left : w'.left s ≤ w.left s

lemma Grows.refl (s : Scope) (w : Walk) : Grows s w w := ⟨List.Subset.refl _, le_refl _⟩

lemma Grows.trans {w₁ w₂ : Walk} (h : Grows s w w₁) (h' : Grows s w₁ w₂) : Grows s w w₂ :=
  ⟨fun _ hk => h'.seen (h.seen hk), h'.left.trans h.left⟩

lemma grows_add (s : Scope) (w : Walk) (k : String) (n : Module.Node) :
    Grows s w (w.add k n) := by
  refine ⟨List.subset_cons_self _ _, Nat.add_le_add_left ?_ _⟩
  rw [Walk.add, List.toFinset_cons, Finset.sdiff_insert]
  exact Finset.card_erase_le

lemma grows_enqueue {k : String} (hk : s.dependencies.contains k = true) (new : k ∉ w.seen)
    (c : Closed) : Grows s w (w.enqueue k c) := by
  refine ⟨List.subset_cons_self _ _, ?_⟩
  have hmem : k ∈ s.dependencies.keys.toFinset \ w.seen.toFinset := by
    rw [Finset.mem_sdiff, List.mem_toFinset, List.mem_toFinset, KeyMap.mem_keys_iff]
    exact ⟨hk, new⟩
  have hcard := Finset.card_erase_lt_of_mem hmem
  have hpending : (w.enqueue k c).pending.length = w.pending.length + 1 := by
    simp [Walk.enqueue]
  have hseen : (w.enqueue k c).seen = k :: w.seen := rfl
  unfold Walk.left
  rw [hpending, hseen, List.toFinset_cons, Finset.sdiff_insert]
  omega

/-- A step meets the key that the specifier leads to. -/
lemma Step.grows {t : Target} {w' : Walk} (h : Step s t w vs (.ok w'))
    (ht : t.origin = .local → s.dependencies.contains t.key = true) :
    t.key ∈ w'.seen ∧ Grows s w w' := by
  cases h with
  | met h => exact ⟨h, .refl s _⟩
  | host | standIn | failed => exact ⟨List.mem_cons_self, grows_add s _ _ _⟩
  | closed new h => exact ⟨List.mem_cons_self, grows_enqueue (ht h) new _⟩

variable (compile : LocalCompiler) (σ : Session)

/-- Following the imports of a module meets all the keys that they lead to. -/
lemma followAll_grows (dir : String) (is : List String) {w' : Walk}
    (h : σ.answer (followAll compile s dir w is) = .ok w') :
    (∀ i ∈ is, (locate s dir i).key ∈ w'.seen) ∧ Grows s w w' := by
  induction is generalizing σ w with
  | nil =>
    rw [followAll, Session.answer_pure] at h
    cases h
    exact ⟨fun i hi => absurd hi List.not_mem_nil, .refl s _⟩
  | cons i is ih =>
    obtain ⟨w₁, vs, τ, hstep, hrest, -⟩ := exists_of_followAll_cons compile s σ h
    obtain ⟨hkey, hfirst⟩ := hstep.grows (locate_local s dir i)
    obtain ⟨hkeys, hlater⟩ := ih τ hrest
    refine ⟨fun j hj => ?_, hfirst.trans hlater⟩
    rcases List.mem_cons.1 hj with rfl | hj
    · exact hlater.seen hkey
    · exact hkeys j hj

lemma drained_of_left (h : w.left s ≤ 0) : w.pending = [] := by
  unfold Walk.left at h
  exact List.length_eq_zero_iff.1 (by omega)

/-- One step fewer is left after a module was followed. -/
lemma left_finish {m : String × Closed} {rest : List (String × Closed)} {n : Nat}
    (hp : w.pending = m :: rest) (h : w.left s ≤ n + 1) {w₁ : Walk}
    (hw : Grows s { w with pending := rest } w₁) (node : Module.Node) :
    (w₁.finish m.1 node).left s ≤ n := by
  have hw₁ := hw.left
  unfold Walk.left Walk.finish at *
  rw [hp, List.length_cons] at h
  dsimp only at hw₁ ⊢
  omega

/-- **A walk ends.** With enough steps nothing is pending at its end. -/
theorem walk_drains {n : Nat} (h : w.left s ≤ n) {w' : Walk}
    (hw : σ.answer (walk compile s n w) = .ok w') : w'.pending = [] := by
  induction n generalizing σ w with
  | zero =>
    have hp := drained_of_left h
    rw [walk_of_drained compile s hp, Session.answer_pure] at hw
    cases hw
    exact hp
  | succ n ih =>
    cases hp : w.pending with
    | nil =>
      rw [walk_of_drained compile s hp, Session.answer_pure] at hw
      cases hw
      exact hp
    | cons m rest =>
      obtain ⟨w₁, τ, hfirst, hlater, -⟩ := exists_of_walk_succ compile s σ hp hw
      exact ih τ (left_finish hp h (followAll_grows compile σ _ _ hfirst).2 _) hlater

/-- Further steps change nothing. -/
lemma walk_enough {n n' : Nat} (h : w.left s ≤ n) (hn : n ≤ n') :
    σ.answer (walk compile s n' w) = σ.answer (walk compile s n w) ∧
      σ.after (walk compile s n' w) = σ.after (walk compile s n w) := by
  induction n generalizing σ w n' with
  | zero =>
    have hp := drained_of_left h
    rw [walk_of_drained compile s hp, walk_of_drained compile s hp]
    exact ⟨rfl, rfl⟩
  | succ n ih =>
    obtain ⟨n', rfl⟩ := Nat.exists_eq_succ_of_ne_zero (show n' ≠ 0 by omega)
    cases hp : w.pending with
    | nil =>
      rw [walk_of_drained compile s hp, walk_of_drained compile s hp]
      exact ⟨rfl, rfl⟩
    | cons m rest =>
      rw [Nat.succ_eq_add_one, answer_walk_succ compile s σ hp, answer_walk_succ compile s σ hp,
        after_walk_succ compile s σ hp, after_walk_succ compile s σ hp]
      cases hr : σ.answer (followAll compile s (directoryOf m.1) { w with pending := rest }
          m.2.imports) with
      | error e => exact ⟨rfl, rfl⟩
      | ok w₁ =>
        exact ih _ (left_finish hp h (followAll_grows compile σ _ _ hr).2 _) (by omega)

/-! ### What a walk keeps -/

lemma Step.holding {t : Target} {r : Except Fault Walk} (h : Step s t w vs r)
    (m : String × Closed) : Step s t (w.holding m) vs (r.map (·.holding m)) := by
  cases h with
  | met h => exact .met h
  | host new h => exact .host new h
  | standIn new h => exact .standIn new h
  | closed new h safe hc => exact .closed new h safe hc
  | failed new h hv safe hc => exact .failed new h hv safe hc
  | refused new h hv hz => exact .refused new h hv hz

/-- Following the imports of `m` keeps the invariant. -/
lemma followAll_holds (m : String × Closed) (is : List String) (his : is ⊆ m.2.imports)
    (h : Invariant s entry vs (w.holding m)) :
    Holds s entry
      (vs ++ σ.answer (takeUp compile s (takenByAll compile s (directoryOf m.1) σ w is)))
      ((σ.answer (followAll compile s (directoryOf m.1) w is)).map (·.holding m)) := by
  induction is generalizing σ w vs with
  | nil => simpa [followAll, takenByAll, Holds, Except.map] using h
  | cons i is ih =>
    obtain ⟨hi, his⟩ := List.cons_subset.1 his
    obtain ⟨hstep, hafter⟩ := follow_step compile s σ (directoryOf m.1) w i
    have h₁ := h.step List.mem_cons_self hi (hstep.holding m)
    rw [answer_followAll_cons, takenByAll, answer_takeUp_append, ← hafter, ← List.append_assoc]
    cases hr : σ.answer (follow compile s (directoryOf m.1) w i) with
    | error e =>
      rw [hr] at h₁
      simpa using h₁
    | ok w₁ =>
      rw [hr] at h₁
      exact ih _ his h₁

/-- **A whole walk** keeps the invariant, or stops at the hazard of a visit. -/
theorem walk_holds (n : Nat) (h : Invariant s entry vs w) :
    Holds s entry (vs ++ σ.answer (takeUp compile s (taken compile s n σ w)))
      (σ.answer (walk compile s n w)) := by
  induction n generalizing σ w vs with
  | zero => simpa [walk, taken, Holds] using h
  | succ n ih =>
    cases hp : w.pending with
    | nil => simpa [walk_of_drained, taken_of_drained, hp, Holds] using h
    | cons m rest =>
      -- a module that is being followed is still the first of the pending ones
      have hw : ({ w with pending := rest } : Walk).holding m = w := by rw [Walk.holding, ← hp]
      have h₁ := followAll_holds compile σ m m.2.imports (List.Subset.refl _) (hw ▸ h)
      rw [answer_walk_succ compile s σ hp, taken, hp]
      dsimp only
      rw [answer_takeUp_append, ← after_followAll, ← List.append_assoc]
      cases hr : σ.answer (followAll compile s (directoryOf m.1) { w with pending := rest }
          m.2.imports) with
      | error e =>
        rw [hr] at h₁
        rw [answer_takeUp_nil, List.append_nil]
        exact h₁
      | ok w₁ =>
        rw [hr] at h₁
        have hseen := (followAll_grows compile σ _ _ hr).1
        have hsound : Sound s entry _ (w₁.holding m) := h₁.sound
        exact ih _ { h₁ with sound := hsound.finish hseen }

/-! ### Graphs -/

/-- A module of the graph links to another one. -/
def LinksTo (g : Graph) (a b : String) : Prop :=
  ∃ n i, g.modules.get? a = some n ∧ n.links.get? i = some b

/-- What a runner relies on. -/
structure WellFormed (entry : Closed) (vs : List Visit) (g : Graph) : Prop where
  rooted : g.entry = entryKey ∧
    ∃ n, g.modules.get? entryKey = some n ∧ n.origin = .local ∧ n.code = some entry.code
  /-- A module with rewritten code links exactly the specifiers of its closed form. -/
  complete : ∀ k n, g.modules.get? k = some n → n.origin = .local →
    ∃ c, IsForm entry vs k c ∧ n.code = some c.code ∧
      ∀ i, n.links.contains i = true ↔ i ∈ c.imports
  linked : ∀ k n i b, g.modules.get? k = some n → n.links.get? i = some b →
    g.modules.contains b = true
  reached : ∀ k, g.modules.contains k = true → Relation.ReflTransGen (LinksTo g) g.entry k
  hosts : ∀ k n, g.modules.get? k = some n → n.origin.isHost = true →
    n.code = none ∧ n.links = ∅
  standIns : ∀ k n, g.modules.get? k = some n → n.origin = .stub →
    (∃ code, n.code = some code) ∧ n.links = ∅

lemma contains_linksOf (s : Scope) (dir : String) (c : Closed) (i : String) :
    (linksOf s dir c).contains i = true ↔ i ∈ c.imports := by
  rw [KeyMap.contains_iff, get?_linksOf]
  by_cases h : i ∈ c.imports <;> simp [h]

lemma IsForm.eq_entry {c : Closed} (h : IsForm entry vs entryKey c) : c = entry := by
  cases h with
  | entry => rfl
  | dependency _ apart _ => exact absurd rfl apart

lemma Placed.at_entry {n : Module.Node} (h : Placed s entry vs entryKey n) :
    n = nodeOf s entryKey entry := by
  generalize hk : entryKey = k at h
  cases h with
  | host apart | standIn apart => exact absurd hk.symm apart
  | closed h =>
    subst hk
    rw [h.eq_entry]

/-- A walk that has nothing left to follow has found a whole graph. -/
theorem wellFormed_of_sound (h : Sound s entry vs w) (hp : w.pending = [])
    (props : KeyMap Json) :
    WellFormed entry vs { entry := entryKey, modules := w.modules, props } := by
  have hmet : ∀ k, k ∈ w.seen ↔ w.modules.contains k = true := by
    intro k
    rw [h.met k, hp]
    simp
  refine ⟨⟨rfl, ?_⟩, ?_, ?_, ?_, ?_, ?_⟩
  · obtain ⟨n, hn⟩ := KeyMap.contains_iff.1 ((hmet entryKey).1 h.rooted)
    rw [(h.placed _ n hn).at_entry] at hn
    exact ⟨_, hn, rfl, rfl⟩
  · intro k n hn ho
    obtain ⟨c, hf, rfl⟩ := (h.placed k n hn).of_local ho
    exact ⟨c, hf, rfl, contains_linksOf s (directoryOf k) c⟩
  · intro k n i b hn hi
    exact (hmet b).1 (h.linked k n i b hn hi)
  · intro k hk
    refine Relation.ReflTransGen.mono (fun a b he => ?_) _ _ (h.reached k ((hmet k).2 hk))
    cases he with
    | placed hn hi => exact ⟨_, _, hn, hi⟩
    | ahead hc => exact absurd hc (by simp [hp])
  · intro k n hn ho
    rw [((h.placed k n hn).of_host ho).1]
    exact ⟨rfl, rfl⟩
  · intro k n hn ho
    rw [(h.placed k n hn).of_stub ho]
    exact ⟨⟨_, rfl⟩, rfl⟩

/-- The steps that are enough for a graph. -/
def stepsFor (s : Scope) : Nat := s.dependencies.size + 1

/-- The dependencies that are taken up when a graph is built, in order. -/
def takenFrom (s : Scope) (entry : Closed) : List String :=
  taken compile s (stepsFor s) σ (.start entry)

lemma answer_buildGraph (entry : Closed) (props : KeyMap Json) :
    σ.answer (buildGraph compile s entry props) =
      (σ.answer (walk compile s (stepsFor s) (.start entry))).map fun w =>
        { entry := entryKey, modules := w.modules, props } := by
  rw [buildGraph, Session.answer_bind, stepsFor]
  split <;> simp [*, Except.map]

lemma after_buildGraph (entry : Closed) (props : KeyMap Json) :
    σ.after (buildGraph compile s entry props) =
      σ.after (takeUp compile s (takenFrom compile σ s entry)) := by
  rw [buildGraph, Session.after_bind, takenFrom, ← after_walk, stepsFor]
  split <;> simp

/-- What is known of the graph of an entry, or of the fault in its place. -/
lemma buildGraph_holds (s : Scope) (entry : Closed) (props : KeyMap Json) :
    let vs := σ.answer (takeUp compile s (takenFrom compile σ s entry))
    match σ.answer (buildGraph compile s entry props) with
    | .error e => Stopped s vs e
    | .ok g => ∃ w, Invariant s entry vs w ∧ w.pending = [] ∧
        g = { entry := entryKey, modules := w.modules, props } := by
  have h := walk_holds compile σ (stepsFor s) (.start s entry)
  rw [answer_buildGraph]
  cases hw : σ.answer (walk compile s (stepsFor s) (.start entry)) with
  | error e =>
    rw [hw] at h
    exact h
  | ok w =>
    rw [hw] at h
    exact ⟨w, h, walk_drains compile σ (left_start s entry) hw, rfl⟩

/-- A graph has the modules of a walk that has nothing left to follow. -/
lemma exists_walk {props : KeyMap Json} {g : Graph}
    (hg : σ.answer (buildGraph compile s entry props) = .ok g) :
    ∃ w, σ.answer (walk compile s (stepsFor s) (.start entry)) = .ok w ∧ w.pending = [] ∧
      g.modules = w.modules ∧
      Invariant s entry (σ.answer (takeUp compile s (takenFrom compile σ s entry))) w := by
  have hholds := walk_holds compile σ (stepsFor s) (.start s entry)
  rw [answer_buildGraph] at hg
  cases hw : σ.answer (walk compile s (stepsFor s) (.start entry)) with
  | error e =>
    rw [hw] at hg
    cases hg
  | ok w =>
    rw [hw] at hg hholds
    obtain rfl := Except.ok.inj hg
    exact ⟨w, rfl, walk_drains compile σ (left_start s entry) hw, rfl, hholds⟩

/-- How the building of a graph goes. -/
structure GraphBuilt (s : Scope) (entry : Closed) (props : KeyMap Json) : Prop where
  /-- The walk ends within its steps; more of them would change nothing. -/
  ends : ∀ n ≥ stepsFor s, walk compile s n (.start entry) =
    walk compile s (stepsFor s) (.start entry)
  drained : ∀ w, σ.answer (walk compile s (stepsFor s) (.start entry)) = .ok w → w.pending = []
  once : (takenFrom compile σ s entry).Nodup
  known : ∀ k ∈ takenFrom compile σ s entry, s.dependencies.contains k = true
  /-- Beyond taking up those dependencies nothing is done. -/
  calls : σ.after (buildGraph compile s entry props) =
    σ.after (takeUp compile s (takenFrom compile σ s entry))
  /-- A compiler that notes its paths notes each of their components once. -/
  logged : ∀ log : Session → List String,
    (∀ τ path source, log (Session.after τ (compile path source)) = log τ ++ [path]) →
      log (σ.after (buildGraph compile s entry props)) =
        log σ ++ (takenFrom compile σ s entry).filter isComponentPath
  /-- Only a hazard of a dependency keeps a graph from being found. -/
  found : (∃ g, σ.answer (buildGraph compile s entry props) = .ok g) ↔
    ∀ v ∈ σ.answer (takeUp compile s (takenFrom compile σ s entry)), v.hazards = []
  graph : ∀ g, σ.answer (buildGraph compile s entry props) = .ok g →
    WellFormed entry (σ.answer (takeUp compile s (takenFrom compile σ s entry))) g

lemma Holds.onceEach {r : Except Fault Walk} (h : Holds s entry vs r) : OnceEach s vs := by
  cases r with
  | error e => exact h.toOnceEach
  | ok w => exact h.toOnceEach

lemma found_iff (s : Scope) (entry : Closed) (props : KeyMap Json) :
    (∃ g, σ.answer (buildGraph compile s entry props) = .ok g) ↔
      ∀ v ∈ σ.answer (takeUp compile s (takenFrom compile σ s entry)), v.hazards = [] := by
  have h := buildGraph_holds compile σ s entry props
  cases hg : σ.answer (buildGraph compile s entry props) with
  | error e =>
    rw [hg] at h
    obtain ⟨v, hv, z, zs, hz, -⟩ := h.hazard
    constructor
    · rintro ⟨g, hno⟩
      cases hno
    · intro hsafe
      rw [hsafe v hv] at hz
      cases hz
  | ok g =>
    rw [hg] at h
    obtain ⟨w, hw, -⟩ := h
    exact ⟨fun _ => hw.safe, fun _ => ⟨g, rfl⟩⟩

/-- **Building a graph.** It ends, takes up each dependency once at most, and a graph that is
found is well formed. -/
theorem buildGraph_built (s : Scope) (entry : Closed) (props : KeyMap Json) :
    GraphBuilt compile σ s entry props := by
  have honce : OnceEach s (σ.answer (takeUp compile s (takenFrom compile σ s entry))) :=
    (walk_holds compile σ (stepsFor s) (.start s entry)).onceEach
  have hkeys := keys_takeUp compile s σ (takenFrom compile σ s entry)
  have hknown : ∀ k ∈ takenFrom compile σ s entry, s.dependencies.contains k = true := by
    intro k hk
    rw [← hkeys] at hk
    obtain ⟨v, hv, rfl⟩ := List.mem_map.1 hk
    exact honce.known v hv
  refine
    { ends := fun n hn => Session.run_ext fun τ => walk_enough compile τ (left_start s entry) hn
      drained := fun w hw => walk_drains compile σ (left_start s entry) hw
      once := hkeys ▸ honce.distinct
      known := hknown
      calls := after_buildGraph compile σ entry props
      logged := fun log hlog => ?_
      found := found_iff compile σ s entry props
      graph := fun g hg => ?_ }
  · rw [after_buildGraph]
    exact log_takeUp compile s σ hlog hknown
  · have h := buildGraph_holds compile σ s entry props
    rw [hg] at h
    obtain ⟨w, hw, hp, rfl⟩ := h
    exact wellFormed_of_sound hw.sound hp props

-- modules that import each other, under several spellings
example :
    ((({} : Session).answer (buildGraph (fun _ _ => return .error (.unavailable ""))
      ⟨.standard, .ofList [("lib/a.js", "import b from './b.js';"),
        ("lib/b.js", "import a from './a.js';")], ∅⟩
      ⟨"", ["./lib/a", "/lib/a.js", "svelte"]⟩ ∅)).toOption.map fun g => g.modules.keys) =
      some ["lib/a.js", "lib/b.js", "pw:entry", "svelte"] := by
  decide +kernel

end Mender.Preview
