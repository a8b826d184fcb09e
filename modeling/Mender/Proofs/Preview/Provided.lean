import Mender.Component.Stubs
import Mender.Proofs.Preview.Origins

/-!
What is provided, before compiling and after.

A component is prepared by the keys of the dependencies, and the modules of its preview are found by the
same keys. So an import that is left alone leads to a dependency, and one that is led to a stand-in has
none. But keys are shared in a graph: a package may have the name of a dependency's key, and if the entry
imports the package first, its stand-in is what the import of the dependency gets.

The imports of the entry are all followed before those of any other module, and a key that was met is
passed over. So what stands under a key that the entry leads to is decided by the first of its imports
with that key.
-/

namespace Mender.Preview

open Mender.Module Mender.Component

section

variable {s : Scope} {entry : Closed} {vs vs' : List Visit} {w w' : Walk}

/-! ### What stands under a key stays there -/

lemma Walk.Has.add (h : Sound s entry vs w) {k b : String} (new : b ∉ w.seen) {n : Node}
    {o : Module.Origin} (hk : w.Has k o) : (w.add b n).Has k o := by
  cases hk with
  | placed hn =>
    have hne : k ≠ b := fun he => new (he ▸ h.seen_of_has (.placed hn))
    exact .placed ((KeyMap.get?_insert_of_ne _ _ hne).trans hn)
  | ahead hc => exact .ahead hc

lemma Walk.Has.enqueue {k b : String} {c : Closed} {o : Module.Origin} (hk : w.Has k o) :
    (w.enqueue b c).Has k o := by
  cases hk with
  | placed hn => exact .placed hn
  | ahead hc => exact .ahead (List.mem_append_left _ hc)

lemma Walk.Has.finish {m : String × Closed} (h : Sound s entry vs (w.holding m)) {k : String}
    {o : Module.Origin} (hk : (w.holding m).Has k o) :
    (w.finish m.1 (nodeOf s m.1 m.2)).Has k o := by
  cases hk with
  | placed hn =>
    have hne : k ≠ m.1 := by
      rintro rfl
      rw [h.awaited m List.mem_cons_self] at hn
      cases hn
    exact .placed ((KeyMap.get?_insert_of_ne _ _ hne).trans hn)
  | ahead hc =>
    rcases List.mem_cons.1 hc with hm | hc
    · obtain ⟨k', c⟩ := m
      obtain rfl := congrArg Prod.fst hm
      exact .placed (n := nodeOf s k c) (KeyMap.get?_insert_self _ _ _)
    · exact .ahead hc

/-- What a target calls for stands under its key, and nothing but a dependency was visited. -/
structure DecidedBy (t : Target) (vs : List Visit) (w : Walk) : Prop where
  has : w.Has t.key (originFor vs t)
  unvisited : t.origin ≠ .local → failed vs t.key = false

/-- **What is decided stays decided.** -/
lemma kept_decidedBy (s : Scope) (entry : Closed) (t : Target) : Kept s entry (DecidedBy t) where
  step := by
    intro vs vs' w w' m i h hw hm hi hs
    have hseen : t.key ∈ w.seen := hw.sound.seen_of_has h.has
    have later (hnot : t.key ∉ vs'.map Visit.key) (hhas : w'.Has t.key (originFor vs t)) :
        DecidedBy t (vs ++ vs') w' := by
      refine ⟨(originFor_append hnot).symm ▸ hhas, fun hne => ?_⟩
      rw [failed_append, failed_of_notMem hnot, h.unvisited hne, Bool.false_or]
    cases hs with
    | met => exact later List.not_mem_nil h.has
    | host new | standIn new => exact later List.not_mem_nil (h.has.add hw.sound new)
    | closed new =>
      refine later (fun hmem => new ?_) h.has.enqueue
      have hkey : t.key = (targetOf s m.1 i).key := List.mem_singleton.1 hmem
      rwa [← hkey]
    | failed new _ hv =>
      refine later (fun hmem => new ?_) (h.has.add hw.sound new)
      rwa [← hv, ← List.mem_singleton.1 hmem]
  finish h hs := ⟨h.has.finish hs, h.unvisited⟩

/-! ### Who decides -/

/-- The first import with a key places what it calls for. -/
lemma Step.decides {t : Target} (hs : Step s t w vs' (.ok w')) (new : t.key ∉ w.seen)
    (hv : t.key ∉ vs.map Visit.key) : DecidedBy t (vs ++ vs') w' := by
  have hself {n : Node} : (w.add t.key n).Has t.key n.origin :=
    .placed (KeyMap.get?_insert_self _ _ _)
  cases hs with
  | met h => exact absurd h new
  | host _ ho =>
    have hne : t.origin ≠ .local := by
      intro hl
      rw [hl] at ho
      cases ho
    rw [List.append_nil]
    exact ⟨(originFor_of_ne hne).symm ▸ hself, fun _ => failed_of_notMem hv⟩
  | standIn _ ho =>
    rw [List.append_nil]
    have horigin : originFor vs t = .stub := by rw [originFor_of_ne (by simp [ho]), ho]
    exact ⟨horigin ▸ hself, fun _ => failed_of_notMem hv⟩
  | @closed text c _ ho safe hc =>
    have horigin : originFor (vs ++ [⟨t.key, some text⟩]) t = .local := by
      rw [originFor_single ho rfl hv]
      simp [Visit.closed?, hc, Except.toOption]
    exact ⟨horigin ▸ .ahead (List.mem_append_right _ (List.mem_singleton_self _)),
      fun hne => absurd ho hne⟩
  | @failed v _ ho hkey safe hc =>
    have horigin : originFor (vs ++ [v]) t = .stub := by
      rw [originFor_single ho hkey hv, hc]
      rfl
    exact ⟨horigin ▸ hself, fun hne => absurd ho hne⟩

/-- A step meets no other key. -/
lemma Step.notMem_seen {t : Target} (hs : Step s t w vs' (.ok w')) {k : String} (hk : k ∉ w.seen)
    (hne : k ≠ t.key) : k ∉ w'.seen := by
  cases hs with
  | met => exact hk
  | host | standIn | closed | failed => exact mt List.mem_cons.1 (not_or.2 ⟨hne, hk⟩)

variable (compile : LocalCompiler) (σ : Session)

/-- Of the imports of a module, the first one with a new key decides what stands there. -/
lemma followAll_decides (m : String × Closed) (is : List String) (his : is ⊆ m.2.imports)
    (hw : Invariant s entry vs (w.holding m)) {k j : String} (new : k ∉ w.seen)
    (hj : is.find? (fun i => (targetOf s m.1 i).key == k) = some j)
    (hr : σ.answer (followAll compile s (directoryOf m.1) w is) = .ok w') :
    DecidedBy (targetOf s m.1 j)
      (vs ++ σ.answer (takeUp compile s (takenByAll compile s (directoryOf m.1) σ w is)))
      (w'.holding m) := by
  induction is generalizing σ w vs with
  | nil => cases hj
  | cons i is ih =>
    obtain ⟨hi, his⟩ := List.cons_subset.1 his
    obtain ⟨w₁, vs₁, τ, hstep, hrest, hvisits⟩ := exists_of_followAll_cons compile s σ hr
    have hstep' : Step s (targetOf s m.1 i) (w.holding m) vs₁ (.ok (w₁.holding m)) :=
      hstep.holding m
    have hw₁ : Invariant s entry (vs ++ vs₁) (w₁.holding m) := hw.step List.mem_cons_self hi hstep'
    rw [hvisits, ← List.append_assoc]
    rw [List.find?_cons] at hj
    split at hj
    · next hkey =>
      obtain rfl := Option.some.inj hj
      obtain rfl := beq_iff_eq.1 hkey
      exact ((kept_decidedBy s entry _).of_followAll compile τ m is his hw₁
        (hstep'.decides new (hw.unvisited new)) hrest).2
    · next hkey =>
      have hne : k ≠ (targetOf s m.1 i).key := (beq_eq_false_iff_ne.1 hkey).symm
      exact ih τ his hw₁ (hstep'.notMem_seen new hne) hj hrest

/-- What the first module of a walk leaves is kept to the end. -/
lemma Kept.of_first {P : List Visit → Walk → Prop} (hP : Kept s entry P) {m : String × Closed}
    {rest : List (String × Closed)} (hp : w.pending = m :: rest) {n : Nat}
    (hw : Invariant s entry vs w) (hr : σ.answer (walk compile s (n + 1) w) = .ok w')
    (hfirst : ∀ w₁, σ.answer (followAll compile s (directoryOf m.1) { w with pending := rest }
        m.2.imports) = .ok w₁ →
      P (vs ++ σ.answer (takeUp compile s (takenByAll compile s (directoryOf m.1) σ
        { w with pending := rest } m.2.imports))) (w₁.holding m)) :
    P (vs ++ σ.answer (takeUp compile s (taken compile s (n + 1) σ w))) w' := by
  have hhold : ({ w with pending := rest } : Walk).holding m = w := by rw [Walk.holding, ← hp]
  obtain ⟨w₁, τ, hf, hlater, hvisits⟩ := exists_of_walk_succ compile s σ hp hr
  have hseen := (followAll_grows compile σ _ _ hf).1
  have hall := followAll_holds compile σ m m.2.imports (List.Subset.refl _) (hhold.symm ▸ hw)
  rw [hf] at hall
  have hw₁ : Invariant s entry _ (w₁.holding m) := hall
  rw [hvisits, ← List.append_assoc]
  exact hP.of_walk compile τ _ { hw₁ with sound := hw₁.sound.finish hseen }
    (hP.finish (hfirst w₁ hf) hw₁.sound) hlater

lemma DecidedBy.exists_node {t : Target} (h : DecidedBy t vs w) (hdrained : w.pending = []) :
    ∃ n, w.modules.get? t.key = some n ∧ n.origin = originFor vs t := by
  obtain ⟨hhas, -⟩ := h
  generalize originFor vs t = o at hhas ⊢
  cases hhas with
  | placed hn => exact ⟨_, hn, rfl⟩
  | ahead hc => simp [hdrained] at hc

/-- **The first import with a key decides.** -/
theorem decided_by_first {props : KeyMap Json} {g : Graph}
    (hg : σ.answer (buildGraph compile s entry props) = .ok g) {k j : String} (hk : k ≠ entryKey)
    (hj : entry.imports.find? (fun i => (targetOf s entryKey i).key == k) = some j) :
    let vs := σ.answer (takeUp compile s (takenFrom compile σ s entry))
    ∃ n, g.modules.get? k = some n ∧ n.origin = originFor vs (targetOf s entryKey j) ∧
      ((targetOf s entryKey j).origin ≠ .local → failed vs k = false) := by
  intro vs
  obtain ⟨w, hw, hdrained, hmodules, -⟩ := exists_walk compile σ hg
  obtain rfl : (targetOf s entryKey j).key = k := by simpa using List.find?_some hj
  have hstart := Invariant.start s entry
  have hdecided : DecidedBy (targetOf s entryKey j) ([] ++ vs) w := by
    refine (kept_decidedBy s entry _).of_first compile σ (m := (entryKey, entry)) rfl hstart hw ?_
    intro w₁ hf
    refine followAll_decides compile σ (entryKey, entry) _ (List.Subset.refl _) hstart ?_ hj hf
    exact mt List.mem_singleton.1 hk
  rw [List.nil_append] at hdecided
  obtain ⟨n, hn, horigin⟩ := hdecided.exists_node hdrained
  exact ⟨n, hmodules ▸ hn, horigin, hdecided.unvisited⟩

/-- The entry stands under its key, and was not visited. -/
lemma entry_of_graph {props : KeyMap Json} {g : Graph}
    (hg : σ.answer (buildGraph compile s entry props) = .ok g) :
    g.modules.get? entryKey = some (nodeOf s entryKey entry) ∧
      failed (σ.answer (takeUp compile s (takenFrom compile σ s entry))) entryKey = false := by
  obtain ⟨w, hw, hdrained, hmodules, hinv⟩ := exists_walk compile σ hg
  have hstart : DecidedBy ⟨.local, entryKey⟩ [] (.start entry) :=
    ⟨.ahead (List.mem_singleton_self _), fun hne => absurd rfl hne⟩
  have hdecided := (kept_decidedBy s entry _).of_walk compile σ _ (.start s entry) hstart hw
  obtain ⟨n, hn, horigin⟩ := hdecided.exists_node hdrained
  obtain rfl := (hinv.sound.placed entryKey n hn).at_entry
  refine ⟨hmodules ▸ hn, ?_⟩
  rw [Bool.eq_false_iff]
  intro hfailed
  rw [originFor, if_pos ⟨rfl, hfailed⟩] at horigin
  cases horigin

end

variable {policy : Policy} {dependencies stubs : KeyMap String} {i : String}

/-! ### The dependencies of a scope -/

lemma contains_dependencies (policy : Policy) (dependencies stubs : KeyMap String) (k : String) :
    (Scope.of policy dependencies stubs).dependencies.contains k = true ↔ k ∈ keysOf dependencies := by
  rw [Scope.of, KeyMap.contains_ofList, List.map_map]
  simp [keysOf, KeyMap.keys]

/-- Of the dependencies with one key the last one by its path counts. -/
lemma exists_last_of_key {k : String} (hk : k ∈ keysOf dependencies) :
    ∃ e ∈ dependencies.entries, normalize "" e.1 = k ∧
      (Scope.of policy dependencies stubs).dependencies.get? k = some e.2 ∧
      ∀ e' ∈ dependencies.entries, normalize "" e'.1 = k → e'.1 ≤ e.1 := by
  let named := dependencies.entries.filter fun e => normalize "" e.1 == k
  have hne : named ≠ [] := by
    obtain ⟨path, hpath, rfl⟩ := List.mem_map.1 hk
    obtain ⟨e, he, rfl⟩ := List.mem_map.1 hpath
    exact List.ne_nil_of_mem (List.mem_filter.2 ⟨he, beq_self_eq_true _⟩)
  have hlast : named.getLast? = some (named.getLast hne) := List.getLast?_eq_some_getLast hne
  obtain ⟨hmem, hkey⟩ := List.mem_filter.1 (List.getLast_mem hne)
  refine ⟨named.getLast hne, hmem, beq_iff_eq.1 hkey, ?_, fun e' he' hk' => ?_⟩
  · rw [Scope.of, KeyMap.get?_ofList, List.filter_map, List.getLast?_map, Option.map_map]
    exact congrArg _ hlast
  · have hin : e' ∈ named := List.mem_filter.2 ⟨he', beq_iff_eq.2 hk'⟩
    have hsorted : named.Pairwise fun a b => a.1 < b.1 := dependencies.increase.filter _
    rw [← List.dropLast_append_getLast hne] at hin hsorted
    rcases List.mem_append.1 hin with hin | hin
    · have hlt := (List.pairwise_append.1 hsorted).2.2 e' hin _ (List.mem_singleton_self _)
      exact String.not_lt.1 fun hgt => String.lt_irrefl _ (String.lt_trans hgt hlt)
    · obtain rfl := List.mem_singleton.1 hin
      exact String.le_refl _

/-! ### Both look-ups -/

lemma isStub_of_isLocal (hl : isLocal i = true) : isStub i = false := by
  rw [Bool.eq_false_iff]
  intro hs
  obtain ⟨r, hr⟩ := Option.isSome_iff_exists.1 hs
  rw [isLocal, Text.after?_eq_some_iff.1 hr] at hl
  cases hl

/-- A local specifier leads to the first of its candidates that is the key of a dependency. -/
lemma locate_of_local (hl : isLocal i = true) (hr : policy.isRuntime i = false) (dir : String) :
    locate (Scope.of policy dependencies stubs) dir i =
      ((candidates (normalize dir i)).find? (keysOf dependencies).contains).elim
        ⟨.stub, normalize dir i⟩ (⟨.local, ·⟩) := by
  have hcontains : (Scope.of policy dependencies stubs).dependencies.contains =
      (keysOf dependencies).contains := by
    funext k
    rw [Bool.eq_iff_iff, contains_dependencies, List.contains_iff_mem]
  have hruntime : ¬ (Scope.of policy dependencies stubs).policy.isRuntime i = true := by
    rw [Scope.of, hr]
    exact Bool.false_ne_true
  rw [locate, if_neg hruntime, isStub_of_isLocal hl, if_neg Bool.false_ne_true, if_pos hl, hcontains]
  dsimp only
  cases (candidates (normalize dir i)).find? (keysOf dependencies).contains <;> rfl

lemma isProvided_eq (keys : List String) (i : String) :
    isProvided keys i = ((candidates (normalize "" i)).find? keys.contains).isSome := by
  rw [isProvided, List.isSome_find?]

/-- **A local specifier is provided** exactly if it leads to a dependency. -/
lemma isProvided_iff_local (hl : isLocal i = true) (hr : policy.isRuntime i = false) :
    isProvided (keysOf dependencies) i = true ↔
      (locate (Scope.of policy dependencies stubs) "" i).origin = .local := by
  rw [isProvided_eq, locate_of_local hl hr]
  cases (candidates (normalize "" i)).find? (keysOf dependencies).contains <;> simp

/-- What leads to a dependency leads to the key of one. -/
lemma key_mem_of_local {k : String}
    (h : locate (Scope.of policy dependencies stubs) "" i = ⟨.local, k⟩) : k ∈ keysOf dependencies := by
  rw [← contains_dependencies policy dependencies stubs k]
  have hkey := locate_local (Scope.of policy dependencies stubs) "" i (by rw [h])
  rwa [h] at hkey

/-- The stand-ins of a prepared component for its imports are those of the specifiers that are not
provided. -/
lemma exists_stub_iff {source : String} (hl : isLocal i = true)
    (hi : ∃ p ∈ importsOf source.toList, p.specifier = i) :
    (∃ stub ∈ (prepare source dependencies).stubs, stub.specifier = i) ↔
      isProvided (keysOf dependencies) i = false := by
  have hstubs : (prepare source dependencies).stubs =
      ((missingImports (keysOf dependencies) source.toList).map standInFor ++
        tagStandIns source.toList).map (·.stub) := rfl
  rw [hstubs]
  constructor
  · rintro ⟨stub, hstub, rfl⟩
    obtain ⟨x, hx, rfl⟩ := List.mem_map.1 hstub
    rcases List.mem_append.1 hx with hx | hx
    · obtain ⟨p, hp, rfl⟩ := List.mem_map.1 hx
      have hmissing : isMissing (keysOf dependencies) p.specifier = true := (List.mem_filter.1 hp).2
      rw [isMissing, Bool.and_eq_true, Bool.not_eq_true'] at hmissing
      exact hmissing.2
    · -- the stand-in for a tag has no specifier
      obtain ⟨name, -, rfl⟩ := List.mem_map.1 hx
      cases hl
  · intro hnot
    obtain ⟨p, hp, rfl⟩ := hi
    have hmissing : p ∈ missingImports (keysOf dependencies) source.toList := by
      refine List.mem_filter.2 ⟨hp, ?_⟩
      rw [isMissing, hl, hnot]
      rfl
    exact ⟨(standInFor p).stub,
      List.mem_map_of_mem (List.mem_append_left _ (List.mem_map_of_mem hmissing)), rfl⟩

/-! ### In a graph -/

lemma targetOf_entry (s : Scope) (i : String) : targetOf s entryKey i = locate s "" i := by
  rw [targetOf, directoryOf, if_pos rfl]

section

variable {compile : LocalCompiler} {σ : Session} {s : Scope} {entry : Closed} {props : KeyMap Json}
  {g : Graph}

/-- Of the imports of the entry the first one with the key `k` is `k` itself, and leads to a stand-in. -/
def Shadowed (s : Scope) (entry : Closed) (k : String) : Prop :=
  k ≠ entryKey ∧ (entry.imports.find? fun j => (locate s "" j).key == k) = some k ∧
    (locate s "" k).origin = .stub

/-- The first import of the entry with the key of a dependency leads there, or has it as its name. -/
lemma eq_of_key {k j : String} {t : Target} (h : Leads s "" j t) (hk : t.key = k)
    (hc : s.dependencies.contains k = true) : t.origin = .local ∨ j = k := by
  cases h with
  | dependency => exact .inl rfl
  | runtime | prepared | allowed | denied => exact .inr hk
  | missing _ _ _ hnone =>
    -- the key itself is the first candidate
    obtain rfl := hk
    exact absurd hc (List.find?_eq_none.1 hnone _ List.mem_cons_self)

/-- **What the import of a dependency gets.** It is a stand-in if the dependency has no closed form, or if
the name of its key was imported first and leads to a stand-in. -/
lemma linked_stub_iff (hg : σ.answer (buildGraph compile s entry props) = .ok g)
    (hi : i ∈ entry.imports) {k : String} (hk : locate s "" i = ⟨.local, k⟩) :
    let vs := σ.answer (takeUp compile s (takenFrom compile σ s entry))
    ∃ n, Links g entryKey i k ∧ g.modules.get? k = some n ∧
      (n.origin = .stub ↔ failed vs k = true ∨ Shadowed s entry k) := by
  intro vs
  obtain ⟨hentry, hunvisited⟩ := entry_of_graph compile σ hg
  have hlink : (nodeOf s entryKey entry).links.get? i = some k := by
    rw [nodeOf, link_of_import _ _ hi, directoryOf, if_pos rfl, hk]
  rcases eq_or_ne k entryKey with rfl | hne
  · refine ⟨_, ⟨_, hentry, hlink⟩, hentry, ?_⟩
    rw [hunvisited]
    simp [Shadowed, nodeOf]
  · obtain ⟨j, hj⟩ : ∃ j, entry.imports.find? (fun j => (locate s "" j).key == k) = some j := by
      refine Option.isSome_iff_exists.1 (List.find?_isSome.2 ⟨i, hi, ?_⟩)
      rw [hk, beq_self_eq_true]
    obtain ⟨n, hn, horigin, hother⟩ := decided_by_first compile σ hg hne
      (j := j) (by simpa only [targetOf_entry] using hj)
    rw [targetOf_entry] at horigin hother
    have hkey : (locate s "" j).key = k := by simpa using List.find?_some hj
    have hc : s.dependencies.contains k = true := by
      have hlocal := locate_local s "" i (by rw [hk])
      rwa [hk] at hlocal
    refine ⟨n, ⟨_, hentry, hlink⟩, hn, ?_⟩
    rw [horigin, Shadowed, hj, originFor, hkey]
    by_cases ho : (locate s "" j).origin = .local
    · have hunshadowed : ¬ (j = k ∧ (locate s "" k).origin = .stub) := by
        rintro ⟨rfl, hstub⟩
        rw [ho] at hstub
        cases hstub
      cases hf : failed vs k <;> simp [ho, hunshadowed, hne]
    · have hsame : j = k := (eq_of_key (leads_locate s "" j) hkey hc).resolve_left ho
      subst hsame
      have hf : failed vs j = false := hother ho
      simp [ho, hf, hne]

end

/-- **What is provided.** A local specifier is provided exactly if it leads to a dependency: to the last
of those with its key. Preparing redirects the others, which match no dependency. In a graph, the import
of one that is provided gets a stand-in only if the dependency has no closed form, or if the entry imports
the name of the key first. -/
theorem provided_iff_located (dependencies stubs : KeyMap String) (hl : isLocal i = true)
    (hr : policy.isRuntime i = false) :
    let s := Scope.of policy dependencies stubs
    (isProvided (keysOf dependencies) i = true ↔ (locate s "" i).origin = .local) ∧
    (∀ k, locate s "" i = ⟨.local, k⟩ → ∃ e ∈ dependencies.entries, normalize "" e.1 = k ∧
      s.dependencies.get? k = some e.2 ∧
      ∀ e' ∈ dependencies.entries, normalize "" e'.1 = k → e'.1 ≤ e.1) ∧
    (isProvided (keysOf dependencies) i = false → ∀ e ∈ dependencies.entries,
      normalize "" e.1 ∉ candidates (normalize "" i)) ∧
    (∀ source : String, (∃ p ∈ importsOf source.toList, p.specifier = i) →
      ((∃ stub ∈ (prepare source dependencies).stubs, stub.specifier = i) ↔
        isProvided (keysOf dependencies) i = false)) ∧
    ∀ (compile : LocalCompiler) (σ : Session) (entry : Closed) (props : KeyMap Json) (g : Graph),
      σ.answer (buildGraph compile s entry props) = .ok g → i ∈ entry.imports →
      isProvided (keysOf dependencies) i = true →
      let vs := σ.answer (takeUp compile s (takenFrom compile σ s entry))
      let k := (locate s "" i).key
      ∃ n, Links g entryKey i k ∧ g.modules.get? k = some n ∧
        (n.origin = .stub ↔ failed vs k = true ∨ Shadowed s entry k) := by
  intro s
  have hiff : isProvided (keysOf dependencies) i = true ↔ (locate s "" i).origin = .local :=
    isProvided_iff_local hl hr
  refine ⟨hiff, fun k hk => exists_last_of_key (key_mem_of_local hk), ?_, fun source hi => ?_, ?_⟩
  · intro hnot e he hmem
    rw [isProvided, List.any_eq_false] at hnot
    refine hnot _ hmem (List.contains_iff_mem.2 ?_)
    exact List.mem_map_of_mem (List.mem_map_of_mem he)
  · exact exists_stub_iff hl hi
  · intro compile σ entry props g hg hi hprovided
    exact linked_stub_iff hg hi (by rw [← hiff.1 hprovided])

/-- One dependency, the file `./a.js`. -/
def loneFile : KeyMap String := .ofList [("./a.js", "export default 1;\n")]

/-- Compiles nothing. -/
def noCompiler : LocalCompiler := fun _ _ => return .error (.unavailable "")

/-- The graph of an entry that imports the given specifiers. -/
def loneFileGraph (specifiers : List String) : Except Fault Graph :=
  ({} : Session).answer (buildGraph noCompiler (.of .standard loneFile ∅) ⟨"", specifiers⟩ ∅)

/-- The origin of what `./a.js` gets. -/
def loneFileOrigin? (specifiers : List String) : Option Module.Origin :=
  (loneFileGraph specifiers).toOption.bind (linkedOrigin? · entryKey "./a.js")

/-- What was visited for it. -/
def loneFileVisits (specifiers : List String) : List Visit :=
  ({} : Session).answer (takeUp noCompiler (.of .standard loneFile ∅)
    (takenFrom noCompiler {} (.of .standard loneFile ∅) ⟨"", specifiers⟩))

lemma exists_loneFileGraph {is : List String} {o : Module.Origin} (h : loneFileOrigin? is = some o) :
    ∃ g k n, loneFileGraph is = .ok g ∧ Links g entryKey "./a.js" k ∧ g.modules.get? k = some n ∧
      n.origin = o := by
  obtain ⟨g, hg, ho⟩ := Option.bind_eq_some_iff.1 h
  obtain ⟨k, n, hl, hn, ho⟩ := exists_of_linkedOrigin? ho
  exact ⟨g, k, n, eq_ok_of_toOption hg, hl, hn, ho⟩

-- the only import of the entry is that of the file
theorem provided_iff_located_file :
    isLocal "./a.js" = true ∧ Policy.standard.isRuntime "./a.js" = false ∧
      isProvided (keysOf loneFile) "./a.js" = true ∧
      ∃ g n, loneFileGraph ["./a.js"] = .ok g ∧ Links g entryKey "./a.js" "a.js" ∧
        g.modules.get? "a.js" = some n ∧ n.origin ≠ .stub := by
  have hl : isLocal "./a.js" = true := by decide +kernel
  have hr : Policy.standard.isRuntime "./a.js" = false := by decide +kernel
  have ho : loneFileOrigin? ["./a.js"] = some .local := by decide +kernel
  have hkey : locate (.of .standard loneFile ∅) "" "./a.js" = ⟨.local, "a.js"⟩ := by decide +kernel
  have hvisits : failed (loneFileVisits ["./a.js"]) "a.js" = false := by decide +kernel
  obtain ⟨g, -, -, hg, -⟩ := exists_loneFileGraph ho
  obtain ⟨hiff, -, -, -, hgraph⟩ := provided_iff_located loneFile ∅ hl hr
  have hprovided : isProvided (keysOf loneFile) "./a.js" = true := hiff.2 (by rw [hkey])
  obtain ⟨n, hlink, hn, hstub⟩ := hgraph _ _ _ _ g hg (List.mem_singleton_self _) hprovided
  rw [hkey] at hlink hn hstub
  refine ⟨hl, hr, hprovided, g, n, hg, hlink, hn, mt hstub.1 ?_⟩
  rintro (hfailed | ⟨-, hfirst, -⟩)
  · exact absurd hfailed (by rw [← loneFileVisits, hvisits]; exact Bool.false_ne_true)
  · exact absurd hfirst (by decide +kernel)

/-- If a package has the name of the key and is imported first, then the import of the file gets the
stand-in for the package, though the file has a closed form. -/
theorem provided_import_gets_stand_in :
    ¬ ∀ (policy : Policy) (dependencies stubs : KeyMap String) (i : String) (compile : LocalCompiler)
      (σ : Session) (entry : Closed) (props : KeyMap Json) (g : Graph) (k : String) (n : Module.Node),
      isLocal i = true → policy.isRuntime i = false → isProvided (keysOf dependencies) i = true →
      σ.answer (buildGraph compile (.of policy dependencies stubs) entry props) = .ok g →
      Links g entryKey i k → g.modules.get? k = some n → n.origin = .stub →
        failed (σ.answer (takeUp compile (.of policy dependencies stubs)
          (takenFrom compile σ (.of policy dependencies stubs) entry))) k = true := by
  intro h
  have ho : loneFileOrigin? ["a.js", "./a.js"] = some .stub := by decide +kernel
  have hvisits : loneFileVisits ["a.js", "./a.js"] = [] := by decide +kernel
  obtain ⟨g, k, n, hg, hl, hn, ho⟩ := exists_loneFileGraph ho
  have hfailed := h _ _ _ _ _ _ _ _ g k n (by decide +kernel) (by decide +kernel) (by decide +kernel)
    hg hl hn ho
  rw [← loneFileVisits, hvisits] at hfailed
  cases hfailed

end Mender.Preview
