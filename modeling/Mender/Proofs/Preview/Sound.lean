import Mathlib.Logic.Relation
import Mathlib.Tactic.Common
import Mathlib.Tactic.Lemma
import Mender.Proofs.Preview.Steps

/-!
What is true of a walk at every moment.

A key was met if and only if it has its module or is pending; so a link, which leads to a key
that was met, leads to a module once nothing is pending. A module that is being followed counts
as the first of the pending ones, because its own links are placed last.
-/

namespace Mender.Preview

open Mender.Module

/-! ### The parts of a graph -/

/-- The closed form that a module of some key is made from, the entry's being given. -/
inductive IsForm (entry : Closed) (vs : List Visit) : String → Closed → Prop
  | entry : IsForm entry vs entryKey entry
  | dependency {k text : String} {c : Closed} (h : ⟨k, some text⟩ ∈ vs) (apart : k ≠ entryKey)
    (hc : close text = .ok c) : IsForm entry vs k c

/-- How a module may come to stand under a key. -/
inductive Placed (s : Scope) (entry : Closed) (vs : List Visit) : String → Node → Prop
  | host {k : String} {o : Module.Origin} (apart : k ≠ entryKey) (ho : o.isHost = true)
    (ha : s.policy.evaluate k = .allowed) : Placed s entry vs k (.host o)
  | standIn {k : String} (apart : k ≠ entryKey) : Placed s entry vs k (standIn s k)
  | closed {k : String} {c : Closed} (h : IsForm entry vs k c) :
    Placed s entry vs k (nodeOf s k c)

/-- The links that a walk has placed, and those that it is going to place. -/
inductive Walk.Edge (s : Scope) (w : Walk) (a b : String) : Prop
  | placed {n : Node} {i : String} (hn : w.modules.get? a = some n)
    (hi : n.links.get? i = some b)
  | ahead {c : Closed} {i : String} (hc : (a, c) ∈ w.pending) (hi : i ∈ c.imports)
    (hb : (locate s (directoryOf a) i).key = b)

variable {s : Scope} {entry : Closed} {vs vs' : List Visit} {w : Walk}

lemma IsForm.mono {k : String} {c : Closed} (h : IsForm entry vs k c) (hv : vs ⊆ vs') :
    IsForm entry vs' k c := by
  cases h with
  | entry => exact .entry
  | dependency h apart hc => exact .dependency (hv h) apart hc

lemma Placed.mono {k : String} {n : Node} (h : Placed s entry vs k n) (hv : vs ⊆ vs') :
    Placed s entry vs' k n := by
  cases h with
  | host apart ho ha => exact .host apart ho ha
  | standIn apart => exact .standIn apart
  | closed h => exact .closed (h.mono hv)

lemma Placed.of_host {k : String} {n : Node} (h : Placed s entry vs k n)
    (ho : n.origin.isHost = true) : n = .host n.origin ∧ s.policy.evaluate k = .allowed := by
  cases h with
  | host _ _ ha => exact ⟨rfl, ha⟩
  | standIn | closed => cases ho

lemma Placed.of_local {k : String} {n : Node} (h : Placed s entry vs k n)
    (ho : n.origin = .local) : ∃ c, IsForm entry vs k c ∧ n = nodeOf s k c := by
  cases h with
  | host _ hhost =>
    simp only [Node.host] at ho
    rw [ho] at hhost
    cases hhost
  | standIn => cases ho
  | closed h => exact ⟨_, h, rfl⟩

lemma Placed.of_stub {k : String} {n : Node} (h : Placed s entry vs k n)
    (ho : n.origin = .stub) : n = Preview.standIn s k := by
  cases h with
  | host _ hhost =>
    simp only [Node.host] at ho
    rw [ho] at hhost
    cases hhost
  | standIn => rfl
  | closed => cases ho

lemma get?_linksOf (s : Scope) (dir : String) (c : Closed) (i : String) :
    (linksOf s dir c).get? i = if i ∈ c.imports then some (locate s dir i).key else none :=
  KeyMap.get?_ofList_map _ _ _

lemma link_of_import (s : Scope) (dir : String) {c : Closed} {i : String} (h : i ∈ c.imports) :
    (linksOf s dir c).get? i = some (locate s dir i).key := by
  rw [get?_linksOf, if_pos h]

/-! ### The invariant -/

/-- The shape of a walk. -/
structure Sound (s : Scope) (entry : Closed) (vs : List Visit) (w : Walk) : Prop where
  rooted : entryKey ∈ w.seen
  met : ∀ k, k ∈ w.seen ↔ w.modules.contains k = true ∨ k ∈ w.pending.map (·.1)
  /-- No key is pending twice, or pending when it has its module. -/
  queued : (w.pending.map (·.1)).Nodup
  awaited : ∀ m ∈ w.pending, w.modules.get? m.1 = none
  forms : ∀ m ∈ w.pending, IsForm entry vs m.1 m.2
  placed : ∀ k n, w.modules.get? k = some n → Placed s entry vs k n
  linked : ∀ k n i b, w.modules.get? k = some n → n.links.get? i = some b → b ∈ w.seen
  reached : ∀ k ∈ w.seen, Relation.ReflTransGen (w.Edge s) entryKey k

namespace Sound

lemma start (s : Scope) (entry : Closed) : Sound s entry [] (.start entry) where
  rooted := List.mem_singleton_self _
  met k := by simp [Walk.start, KeyMap.contains]
  queued := by simp [Walk.start]
  awaited _ _ := rfl
  forms m hm := by
    rw [List.mem_singleton.1 hm]
    exact .entry
  placed k n h := by cases h
  linked k n i b h := by cases h
  reached k hk := by
    rw [List.mem_singleton.1 hk]

lemma mono (h : Sound s entry vs w) (hv : vs ⊆ vs') : Sound s entry vs' w :=
  { h with
    forms := fun m hm => (h.forms m hm).mono hv
    placed := fun k n hn => (h.placed k n hn).mono hv }

/-- A key that was not met has no module. -/
lemma get?_of_new (h : Sound s entry vs w) {k : String} (new : k ∉ w.seen) :
    w.modules.get? k = none := by
  by_contra hk
  exact new ((h.met k).2 (.inl (Option.isSome_iff_ne_none.2 hk)))

lemma apart (h : Sound s entry vs w) {k : String} (new : k ∉ w.seen) : k ≠ entryKey := by
  rintro rfl
  exact new h.rooted

lemma seen_of_pending (h : Sound s entry vs w) {m : String × Closed} (hm : m ∈ w.pending) :
    m.1 ∈ w.seen :=
  (h.met m.1).2 (.inr (List.mem_map_of_mem hm))

/-- What is reached stays so, when edges are kept and `k` is reached from a key that was met. -/
lemma reached_cons (h : Sound s entry vs w) {w' : Walk} {a k : String}
    (hmono : ∀ a b, w.Edge s a b → w'.Edge s a b) (ha : a ∈ w.seen) (hk : w.Edge s a k) :
    ∀ b ∈ k :: w.seen, Relation.ReflTransGen (w'.Edge s) entryKey b := by
  have hold : ∀ b ∈ w.seen, Relation.ReflTransGen (w'.Edge s) entryKey b :=
    fun b hb => Relation.ReflTransGen.mono hmono _ _ (h.reached b hb)
  intro b hb
  rcases List.mem_cons.1 hb with rfl | hb
  · exact (hold a ha).tail (hmono a _ hk)
  · exact hold b hb

/-- A module without links is placed. -/
lemma add (h : Sound s entry vs w) {a k : String} {n : Node} (new : k ∉ w.seen)
    (ha : a ∈ w.seen) (hk : w.Edge s a k) (hp : Placed s entry vs k n) (hl : n.links = ∅) :
    Sound s entry vs (w.add k n) where
  rooted := List.mem_cons_of_mem _ h.rooted
  met b := by
    simp only [Walk.add, List.mem_cons, KeyMap.contains_insert, h.met b, or_assoc]
  queued := h.queued
  awaited m hm := by
    have hne : m.1 ≠ k := by
      rintro rfl
      exact new (h.seen_of_pending hm)
    rw [Walk.add, KeyMap.get?_insert_of_ne _ _ hne]
    exact h.awaited m hm
  forms := h.forms
  placed b n' hn := by
    rw [Walk.add, KeyMap.get?_insert] at hn
    split at hn
    · next hb =>
      subst hb
      exact Option.some.inj hn ▸ hp
    · exact h.placed b n' hn
  linked b n' i b' hn hi := by
    rw [Walk.add, KeyMap.get?_insert] at hn
    split at hn
    · rw [← Option.some.inj hn, hl] at hi
      cases hi
    · exact List.mem_cons_of_mem _ (h.linked b n' i b' hn hi)
  reached := by
    refine h.reached_cons (fun b b' he => ?_) ha hk
    cases he with
    | placed hn hi =>
      have hne : b ≠ k := by
        rintro rfl
        rw [h.get?_of_new new] at hn
        cases hn
      exact .placed ((KeyMap.get?_insert_of_ne _ _ hne).trans hn) hi
    | ahead hc hi hb => exact .ahead hc hi hb

/-- A module is to be followed. -/
lemma enqueue (h : Sound s entry vs w) {a k : String} {c : Closed} (new : k ∉ w.seen)
    (ha : a ∈ w.seen) (hk : w.Edge s a k) (hf : IsForm entry vs k c) :
    Sound s entry vs (w.enqueue k c) where
  rooted := List.mem_cons_of_mem _ h.rooted
  met b := by
    simp only [Walk.enqueue, List.mem_cons, h.met b, List.map_append, List.map_cons,
      List.map_nil, List.mem_append, List.not_mem_nil, or_false]
    tauto
  queued := by
    have hk' : k ∉ w.pending.map (·.1) := fun hp => new ((h.met k).2 (.inr hp))
    rw [Walk.enqueue, List.map_append, List.nodup_append]
    refine ⟨h.queued, by simp, fun a ha b hb hab => hk' ?_⟩
    rw [List.map_cons, List.map_nil, List.mem_singleton] at hb
    rwa [hab, hb] at ha
  awaited m hm := by
    rcases List.mem_append.1 hm with hm | hm
    · exact h.awaited m hm
    · rw [List.mem_singleton.1 hm]
      exact h.get?_of_new new
  forms m hm := by
    rcases List.mem_append.1 hm with hm | hm
    · exact h.forms m hm
    · rw [List.mem_singleton.1 hm]
      exact hf
  placed := h.placed
  linked b n i b' hn hi := List.mem_cons_of_mem _ (h.linked b n i b' hn hi)
  reached := by
    refine h.reached_cons (fun b b' he => ?_) ha hk
    cases he with
    | placed hn hi => exact .placed hn hi
    | ahead hc hi hb => exact .ahead (List.mem_append_left _ hc) hi hb

end Sound

/-- A walk that is following the imports of `m`. -/
def Walk.holding (w : Walk) (m : String × Closed) : Walk := { w with pending := m :: w.pending }

/-- The module that was being followed is placed. -/
lemma Sound.finish {m : String × Closed} (h : Sound s entry vs (w.holding m))
    (hm : ∀ i ∈ m.2.imports, (locate s (directoryOf m.1) i).key ∈ w.seen) :
    Sound s entry vs (w.finish m.1 (nodeOf s m.1 m.2)) := by
  have hnodup : m.1 ∉ w.pending.map (·.1) ∧ (w.pending.map (·.1)).Nodup :=
    List.nodup_cons.1 h.queued
  have hnone : w.modules.get? m.1 = none := h.awaited m List.mem_cons_self
  refine
    { rooted := h.rooted
      met := fun b => ?_
      queued := hnodup.2
      awaited := fun m' hm' => ?_
      forms := fun m' hm' => h.forms m' (List.mem_cons_of_mem _ hm')
      placed := fun b n hn => ?_
      linked := fun b n i b' hn hi => ?_
      reached := fun b hb => Relation.ReflTransGen.mono (fun b b' he => ?_) _ _ (h.reached b hb) }
  · have hb : b ∈ w.seen ↔ w.modules.contains b = true ∨ b ∈ m.1 :: w.pending.map (·.1) :=
      h.met b
    simp only [Walk.finish, KeyMap.contains_insert, hb, List.mem_cons]
    tauto
  · have hne : m'.1 ≠ m.1 := fun he => hnodup.1 (he ▸ List.mem_map_of_mem hm')
    rw [Walk.finish, KeyMap.get?_insert_of_ne _ _ hne]
    exact h.awaited m' (List.mem_cons_of_mem _ hm')
  · rw [Walk.finish, KeyMap.get?_insert] at hn
    split at hn
    · next hb =>
      subst hb
      exact Option.some.inj hn ▸ .closed (h.forms m List.mem_cons_self)
    · exact h.placed b n hn
  · rw [Walk.finish, KeyMap.get?_insert] at hn
    split at hn
    · rw [← Option.some.inj hn, nodeOf, get?_linksOf] at hi
      split at hi
      · next himp => exact Option.some.inj hi ▸ hm i himp
      · cases hi
    · exact h.linked b n i b' hn hi
  · cases he with
    | placed hn hi =>
      have hne : b ≠ m.1 := by
        rintro rfl
        rw [show (w.holding m).modules = w.modules from rfl, hnone] at hn
        cases hn
      exact .placed ((KeyMap.get?_insert_of_ne _ _ hne).trans hn) hi
    | ahead hc hi hlink =>
      -- an edge ahead of the finished module has become a link
      rcases List.mem_cons.1 hc with rfl | hc
      · exact .placed (KeyMap.get?_insert_self _ _ _) (hlink ▸ link_of_import _ _ hi)
      · exact .ahead hc hi hlink

/-! ### Visits -/

/-- Dependencies, each visited once. -/
structure OnceEach (s : Scope) (vs : List Visit) : Prop where
  distinct : (vs.map Visit.key).Nodup
  known : ∀ v ∈ vs, s.dependencies.contains v.key = true

lemma OnceEach.snoc (h : OnceEach s vs) {v : Visit} (new : v.key ∉ vs.map Visit.key)
    (hv : s.dependencies.contains v.key = true) : OnceEach s (vs ++ [v]) where
  distinct := by
    rw [List.map_append, List.nodup_append]
    refine ⟨h.distinct, by simp, fun a ha b hb hab => new ?_⟩
    rw [List.map_cons, List.map_nil, List.mem_singleton] at hb
    rwa [hab, hb] at ha
  known u hu := by
    rcases List.mem_append.1 hu with hu | hu
    · exact h.known u hu
    · rw [List.mem_singleton.1 hu]
      exact hv

/-- What is true of a walk that has made some visits and goes on. -/
structure Invariant (s : Scope) (entry : Closed) (vs : List Visit) (w : Walk) : Prop
    extends OnceEach s vs where
  sound : Sound s entry vs w
  noted : ∀ v ∈ vs, v.key ∈ w.seen
  safe : ∀ v ∈ vs, v.hazards = []

/-- What is true of the visits of a walk that stopped. -/
structure Stopped (s : Scope) (vs : List Visit) (e : Fault) : Prop extends OnceEach s vs where
  hazard : ∃ v ∈ vs, ∃ z zs, v.hazards = z :: zs ∧ e = .hazard z.kind.name z.line

def Holds (s : Scope) (entry : Closed) (vs : List Visit) : Except Fault Walk → Prop
  | .ok w => Invariant s entry vs w
  | .error e => Stopped s vs e

namespace Invariant

lemma start (s : Scope) (entry : Closed) : Invariant s entry [] (.start entry) where
  distinct := List.nodup_nil
  known _ h := absurd h List.not_mem_nil
  sound := .start s entry
  noted _ h := absurd h List.not_mem_nil
  safe _ h := absurd h List.not_mem_nil

lemma unvisited (h : Invariant s entry vs w) {k : String} (new : k ∉ w.seen) :
    k ∉ vs.map Visit.key := by
  intro hk
  obtain ⟨v, hv, rfl⟩ := List.mem_map.1 hk
  exact new (h.noted v hv)

/-- A visit without a hazard, after which the walk is `w'`. -/
lemma visit (h : Invariant s entry vs w) {v : Visit} {w' : Walk} (new : v.key ∉ w.seen)
    (hv : s.dependencies.contains v.key = true) (safe : v.hazards = [])
    (hw : w'.seen = v.key :: w.seen) (hs : Sound s entry (vs ++ [v]) w') :
    Invariant s entry (vs ++ [v]) w' where
  toOnceEach := h.toOnceEach.snoc (h.unvisited new) hv
  sound := hs
  noted u hu := by
    rw [hw]
    rcases List.mem_append.1 hu with hu | hu
    · exact List.mem_cons_of_mem _ (h.noted u hu)
    · rw [List.mem_singleton.1 hu]
      exact List.mem_cons_self
  safe u hu := by
    rcases List.mem_append.1 hu with hu | hu
    · exact h.safe u hu
    · rw [List.mem_singleton.1 hu]
      exact safe

/-- **One step.** Following an import of a pending module keeps the invariant, or stops at a
hazard of its visit. -/
theorem step (h : Invariant s entry vs w) {m : String × Closed} {i : String}
    (hm : m ∈ w.pending) (hi : i ∈ m.2.imports) {r : Except Fault Walk}
    (hs : Step s (locate s (directoryOf m.1) i) w vs' r) : Holds s entry (vs ++ vs') r := by
  -- the edge is there before its end is met, because the module is still pending
  have ha : m.1 ∈ w.seen := h.sound.seen_of_pending hm
  have hk : w.Edge s m.1 (locate s (directoryOf m.1) i).key := .ahead hm hi rfl
  have hhost := locate_host s (directoryOf m.1) i
  have hlocal := locate_local s (directoryOf m.1) i
  generalize locate s (directoryOf m.1) i = t at hs hk hhost hlocal
  cases hs with
  | met =>
    rw [List.append_nil]
    exact h
  | host new ho =>
    rw [List.append_nil]
    exact
      { h with
        sound := h.sound.add new ha hk (.host (h.sound.apart new) ho (hhost ho)) rfl
        noted := fun v hv => List.mem_cons_of_mem _ (h.noted v hv) }
  | standIn new _ =>
    rw [List.append_nil]
    exact
      { h with
        sound := h.sound.add new ha hk (.standIn (h.sound.apart new)) rfl
        noted := fun v hv => List.mem_cons_of_mem _ (h.noted v hv) }
  | @closed text c new ho safe hc =>
    refine h.visit new (hlocal ho) (by simpa using safe) rfl ?_
    have hf : IsForm entry (vs ++ [⟨t.key, some text⟩]) t.key c :=
      .dependency (by simp) (h.sound.apart new) hc
    exact (h.sound.mono (List.subset_append_left _ _)).enqueue new ha hk hf
  | failed new ho hv safe =>
    refine h.visit (hv ▸ new) (hv ▸ hlocal ho) safe (by rw [hv]; rfl) ?_
    exact (h.sound.mono (List.subset_append_left _ _)).add new ha hk
      (.standIn (h.sound.apart new)) rfl
  | @refused v z zs new ho hv hz =>
    exact
      { toOnceEach := h.toOnceEach.snoc (h.unvisited (hv ▸ new)) (hv ▸ hlocal ho)
        hazard := ⟨v, by simp, z, zs, hz, rfl⟩ }

end Invariant

end Mender.Preview
