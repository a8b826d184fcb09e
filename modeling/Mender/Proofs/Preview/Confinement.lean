import Mender.Proofs.Module.Policy
import Mender.Proofs.Preview.Graph

/-!
Where the host modules of a graph lie.

The policy decides on the text of a specifier, the runner loads the path that it resolves to. The
two agree for the specifiers that keep their leading names, and for no others.
-/

namespace Mender.Preview

open Mender.Module

lemma evaluate_of_host {compile : LocalCompiler} {σ : Session} {s : Scope} {entry : Closed}
    {props : KeyMap Json} {g : Graph} (hg : σ.answer (buildGraph compile s entry props) = .ok g)
    {k : String} {n : Module.Node} (hn : g.modules.get? k = some n) (ho : n.origin.isHost = true) :
    s.policy.evaluate k = .allowed := by
  have h := buildGraph_holds compile σ s entry props
  rw [hg] at h
  obtain ⟨w, hw, -, rfl⟩ := h
  exact ((hw.sound.placed k n hn).of_host ho).2

/-- The graph of an entry that requires one specifier, under the standard policy. -/
def requiring (specifier : String) : Except Fault Graph :=
  ({} : Session).answer (buildGraph (fun _ _ => return .error (.unavailable ""))
    ⟨.standard, ∅, ∅⟩ ⟨"", [specifier]⟩ ∅)

/-- What becomes of a specifier that the entry requires. -/
def requiredOrigin? (specifier : String) : Option Module.Origin :=
  ((requiring specifier).toOption.bind fun g => g.modules.get? specifier).map (·.origin)

lemma requiredOrigin?_eq_some {i : String} {o : Module.Origin} (h : requiredOrigin? i = some o) :
    ∃ g n, requiring i = .ok g ∧ g.modules.get? i = some n ∧ n.origin = o := by
  unfold requiredOrigin? at h
  cases hg : requiring i with
  | error e => simp [hg, Except.toOption] at h
  | ok g =>
    rw [hg] at h
    obtain ⟨n, hn, ho⟩ := Option.map_eq_some_iff.1 h
    exact ⟨g, n, rfl, hn, ho⟩

lemma plain_standard : Policy.standard.Plain := by
  refine ⟨fun q hq => ?_, fun r hr => nomatch hr⟩
  rw [List.mem_singleton.1 hq]
  exact (by decide : ∀ s ∈ segments "svelte".toList, isName s = true)

/-- **A resolved path stays allowed** just when the specifier keeps its leading names, as it does
without a `..`, and a host module with such a key lies in a package that the policy lets in. -/
theorem resolved_paths_confined (i : String) :
    (KeepsNames i ↔ ∀ p : Policy, p.Plain → p.DeniesWithin i →
      p.evaluate i = .allowed → p.evaluate (resolvedPath i) = .allowed) ∧
    (['.', '.'] ∉ segments i.toList → KeepsNames i) ∧
    ∀ (compile : LocalCompiler) (σ : Session) (s : Scope) (entry : Closed) (props : KeyMap Json)
      (g : Graph) (n : Module.Node), s.policy.Plain →
      σ.answer (buildGraph compile s entry props) = .ok g → g.modules.get? i = some n →
      n.origin.isHost = true → KeepsNames i →
        ∃ q, s.policy.Admits q ∧ covers q (resolvedPath i) = true := by
  refine ⟨⟨fun hk p hp hd h => ?_, fun h => ?_⟩, keepsNames_of_no_climb, ?_⟩
  · exact Policy.evaluate_resolvedPath hp hk hd h
  · by_contra hk
    obtain ⟨p, hp, hd, hallowed, hdenied⟩ := Policy.exists_policy_of_not_keepsNames hk
    exact hdenied (h p hp hd hallowed)
  · intro compile σ s entry props g n hp hg hn ho hk
    obtain ⟨q, hq, hc⟩ := Policy.exists_admits_of_allowed (evaluate_of_host hg hn ho)
    exact ⟨q, hq, (hp.of_admits hq).covers_resolvedPath hk hc⟩

-- dot segments below the package, with a climb that ends inside it
theorem inner_climb_confined :
    KeepsNames "svelte/./internal/../store" ∧
      Policy.standard.evaluate (resolvedPath "svelte/./internal/../store") = .allowed ∧
      ∃ q, Policy.standard.Admits q ∧
        covers q (resolvedPath "svelte/./internal/../store") = true := by
  have hk : KeepsNames "svelte/./internal/../store" := by decide
  obtain ⟨keeps, -, hosts⟩ := resolved_paths_confined "svelte/./internal/../store"
  have horigin : requiredOrigin? "svelte/./internal/../store" = some .runtime := by decide +kernel
  obtain ⟨g, n, hg, hn, ho⟩ := requiredOrigin?_eq_some horigin
  have hhost : n.origin.isHost = true := by
    rw [ho]
    rfl
  exact ⟨hk,
    keeps.1 hk .standard plain_standard (fun r hr => nomatch hr) (by decide +kernel),
    hosts _ _ _ _ _ g n plain_standard hg hn hhost hk⟩

/-- A specifier that climbs out of an allowed package is allowed, though the path it resolves to
is not, and the module is handed on as one of the host. -/
theorem climbing_path_allowed :
    (¬ ∀ (p : Policy) (i : String),
      (∀ q, q ∈ p.runtime ∨ q ∈ p.rules.map Rule.package →
        ['.'] ∉ segments q.toList ∧ ['.', '.'] ∉ segments q.toList) →
      isLocal i = false → p.evaluate i = .allowed → p.evaluate (resolvedPath i) = .allowed) ∧
    requiredOrigin? "svelte/../fs" = some .runtime ∧
    ∀ q, Policy.standard.Admits q → covers q (resolvedPath "svelte/../fs") = false := by
  refine ⟨fun h => ?_, by decide +kernel, ?_⟩
  · have hclean : ∀ q, q ∈ Policy.standard.runtime ∨ q ∈ Policy.standard.rules.map Rule.package →
        ['.'] ∉ segments q.toList ∧ ['.', '.'] ∉ segments q.toList := by
      rintro q (hq | hq)
      · rw [List.mem_singleton.1 hq]
        decide
      · cases hq
    have hdenied : Policy.standard.evaluate (resolvedPath "svelte/../fs") ≠ .allowed := by
      decide +kernel
    exact hdenied (h .standard "svelte/../fs" hclean (by decide) (by decide +kernel))
  · rintro q (hq | hq)
    · rw [List.mem_singleton.1 hq]
      decide +kernel
    · cases hq

end Mender.Preview
