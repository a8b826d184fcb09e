import Mender.Module.Policy
import Mender.Proofs.Module.Specifier

/-!
What a policy says of a specifier and of the path it resolves to.

A package covers the specifiers that begin with its segments. A policy of plain packages looks at
the leading names of a specifier only, so an allowed specifier resolves to an allowed path when
the resolved path still begins with them. A specifier that climbs out of its leading names does
not, and there is a policy that allows it and denies the path.
-/

namespace Mender.Module

open Mender.Text

/-- **A package covers** the specifiers that begin with its segments. -/
theorem covers_iff {package specifier : String} :
    covers package specifier = true ↔
      segments package.toList <+: segments specifier.toList := by
  have hcovers : covers package specifier = true ↔
      specifier.toList = package.toList ∨ ∃ r, specifier.toList = package.toList ++ '/' :: r := by
    unfold covers
    split
    · next h => simp [after?_eq_some_iff.1 h]
    · next h => simp [after?_eq_some_iff.1 h]
    · next h =>
      refine iff_of_false (by simp) ?_
      have hno := fun r => mt after?_eq_some_iff.2 (h ▸ (nofun : none ≠ some r))
      rintro (hs | ⟨r, hs⟩)
      · exact hno [] (by simpa using hs)
      · exact hno _ hs
  rw [hcovers]
  constructor
  · rintro (h | ⟨r, h⟩)
    · rw [h]
    · rw [h, segments_append_slash]
      exact List.prefix_append _ _
  · rintro ⟨ss, h⟩
    have hs := intercalate_segments specifier.toList
    rw [← h] at hs
    cases ss with
    | nil =>
      rw [List.append_nil, intercalate_segments] at hs
      exact .inl hs.symm
    | cons s ss =>
      have hslash : ∀ w ∈ s :: ss, '/' ∉ w := fun w hw =>
        slash_notMem_of_mem_segments (h ▸ List.mem_append_right _ hw)
      refine .inr ⟨['/'].intercalate (s :: ss), ?_⟩
      rw [← intercalate_segments (package.toList ++ _), segments_append_slash,
        segments_intercalate (by simp) hslash, hs]

/-- A package all of whose segments are names. -/
def IsPlain (package : String) : Prop := ∀ s ∈ segments package.toList, isName s = true

/-- The specifier with its empty and dot segments resolved. -/
def resolvedPath (specifier : String) : String := String.ofList (collapse specifier.toList)

/-- The resolved path still begins with the names that the specifier begins with. -/
def KeepsNames (specifier : String) : Prop :=
  leadingNames specifier.toList <+: resolved specifier.toList

instance : DecidablePred KeepsNames := fun specifier =>
  inferInstanceAs (Decidable (leadingNames specifier.toList <+: resolved specifier.toList))

lemma keepsNames_of_no_climb {specifier : String}
    (h : ['.', '.'] ∉ segments specifier.toList) : KeepsNames specifier :=
  leadingNames_prefix_of_no_climb h

/-- Some names in front of a path are among its leading names. -/
lemma prefix_leadingNames_iff {names : List (List Char)} {path : List Char}
    (h : ∀ s ∈ names, isName s = true) :
    names <+: leadingNames path ↔ names <+: segments path := by
  refine ⟨fun hp => hp.trans (List.takeWhile_prefix _), ?_⟩
  rintro ⟨r, hr⟩
  rw [leadingNames, ← hr, List.takeWhile_append_of_pos h]
  exact List.prefix_append _ _

section Covers

variable {package specifier : String} (hp : IsPlain package)

include hp

lemma IsPlain.covers_iff_leadingNames :
    covers package specifier = true ↔
      segments package.toList <+: leadingNames specifier.toList :=
  covers_iff.trans (prefix_leadingNames_iff hp).symm

lemma IsPlain.covers_resolvedPath_iff :
    covers package (resolvedPath specifier) = true ↔
      segments package.toList <+: resolved specifier.toList := by
  rw [covers_iff, resolvedPath, String.toList_ofList, prefix_segments_collapse_iff hp]

lemma IsPlain.covers_resolvedPath (hk : KeepsNames specifier)
    (h : covers package specifier = true) : covers package (resolvedPath specifier) = true :=
  hp.covers_resolvedPath_iff.2 ((hp.covers_iff_leadingNames.1 h).trans hk)

/-- A package of no more segments than the specifier has leading names covers both or neither. -/
lemma IsPlain.covers_of_resolvedPath (hk : KeepsNames specifier)
    (hlen : (segments package.toList).length ≤ (leadingNames specifier.toList).length)
    (h : covers package (resolvedPath specifier) = true) : covers package specifier = true :=
  hp.covers_iff_leadingNames.2
    (List.prefix_of_prefix_length_le (hp.covers_resolvedPath_iff.1 h) hk hlen)

end Covers

namespace Policy

/-- All packages of the policy are plain. -/
structure Plain (p : Policy) : Prop where
  runtime : ∀ q ∈ p.runtime, IsPlain q
  rules : ∀ r ∈ p.rules, IsPlain r.package

/-- No package that is denied has more segments than the specifier has leading names. -/
def DeniesWithin (p : Policy) (specifier : String) : Prop :=
  ∀ r ∈ p.rules, r.verdict ≠ .allowed →
    (segments r.package.toList).length ≤ (leadingNames specifier.toList).length

/-- The policy lets the package in. -/
def Admits (p : Policy) (package : String) : Prop := package ∈ p.runtime ∨ .allow package ∈ p.rules

variable {p : Policy} {specifier : String}

lemma evaluate_eq_allowed_iff :
    p.evaluate specifier = .allowed ↔ p.isRuntime specifier = true ∨
      ∃ r, p.rules.find? (·.isAbout specifier) = some r ∧ r.verdict = .allowed := by
  unfold evaluate
  split
  · next h => simp [h]
  · next h =>
    split
    · next r hr => simp [h, hr]
    · next hr => simp [h, hr]

/-- An allowed specifier is one of a package that is let in. -/
lemma exists_admits_of_allowed (h : p.evaluate specifier = .allowed) :
    ∃ q, p.Admits q ∧ covers q specifier = true := by
  rcases evaluate_eq_allowed_iff.1 h with h | ⟨r, hr, hv⟩
  · obtain ⟨q, hq, hc⟩ := List.any_eq_true.1 h
    exact ⟨q, .inl hq, hc⟩
  · cases r with
    | allow q => exact ⟨q, .inr (List.mem_of_find?_eq_some hr), (List.find?_some hr :)⟩
    | deny q reason => cases hv

lemma Plain.of_admits (hp : p.Plain) {q : String} (h : p.Admits q) : IsPlain q :=
  h.elim (hp.runtime q) (hp.rules (.allow q))

/-- The rule that decides on the resolved path allows it, if the one for the specifier does. -/
lemma find?_resolvedPath {rules : List Rule} (hp : ∀ r ∈ rules, IsPlain r.package)
    (hk : KeepsNames specifier)
    (hd : ∀ r ∈ rules, r.verdict ≠ .allowed →
      (segments r.package.toList).length ≤ (leadingNames specifier.toList).length)
    (h : ∃ r, rules.find? (·.isAbout specifier) = some r ∧ r.verdict = .allowed) :
    ∃ r, rules.find? (·.isAbout (resolvedPath specifier)) = some r ∧ r.verdict = .allowed := by
  induction rules with
  | nil => simp at h
  | cons r rules ih =>
    have hr := hp r List.mem_cons_self
    by_cases hpath : r.isAbout (resolvedPath specifier) = true
    · refine ⟨r, by rw [List.find?_cons, hpath], ?_⟩
      by_contra hv
      -- a rule that denies the path would have denied the specifier
      have habout : r.isAbout specifier = true :=
        hr.covers_of_resolvedPath hk (hd r List.mem_cons_self hv) hpath
      obtain ⟨r', hr', hv'⟩ := h
      rw [List.find?_cons, habout] at hr'
      cases hr'
      exact hv hv'
    · have habout : ¬ r.isAbout specifier = true := mt (hr.covers_resolvedPath hk) hpath
      simp only [List.find?_cons, habout, hpath] at h ⊢
      exact ih (fun r hr => hp r (List.mem_cons_of_mem _ hr))
        (fun r hr => hd r (List.mem_cons_of_mem _ hr)) h

theorem evaluate_resolvedPath (hp : p.Plain) (hk : KeepsNames specifier)
    (hd : p.DeniesWithin specifier) (h : p.evaluate specifier = .allowed) :
    p.evaluate (resolvedPath specifier) = .allowed := by
  rw [evaluate_eq_allowed_iff] at h ⊢
  refine h.imp (fun h => ?_) (find?_resolvedPath hp.rules hk hd)
  obtain ⟨q, hq, hc⟩ := List.any_eq_true.1 h
  exact List.any_eq_true.2 ⟨q, hq, (hp.runtime q hq).covers_resolvedPath hk hc⟩

/-- The policy that lets in a single package. -/
def single (package : String) : Policy := ⟨[package], []⟩

lemma evaluate_single {package : String} :
    (single package).evaluate specifier = .allowed ↔ covers package specifier = true := by
  simp [evaluate_eq_allowed_iff, single, isRuntime]

/-- A specifier that does not keep its leading names is allowed by a policy that denies the path
it resolves to. -/
theorem exists_policy_of_not_keepsNames (h : ¬ KeepsNames specifier) :
    ∃ p : Policy, p.Plain ∧ p.DeniesWithin specifier ∧ p.evaluate specifier = .allowed ∧
      p.evaluate (resolvedPath specifier) ≠ .allowed := by
  set names := leadingNames specifier.toList with hnames
  have hne : names ≠ [] := fun h' => h (by rw [KeepsNames, ← hnames, h']; exact List.nil_prefix)
  have hname : ∀ s ∈ names, isName s = true := List.all_eq_true.1 List.all_takeWhile
  let package := String.ofList (['/'].intercalate names)
  have hsegments : segments package.toList = names := by
    rw [String.toList_ofList]
    refine segments_intercalate hne fun s hs => ?_
    exact slash_notMem_of_mem_segments ((List.takeWhile_prefix _).subset hs)
  have hplain : IsPlain package := by rwa [IsPlain, hsegments]
  refine ⟨single package, ⟨by simpa [single] using hplain, nofun⟩, nofun, ?_, ?_⟩
  · rw [evaluate_single, hplain.covers_iff_leadingNames, hsegments]
  · rw [ne_eq, evaluate_single, hplain.covers_resolvedPath_iff, hsegments]
    exact h

end Policy

end Mender.Module
