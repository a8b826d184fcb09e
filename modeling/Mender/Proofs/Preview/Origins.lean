import Mender.Proofs.Preview.Graph

/-!
Which import a module of a graph stands for.

All targets share the keys of the graph, and the first import that leads to a key decides what stands
there. So a link leads to what its specifier means just when all imports with its key mean the same.
-/

namespace Mender.Preview

open Mender.Module

/-- Where the module of a key is led by a specifier. -/
def targetOf (s : Scope) (a i : String) : Target := locate s (directoryOf a) i

/-- A dependency that was visited without a closed form. -/
def failed (vs : List Visit) (k : String) : Bool :=
  vs.any fun v => v.key == k && v.closed?.isNone

/-- The origin of the module that a target calls for: that of the target, but a dependency without a
closed form has a stand-in. -/
def originFor (vs : List Visit) (t : Target) : Module.Origin :=
  if t.origin = .local ∧ failed vs t.key = true then .stub else t.origin

variable {s : Scope} {entry : Closed} {vs vs' : List Visit} {w w' : Walk}

lemma failed_append (vs vs' : List Visit) (k : String) :
    failed (vs ++ vs') k = (failed vs k || failed vs' k) := List.any_append

lemma failed_of_notMem {k : String} (h : k ∉ vs.map Visit.key) : failed vs k = false := by
  simp only [failed, List.any_eq_false, Bool.and_eq_true, beq_iff_eq, not_and]
  intro v hv hk
  exact absurd (hk ▸ List.mem_map_of_mem hv) h

/-- Visits of other dependencies change nothing. -/
lemma originFor_append {t : Target} (h : t.key ∉ vs'.map Visit.key) :
    originFor (vs ++ vs') t = originFor vs t := by
  rw [originFor, originFor, failed_append, failed_of_notMem h, Bool.or_false]

lemma originFor_of_ne {t : Target} (h : t.origin ≠ .local) : originFor vs t = t.origin :=
  if_neg fun hl => h hl.1

lemma originFor_single {t : Target} {v : Visit} (h : t.origin = .local) (hv : v.key = t.key)
    (new : t.key ∉ vs.map Visit.key) :
    originFor (vs ++ [v]) t = if v.closed?.isNone then .stub else .local := by
  rw [originFor, failed_append, failed_of_notMem new, Bool.false_or, h]
  simp [failed, hv]

/-! ### Imports and modules of a walk -/

/-- The imports that a walk knows of: the links of placed modules, and the imports of pending
ones. -/
inductive Walk.Imports (w : Walk) (a i : String) : Prop
  | placed {n : Node} (hn : w.modules.get? a = some n) (hi : n.links.contains i = true)
  | ahead {c : Closed} (hc : (a, c) ∈ w.pending) (hi : i ∈ c.imports)

/-- The origins of the modules that a walk has or will have. -/
inductive Walk.Has (w : Walk) (k : String) : Module.Origin → Prop
  | placed {n : Node} (hn : w.modules.get? k = some n) : w.Has k n.origin
  | ahead {c : Closed} (hc : (k, c) ∈ w.pending) : w.Has k .local

/-- Each module but the entry is what some import calls for. -/
def Attributed (s : Scope) (vs : List Visit) (w : Walk) : Prop :=
  ∀ k o, w.Has k o → k ≠ entryKey →
    ∃ a i, w.Imports a i ∧ (targetOf s a i).key = k ∧ originFor vs (targetOf s a i) = o

lemma Sound.seen_of_has (h : Sound s entry vs w) {k : String} {o : Module.Origin}
    (hk : w.Has k o) : k ∈ w.seen := by
  cases hk with
  | placed hn => exact (h.met k).2 (.inl (KeyMap.contains_iff.2 ⟨_, hn⟩))
  | ahead hc => exact h.seen_of_pending hc

/-- A new module, with a key that no walk before has met, is what the import of `i` calls for. -/
lemma Attributed.cons (h : Attributed s vs w) (hs : Sound s entry vs w) {a i : String}
    (hi : w.Imports a i) {o : Module.Origin} (new : (targetOf s a i).key ∉ w.seen)
    (hvs : ∀ v ∈ vs', v.key = (targetOf s a i).key)
    (ho : originFor (vs ++ vs') (targetOf s a i) = o)
    (himports : ∀ a i, w.Imports a i → w'.Imports a i)
    (hhas : ∀ k o', w'.Has k o' → w.Has k o' ∨ k = (targetOf s a i).key ∧ o' = o) :
    Attributed s (vs ++ vs') w' := by
  intro k o' hk hne
  rcases hhas k o' hk with hk | ⟨rfl, rfl⟩
  · obtain ⟨b, j, hj, rfl, rfl⟩ := h k o' hk hne
    refine ⟨b, j, himports b j hj, rfl, originFor_append ?_⟩
    rintro hmem
    obtain ⟨v, hv, hkey⟩ := List.mem_map.1 hmem
    rw [hvs v hv] at hkey
    exact new (hkey ▸ hs.seen_of_has hk)
  · exact ⟨a, i, himports a i hi, rfl, ho⟩

lemma Walk.Imports.add (h : Sound s entry vs w) {k : String} (new : k ∉ w.seen) {n : Node}
    {a i : String} (hi : w.Imports a i) : (w.add k n).Imports a i := by
  cases hi with
  | placed hn hi =>
    have hne : a ≠ k := by
      rintro rfl
      rw [h.get?_of_new new] at hn
      cases hn
    exact .placed ((KeyMap.get?_insert_of_ne _ _ hne).trans hn) hi
  | ahead hc hi => exact .ahead hc hi

lemma Walk.Imports.enqueue {k a i : String} {c : Closed} (hi : w.Imports a i) :
    (w.enqueue k c).Imports a i := by
  cases hi with
  | placed hn hi => exact .placed hn hi
  | ahead hc hi => exact .ahead (List.mem_append_left _ hc) hi

lemma Walk.Has.of_add {n : Node} {k b : String} {o : Module.Origin} (h : (w.add k n).Has b o) :
    w.Has b o ∨ b = k ∧ o = n.origin := by
  cases h with
  | placed hn =>
    rw [Walk.add, KeyMap.get?_insert] at hn
    split at hn
    · next hb => exact .inr ⟨hb, by rw [Option.some.inj hn]⟩
    · exact .inl (.placed hn)
  | ahead hc => exact .inl (.ahead hc)

lemma Walk.Has.of_enqueue {k b : String} {c : Closed} {o : Module.Origin}
    (h : (w.enqueue k c).Has b o) : w.Has b o ∨ b = k ∧ o = .local := by
  cases h with
  | placed hn => exact .inl (.placed hn)
  | ahead hc =>
    rcases List.mem_append.1 hc with hc | hc
    · exact .inl (.ahead hc)
    · exact .inr ⟨congrArg Prod.fst (List.mem_singleton.1 hc), rfl⟩

/-- **One step.** What following an import places is what that import calls for. -/
theorem Attributed.step (h : Attributed s vs w) (hw : Invariant s entry vs w)
    {m : String × Closed} {i : String} (hm : m ∈ w.pending) (hi : i ∈ m.2.imports)
    (hs : Step s (targetOf s m.1 i) w vs' (.ok w')) : Attributed s (vs ++ vs') w' := by
  have himp : w.Imports m.1 i := .ahead hm hi
  generalize hr : Except.ok w' = r at hs
  cases hs with
  | met =>
    obtain rfl := Except.ok.inj hr
    rw [List.append_nil]
    exact h
  | host new ho =>
    obtain rfl := Except.ok.inj hr
    have hne : (targetOf s m.1 i).origin ≠ .local := by
      intro hl
      rw [hl] at ho
      cases ho
    refine h.cons hw.sound himp new (by simp) ?_ (fun a j => .add hw.sound new)
      (fun b o => Walk.Has.of_add)
    exact originFor_of_ne hne
  | standIn new ho =>
    obtain rfl := Except.ok.inj hr
    refine h.cons hw.sound himp new (by simp) ?_ (fun a j => .add hw.sound new)
      (fun b o => Walk.Has.of_add)
    rw [originFor_of_ne (by simp [ho]), ho]
    rfl
  | @closed text c new ho safe hc =>
    obtain rfl := Except.ok.inj hr
    refine h.cons hw.sound himp new (by simp) ?_ (fun a j => .enqueue)
      (fun b o => Walk.Has.of_enqueue)
    rw [originFor_single ho rfl (hw.unvisited new)]
    simp [Visit.closed?, hc, Except.toOption]
  | @failed v new ho hv safe hc =>
    obtain rfl := Except.ok.inj hr
    refine h.cons hw.sound himp new (by simpa using hv) ?_ (fun a j => .add hw.sound new)
      (fun b o => Walk.Has.of_add)
    rw [originFor_single ho hv (hw.unvisited new), hc]
    rfl
  | refused => cases hr

/-- The module that was being followed is placed. -/
lemma Attributed.finish {m : String × Closed} (h : Attributed s vs (w.holding m))
    (hs : Sound s entry vs (w.holding m)) :
    Attributed s vs (w.finish m.1 (nodeOf s m.1 m.2)) := by
  have hnone : w.modules.get? m.1 = none := hs.awaited m List.mem_cons_self
  have himports : ∀ a i, (w.holding m).Imports a i →
      (w.finish m.1 (nodeOf s m.1 m.2)).Imports a i := by
    intro a i hi
    cases hi with
    | placed hn hi =>
      have hne : a ≠ m.1 := by
        rintro rfl
        rw [show (w.holding m).modules = w.modules from rfl, hnone] at hn
        cases hn
      exact .placed ((KeyMap.get?_insert_of_ne _ _ hne).trans hn) hi
    | ahead hc hi =>
      rcases List.mem_cons.1 hc with rfl | hc
      · exact .placed (KeyMap.get?_insert_self _ _ _) ((contains_linksOf s _ _ i).2 hi)
      · exact .ahead hc hi
  intro k o hk hne
  have hbefore : (w.holding m).Has k o := by
    cases hk with
    | placed hn =>
      rw [Walk.finish, KeyMap.get?_insert] at hn
      split at hn
      · next hb =>
        subst hb
        rw [← Option.some.inj hn]
        exact .ahead List.mem_cons_self
      · exact .placed hn
    | ahead hc => exact .ahead (List.mem_cons_of_mem _ hc)
  obtain ⟨a, i, hi, hkey, ho⟩ := h k o hbefore hne
  exact ⟨a, i, himports a i hi, hkey, ho⟩

lemma Attributed.start (s : Scope) (entry : Closed) : Attributed s [] (.start entry) := by
  intro k o hk hne
  cases hk with
  | placed hn => cases hn
  | ahead hc => exact absurd (congrArg Prod.fst (List.mem_singleton.1 hc)) hne

/-! ### Whole walks -/

/-- What is kept by every step and by every placing of a module that was followed. -/
structure Kept (s : Scope) (entry : Closed) (P : List Visit → Walk → Prop) : Prop where
  step : ∀ {vs vs' w w' m i}, P vs w → Invariant s entry vs w → m ∈ w.pending → i ∈ m.2.imports →
    Step s (targetOf s m.1 i) w vs' (.ok w') → P (vs ++ vs') w'
  finish : ∀ {vs w m}, P vs (Walk.holding w m) → Sound s entry vs (w.holding m) →
    P vs (w.finish m.1 (nodeOf s m.1 m.2))

lemma kept_attributed (s : Scope) (entry : Closed) : Kept s entry (Attributed s) where
  step h hw hm hi hs := h.step hw hm hi hs
  finish h hs := h.finish hs

variable {P : List Visit → Walk → Prop} (compile : LocalCompiler) (σ : Session)

lemma Kept.of_followAll (hP : Kept s entry P) (m : String × Closed) (is : List String)
    (his : is ⊆ m.2.imports) (hw : Invariant s entry vs (w.holding m)) (h : P vs (w.holding m))
    (hr : σ.answer (followAll compile s (directoryOf m.1) w is) = .ok w') :
    let vs' := σ.answer (takeUp compile s (takenByAll compile s (directoryOf m.1) σ w is))
    Invariant s entry (vs ++ vs') (w'.holding m) ∧ P (vs ++ vs') (w'.holding m) := by
  induction is generalizing σ w vs with
  | nil =>
    rw [followAll, Session.answer_pure] at hr
    cases hr
    simpa [takenByAll] using And.intro hw h
  | cons i is ih =>
    obtain ⟨hi, his⟩ := List.cons_subset.1 his
    obtain ⟨w₁, vs₁, τ, hstep, hrest, hvisits⟩ := exists_of_followAll_cons compile s σ hr
    have hstep' : Step s (targetOf s m.1 i) (w.holding m) vs₁ (.ok (w₁.holding m)) :=
      hstep.holding m
    rw [hvisits]
    dsimp only
    rw [← List.append_assoc]
    exact ih τ his (hw.step List.mem_cons_self hi hstep')
      (hP.step h hw List.mem_cons_self hi hstep') hrest

/-- **A whole walk** keeps what its steps keep. -/
theorem Kept.of_walk (hP : Kept s entry P) (n : Nat) (hw : Invariant s entry vs w) (h : P vs w)
    (hr : σ.answer (walk compile s n w) = .ok w') :
    P (vs ++ σ.answer (takeUp compile s (taken compile s n σ w))) w' := by
  induction n generalizing σ w vs with
  | zero =>
    rw [walk, Session.answer_pure] at hr
    cases hr
    simpa [taken] using h
  | succ n ih =>
    cases hp : w.pending with
    | nil =>
      rw [walk_of_drained compile s hp, Session.answer_pure] at hr
      cases hr
      simpa [taken_of_drained, hp] using h
    | cons m rest =>
      have hhold : ({ w with pending := rest } : Walk).holding m = w := by
        rw [Walk.holding, ← hp]
      obtain ⟨w₁, τ, hfirst, hlater, hvisits⟩ := exists_of_walk_succ compile s σ hp hr
      obtain ⟨hw₁, h₁⟩ := hP.of_followAll compile σ m m.2.imports (List.Subset.refl _) (hhold ▸ hw)
        (hhold ▸ h) hfirst
      have hseen := (followAll_grows compile σ _ _ hfirst).1
      rw [hvisits, ← List.append_assoc]
      exact ih τ { hw₁ with sound := hw₁.sound.finish hseen } (hP.finish h₁ hw₁.sound) hlater

/-! ### Graphs -/

/-- The module of the key `a` links the specifier `i` to the key `b`. -/
def Links (g : Graph) (a i b : String) : Prop :=
  ∃ n, g.modules.get? a = some n ∧ n.links.get? i = some b

/-- A link leads to a module of the origin that its specifier calls for, and not to the entry. -/
def LeadsRight (s : Scope) (vs : List Visit) (g : Graph) (a i b : String) : Prop :=
  b ≠ entryKey ∧ ∃ n, g.modules.get? b = some n ∧ n.origin = originFor vs (targetOf s a i)

lemma key_of_link {n : Module.Node} {a i b : String} (h : Placed s entry vs a n)
    (hi : n.links.get? i = some b) : b = (targetOf s a i).key := by
  cases h with
  | host | standIn => cases hi
  | closed =>
    rw [nodeOf, get?_linksOf] at hi
    split at hi
    · exact (Option.some.inj hi).symm
    · cases hi

lemma exists_link {n : Module.Node} {a i : String} (h : Placed s entry vs a n)
    (hi : n.links.contains i = true) : n.links.get? i = some (targetOf s a i).key := by
  obtain ⟨b, hb⟩ := KeyMap.contains_iff.1 hi
  rw [hb, key_of_link h hb]

/-- In a graph all of whose modules are linked to by what calls for them, every link leads right just
when none leads to the entry, and no two lead to one key but call for different origins. -/
lemma leadsRight_iff {g : Graph}
    (hlinked : ∀ a i b, Links g a i b → ∃ n, g.modules.get? b = some n)
    (hcaller : ∀ k n, g.modules.get? k = some n → k ≠ entryKey →
      ∃ a i, Links g a i k ∧ n.origin = originFor vs (targetOf s a i)) :
    (∀ a i b, Links g a i b → LeadsRight s vs g a i b) ↔
      (∀ a i, ¬ Links g a i entryKey) ∧
        ∀ a i a' i' b, Links g a i b → Links g a' i' b →
          originFor vs (targetOf s a i) = originFor vs (targetOf s a' i') := by
  constructor
  · intro hright
    refine ⟨fun a i hl => (hright a i _ hl).1 rfl, fun a i a' i' b hl hl' => ?_⟩
    obtain ⟨-, n, hn, ho⟩ := hright a i b hl
    obtain ⟨-, n', hn', ho'⟩ := hright a' i' b hl'
    obtain rfl := Option.some.inj (hn.symm.trans hn')
    rw [← ho, ← ho']
  · rintro ⟨hentry, hsame⟩ a i b hl
    have hne : b ≠ entryKey := by
      rintro rfl
      exact hentry a i hl
    obtain ⟨n, hn⟩ := hlinked a i b hl
    obtain ⟨a', i', hl', ho⟩ := hcaller b n hn hne
    exact ⟨hne, n, hn, ho.trans (hsame a' i' a i b hl' hl)⟩

/-- In a graph each module but the entry is linked to by an import that calls for it. -/
lemma exists_caller {g : Graph} (hmodules : g.modules = w.modules) (hinv : Invariant s entry vs w)
    (hattr : Attributed s vs w) (hdrained : w.pending = []) {k : String} {n : Node}
    (hn : g.modules.get? k = some n) (hne : k ≠ entryKey) :
    ∃ a i, Links g a i k ∧ n.origin = originFor vs (targetOf s a i) := by
  rw [hmodules] at hn
  obtain ⟨a, i, himp, rfl, ho⟩ := hattr k n.origin (.placed hn) hne
  cases himp with
  | @placed n' hn' hi =>
    exact ⟨a, i, ⟨n', hmodules ▸ hn', exists_link (hinv.sound.placed a n' hn') hi⟩, ho.symm⟩
  | ahead hc => simp [hdrained] at hc

/-- **What the keys of a graph stand for.** A link is the key of its specifier's target, every module
but the entry is what some import calls for, and all links lead to what their specifiers call for just
when none has the key of the entry, and no two with one key call for modules of different origins. -/
theorem links_lead_right_iff {props : KeyMap Json} {g : Graph}
    (hg : σ.answer (buildGraph compile s entry props) = .ok g) :
    let vs := σ.answer (takeUp compile s (takenFrom compile σ s entry))
    (∀ a i b, Links g a i b → b = (targetOf s a i).key) ∧
      (∀ k n, g.modules.get? k = some n → k ≠ entryKey →
        ∃ a i, Links g a i k ∧ n.origin = originFor vs (targetOf s a i)) ∧
      ((∀ a i b, Links g a i b → LeadsRight s vs g a i b) ↔
        (∀ a i, ¬ Links g a i entryKey) ∧
          ∀ a i a' i' b, Links g a i b → Links g a' i' b →
            originFor vs (targetOf s a i) = originFor vs (targetOf s a' i')) := by
  intro vs
  obtain ⟨w, hw, hdrained, hmodules, hinv⟩ := exists_walk compile σ hg
  have hattr : Attributed s vs w :=
    (kept_attributed s entry).of_walk compile σ _ (.start s entry) (.start s entry) hw
  have hlinked : ∀ a i b, Links g a i b → ∃ n, g.modules.get? b = some n := by
    rintro a i b ⟨m, hm, hi⟩
    have hseen := hinv.sound.linked a m i b (hmodules ▸ hm) hi
    have hb := (hinv.sound.met b).1 hseen
    rw [hdrained] at hb
    simpa [KeyMap.contains_iff, hmodules] using hb
  have hcaller : ∀ k n, g.modules.get? k = some n → k ≠ entryKey →
      ∃ a i, Links g a i k ∧ n.origin = originFor vs (targetOf s a i) :=
    fun k n hn hne => exists_caller hmodules hinv hattr hdrained hn hne
  refine ⟨?_, hcaller, leadsRight_iff hlinked hcaller⟩
  rintro a i b ⟨n, hn, hi⟩
  exact key_of_link (hinv.sound.placed a n (hmodules ▸ hn)) hi

/-- There is a file `clsx`, and a package of the same name is allowed. -/
def clsxScope : Scope where
  policy := { Policy.standard with rules := [.allow "clsx"] }
  dependencies := .ofList [("clsx", "export default 1;\n")]
  stubs := ∅

/-- The graph of an entry that imports the given specifiers. -/
def clsxGraph (specifiers : List String) : Except Fault Graph :=
  ({} : Session).answer (buildGraph (fun _ _ => return .error (.unavailable "")) clsxScope
    ⟨"", specifiers⟩ ∅)

/-- The origin of the module that a link leads to. -/
def linkedOrigin? (g : Graph) (a i : String) : Option Module.Origin :=
  (g.modules.get? a).bind fun n => (n.links.get? i).bind fun b =>
    (g.modules.get? b).map (·.origin)

lemma exists_of_linkedOrigin? {g : Graph} {a i : String} {o : Module.Origin}
    (h : linkedOrigin? g a i = some o) :
    ∃ b n, Links g a i b ∧ g.modules.get? b = some n ∧ n.origin = o := by
  obtain ⟨m, hm, h⟩ := Option.bind_eq_some_iff.1 h
  obtain ⟨b, hb, h⟩ := Option.bind_eq_some_iff.1 h
  obtain ⟨n, hn, ho⟩ := Option.map_eq_some_iff.1 h
  exact ⟨b, n, ⟨m, hm, hb⟩, hn, ho⟩

lemma eq_ok_of_toOption {g : Graph} {x : Except Fault Graph} (h : x.toOption = some g) : x = .ok g := by
  cases x with
  | error e => cases h
  | ok g' => exact congrArg _ (Option.some.inj h)

lemma exists_clsxGraph {is : List String} {i : String} {o : Module.Origin}
    (h : (clsxGraph is).toOption.bind (linkedOrigin? · entryKey i) = some o) :
    ∃ g, clsxGraph is = .ok g ∧ linkedOrigin? g entryKey i = some o := by
  obtain ⟨g, hg, ho⟩ := Option.bind_eq_some_iff.1 h
  exact ⟨g, eq_ok_of_toOption hg, ho⟩

-- the file and a package that has another name
theorem links_lead_right_clsx :
    ∃ g b n, clsxGraph ["./clsx", "svelte"] = .ok g ∧ Links g entryKey "./clsx" b ∧
      g.modules.get? b = some n ∧ n.origin = .local ∧ b = (targetOf clsxScope entryKey "./clsx").key := by
  have ho : (clsxGraph ["./clsx", "svelte"]).toOption.bind (linkedOrigin? · entryKey "./clsx") =
      some .local := by decide +kernel
  obtain ⟨g, hg, ho⟩ := exists_clsxGraph ho
  obtain ⟨b, n, hl, hn, ho⟩ := exists_of_linkedOrigin? ho
  obtain ⟨hkeys, -, -⟩ := links_lead_right_iff _ _ hg
  exact ⟨g, b, n, hg, hl, hn, ho, hkeys _ _ _ hl⟩

/-- An import of the package leads to the file if the file was imported first. -/
theorem package_import_leads_to_file :
    ¬ ∀ (compile : LocalCompiler) (σ : Session) (s : Scope) (entry : Closed) (props : KeyMap Json)
      (g : Graph) (a i b : String) (n : Module.Node),
      σ.answer (buildGraph compile s entry props) = .ok g → Links g a i b →
      g.modules.get? b = some n →
        n.origin = (targetOf s a i).origin ∨
          (targetOf s a i).origin = .local ∧ n.origin = .stub := by
  intro h
  have ho : (clsxGraph ["./clsx", "clsx"]).toOption.bind (linkedOrigin? · entryKey "clsx") =
      some .local := by decide +kernel
  obtain ⟨g, hg, ho⟩ := exists_clsxGraph ho
  obtain ⟨b, n, hl, hn, ho⟩ := exists_of_linkedOrigin? ho
  have htarget : (targetOf clsxScope entryKey "clsx").origin = .environment := by decide +kernel
  have hbad := h _ _ _ _ _ g _ _ _ n hg hl hn
  rw [htarget, ho] at hbad
  exact absurd hbad (by decide)

end Mender.Preview
