import Mender.Proofs.Repair.InTurns

/-!
Repairs of different files at the same time.

In all of its turns a repair goes by what the store holds of its own file, and by whether the tools can
be used; it changes nothing of other files. So two repairs of different files may take turns in any
order.
-/

namespace Mender

open Session

/-! ### What a repair goes by -/

namespace Tool.Toolchain

variable (start : Nat → Except Fault Unit) (t : Toolchain)

/-- Why the tools will be missing at their next use, if they will. -/
def outlook : Option Fault := (t.ensure start).fault?

lemma ensure_ensure : (t.ensure start).ensure start = t.ensure start := by
  obtain ⟨started, attempts⟩ := t
  cases started <;> rfl

end Tool.Toolchain

namespace Repair

/-- A store whose calls do not fail. -/
def reliable : StoreFailures := fun _ _ _ => none

/-- The collaborators other than the store heed what they are asked, and not how often they have been
asked. -/
def Workshop.Pure (w : Workshop) : Prop := ∀ c n m, w.SameAnswers c n m

section Minds

variable (w : Workshop) (key : FileKey)

/-- What a repair of this file goes by. -/
def ownPart (s : Session) : Dossier × Option Tool.Fault :=
  (s.store.dossier key, s.toolchain.outlook w.tools.start)

/-- What it leaves as it is. -/
def otherPart (s : Session) : ({k // k ≠ key} → Dossier) × Option Tool.Fault :=
  (fun k => s.store.dossier k, s.toolchain.outlook w.tools.start)

variable {w key} (c : ({k // k ≠ key} → Dossier) × Option Tool.Fault)

variable (key) in
lemma repeats_alikeIn (hpure : w.Pure) :
    Repeats w (AlikeIn (ownPart w key) (otherPart w key) c) where
  note := by
    intro call _ s t h
    rw [after_note, after_note]
    exact ⟨hpure _ _ _, h⟩
  count _ _ := .modify fun _ _ h => h
  start := by
    intro s t h
    have houtlook : s.toolchain.outlook w.tools.start = t.toolchain.outlook w.tools.start :=
      congrArg Prod.snd h.1
    unfold Validation.startTools
    simp only [answer_bind, answer_get, answer_pure, after_bind, after_get, after_pure, after_modify]
    refine ⟨houtlook, ?_⟩
    unfold AlikeIn ownPart otherPart Tool.Toolchain.outlook at h ⊢
    simpa only [Tool.Toolchain.ensure_ensure] using h

lemma steady_callStore (q : StoreRequest) :
    Steady (AlikeIn (ownPart w key) (otherPart w key) c) (callStore reliable q key) := by
  intro s t h
  unfold callStore reliable
  simp only [answer_bind, answer_pure, after_bind, after_note, after_pure]
  exact ⟨trivial, h⟩

lemma ownPart_perform {q : StoreRequest} (hq : q.About key) (s : Session) :
    ownPart w key { s with store := q.perform key s.store } =
      (q.enter key (ownPart w key s).1, (ownPart w key s).2) :=
  Prod.ext (s.store.dossier_perform hq) rfl

lemma otherPart_perform {q : StoreRequest} (hq : q.About key) (s : Session) :
    otherPart w key { s with store := q.perform key s.store } = otherPart w key s :=
  Prod.ext (funext fun k => s.store.dossier_perform_of_ne hq k.2) rfl

lemma steady_changeStore {q : StoreRequest} (hq : q.About key) :
    Steady (AlikeIn (ownPart w key) (otherPart w key) c) (changeStore reliable q key) := by
  refine .bind_eq (steady_callStore c q) fun fault => ?_
  split
  · refine .modify fun s t ⟨hown, hother⟩ => ⟨?_, ?_⟩
    · rw [ownPart_perform hq, ownPart_perform hq, hown]
    · rw [otherPart_perform hq, hother]
  · exact .pure rfl

variable {r : Request} (hstore : w.store = some reliable) (hproject : r.project = some key.project)
  (hfilename : r.filename = key.file)

include hstore hproject hfilename

lemma keptAt_reliable : keptAt w r = some (reliable, key) := by
  rw [keptAt, hstore, hproject, hfilename]

lemma steady_opening : Steady (AlikeIn (ownPart w key) (otherPart w key) c) (opening w r) := by
  refine .bind_eq (.modify fun _ _ h => h) fun _ => ?_
  rw [keptAt_reliable hstore hproject hfilename]
  refine .bind_eq (steady_callStore c .loadMemory) fun fault => ?_
  split
  · exact .pure rfl
  · refine .bind .get fun s t h => .pure ?_
    exact congrArg (fun x => x.1.memory) h.1

/-- In each of its turns a repair goes by its own part, and leaves the other one. -/
lemma each_minds (hpure : w.Pure) :
    (repairTurns w r).Each (Minds (ownPart w key) (otherPart w key)) := by
  have h := fun c => repeats_alikeIn key c hpure
  refine each_repairTurns (minds_of_steady fun c => ?_) (minds_of_steady fun c => ?_)
    (fun given => minds_of_steady fun c => steady_checkText (h c).checks _ _ _)
    (fun p => minds_of_steady fun c => steady_onePass (h c) _ _ p)
    (fun given initial p => minds_of_steady fun c => steady_conclude (h c) p r given initial)
    fun fails k q hkept hq => ?_
  · exact coupled_resolveSource r hproject hfilename hstore hstore (steady_callStore c .readFile)
      fun _ _ h => congrArg (fun x => x.1.file) h.1
  · exact steady_opening c hstore hproject hfilename
  · obtain ⟨rfl, rfl⟩ := Prod.mk.inj
      (Option.some.inj (hkept.symm.trans (keptAt_reliable hstore hproject hfilename)))
    exact minds_of_steady fun c => steady_changeStore c hq

end Minds

/-! ### Two repairs -/

/-- Two repairs of different files, which one store keeps. The store is reliable, and the other
collaborators heed what they are asked only. If the two use one toolchain, it is started in one way. -/
structure Neighbours (uses : Bool → Bool) (w : Bool → Workshop) (r : Bool → Request)
    (key : Bool → FileKey) : Prop where
  store : ∀ i, (w i).store = some reliable
  project : ∀ i, (r i).project = some (key i).project
  filename : ∀ i, (r i).filename = (key i).file
  apart : key false ≠ key true
  pure : ∀ i, (w i).Pure
  start : uses false = uses true → (w false).tools.start = (w true).tools.start

section Concurrent

variable {uses : Bool → Bool} {w : Bool → Workshop} {r : Bool → Request} {key : Bool → FileKey}
  (h : Neighbours uses w r key) (x : World)

namespace Neighbours

include h

lemma key_ne (i : Bool) : key (!i) ≠ key i := by
  cases i with
  | false => exact h.apart.symm
  | true => exact h.apart

lemma start_eq {i : Bool} (hi : uses (!i) = uses i) : (w (!i)).tools.start = (w i).tools.start := by
  cases i with
  | false => exact (h.start hi.symm).symm
  | true => exact h.start hi

lemma parts_apart : Apart uses (fun i => ownPart (w i) (key i)) fun i => otherPart (w i) (key i) := by
  intro x i s hsame
  have hdossier : s.store.dossier (key (!i)) = x.session.store.dossier (key (!i)) :=
    congrFun (congrArg Prod.fst hsame) ⟨key (!i), h.key_ne i⟩
  have houtlook : s.toolchain.outlook (w i).tools.start =
      (x.toolchains (uses i)).outlook (w i).tools.start := congrArg Prod.snd hsame
  refine Prod.ext hdossier ?_
  dsimp only [ownPart, World.sessionOf, World.leave]
  by_cases hi : uses (!i) = uses i
  · rw [hi, Function.update_self, h.start_eq hi, houtlook]
  · rw [Function.update_of_ne hi]

lemma minds (i : Bool) :
    (repairTurns (w i) (r i)).Each (Minds (ownPart (w i) (key i)) (otherPart (w i) (key i))) :=
  each_minds (h.store i) (h.project i) (h.filename i) (h.pure i)

/-- What is held of the files in the end depends neither on how the repairs are cut into turns nor on
the order of these. -/
lemma dossier_run {p p' : Bool → Turns (Except Fault Outcome)}
    (hp : ∀ i, (p i).whole = (p' i).whole)
    (hminds : ∀ i, (p i).Each (Minds (ownPart (w i) (key i)) (otherPart (w i) (key i))))
    (hminds' : ∀ i, (p' i).Each (Minds (ownPart (w i) (key i)) (otherPart (w i) (key i))))
    {order order' : List Bool} (hends : ∀ i, (p i).EndsWithin (order.count i))
    (hends' : ∀ i, (p' i).EndsWithin (order'.count i)) (k : FileKey) :
    ((Pair.mk x p).run uses order).world.session.store.dossier k =
      ((Pair.mk x p').run uses order').world.session.store.dossier k := by
  by_cases hk : ∃ i, k = key i
  · obtain ⟨i, rfl⟩ := hk
    have hown := (Pair.run_of_ends uses h.parts_apart (c := ⟨x, p⟩) hminds (hends i)).2
    have hown' := (Pair.run_of_ends uses h.parts_apart (c := ⟨x, p'⟩) hminds' (hends' i)).2
    have hsame := hown.trans ((congrArg _ (hp i ▸ rfl)).trans hown'.symm)
    exact congrArg Prod.fst hsame
  · have hne : ∀ i, k ≠ key i := fun i hi => hk ⟨i, hi⟩
    have hcommon : ∀ (x : World) (i : Bool) (s : Session),
        otherPart (w i) (key i) s = otherPart (w i) (key i) (x.sessionOf uses i) →
          s.store.dossier k = x.session.store.dossier k :=
      fun x i s hs => congrFun (congrArg Prod.fst hs) ⟨k, hne i⟩
    exact (Pair.run_common uses (c := ⟨x, p⟩) hcommon hminds order).trans
      (Pair.run_common uses (c := ⟨x, p'⟩) hcommon hminds' order').symm

end Neighbours

/-- The repairs one after the other, that of `first` before the other one. -/
def oneByOne (uses : Bool → Bool) (w : Bool → Workshop) (r : Bool → Request) (first : Bool)
    (x : World) : World :=
  (x.perform uses first (repair (w first) (r first))).perform uses (!first)
    (repair (w (!first)) (r (!first)))

/-- **Repairs of different files at the same time** do not affect each other. In whatever order their
store calls are made, each of them ends as it would alone, and of every file the store holds in the end
what it would hold if the repairs had been made one after the other. -/
theorem repairs_concurrent (h : Neighbours uses w r key) (x : World) {order : List Bool}
    (hturns : ∀ i, passBudget (w i) (r i) + 7 ≤ order.count i) :
    (∀ i, (repairTurns (w i) (r i)).whole = repair (w i) (r i) ∧
      (repairTurns (w i) (r i)).Each CallsStoreOnce) ∧
      let c := (Pair.mk x fun i => repairTurns (w i) (r i)).run uses order
      (∀ i, c.turns i = .done ((x.sessionOf uses i).answer (repair (w i) (r i)))) ∧
        ∀ k first, c.world.session.store.dossier k =
          (oneByOne uses w r first x).session.store.dossier k := by
  have hwhole : ∀ i, (repairTurns (w i) (r i)).whole = repair (w i) (r i) :=
    fun i => whole_repairTurns (w i) (r i)
  have hends : ∀ i, (repairTurns (w i) (r i)).EndsWithin (order.count i) :=
    fun i => (ends_repairTurns (w i) (r i)).mono (hturns i)
  refine ⟨fun i => ⟨hwhole i, each_callsStoreOnce⟩, fun i => ?_, fun k first => ?_⟩
  · rw [← hwhole i]
    exact (Pair.run_of_ends uses h.parts_apart (c := ⟨x, _⟩) h.minds (hends i)).1
  · let p' : Bool → Turns (Except Fault Outcome) := fun i => .turn (repair (w i) (r i)) .done
    have hminds' : ∀ i, (p' i).Each (Minds (ownPart (w i) (key i)) (otherPart (w i) (key i))) :=
      fun i => ⟨hwhole i ▸ (h.minds i).minds_whole, fun _ => trivial⟩
    have hends' : ∀ i, (p' i).EndsWithin ([first, !first].count i) := by
      intro i
      have hcount : [first, !first].count i = 1 := by cases i <;> cases first <;> rfl
      rw [hcount]
      exact fun _ => trivial
    have horder : ((Pair.mk x p').run uses [first, !first]).world = oneByOne uses w r first x := by
      have hother : (!first) ≠ first := by cases first <;> decide
      simp only [Pair.run, List.foldl, Pair.take, Function.update_of_ne hother]
      rfl
    rw [← horder]
    refine h.dossier_run x (fun i => ?_) h.minds hminds' hends hends' k
    exact (hwhole i).trans (bind_pure _).symm

end Concurrent

/-! ### A sample -/

/-- The formatter accepts the text `c` only; the model proposes `b` each time. -/
def calmSample : Workshop :=
  { sample with generate := some fun _ _ _ => .ok "b", store := some reliable }

/-- A file of the project "p" whose text is given, and one of the project "q" whose text is kept. -/
def twoRequests (i : Bool) : Request :=
  { sampleRequest with
    project := some (if i then "q" else "p"), code := if i then none else some "a" }

def twoKeys (i : Bool) : FileKey := ⟨if i then "q" else "p", "note.txt"⟩

def oneToolchain : World where
  session := { store := Store.putFile (twoKeys true) "d" {} }
  toolchains _ := {}

/-- The two by turns. -/
def byTurns : List Bool := (List.replicate 9 [false, true]).flatten

lemma neighbours_sample :
    Neighbours (fun _ => false) (fun _ => calmSample) twoRequests twoKeys where
  store _ := rfl
  project _ := rfl
  filename _ := rfl
  apart := by decide
  pure := by
    intro _ c n m
    unfold Workshop.SameAnswers
    cases c <;> simp [calmSample, sample]
  start _ := rfl

theorem repairs_concurrent_byTurns :
    Neighbours (fun _ => false) (fun _ => calmSample) twoRequests twoKeys ∧
      (∀ i, passBudget calmSample (twoRequests i) + 7 ≤ byTurns.count i) ∧
      ∀ k first, ((Pair.mk oneToolchain fun i => repairTurns calmSample (twoRequests i)).run
          (fun _ => false) byTurns).world.session.store.dossier k =
        (oneByOne (fun _ => false) (fun _ => calmSample) twoRequests first
          oneToolchain).session.store.dossier k := by
  have hturns : ∀ i, passBudget calmSample (twoRequests i) + 7 ≤ byTurns.count i := by decide
  exact ⟨neighbours_sample, hturns,
    (repairs_concurrent neighbours_sample oneToolchain hturns).2.2⟩

example : (((Pair.mk oneToolchain fun i => repairTurns calmSample (twoRequests i)).run
    (fun _ => false) byTurns).world.session.store.dossier (twoKeys true)).memory = ["fixed: bad"] := by
  decide +kernel

end Repair

end Mender
