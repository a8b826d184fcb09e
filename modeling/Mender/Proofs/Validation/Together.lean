import Mender.Proofs.KeyMap
import Mender.Proofs.Validation.Stages

/-!
Files that are validated together.

With tools that answer the same question always in the same way, what is found out about a file depends
on the text it starts from and on nothing that was done before. That text is the only thing that the
other files can change: when the formatter crashes on one of them, none is formatted beforehand.
-/

namespace Mender

/-! ### Maps made from the entries of another one -/

namespace KeyMap

variable {α β : Type}

/-- Keys are distinct, so a key has one entry or none. -/
lemma filter_entries (m : KeyMap α) (k : String) :
    (m.entries.filter fun e => e.1 == k) = ((m.get? k).map (k, ·)).toList := by
  suffices h : ∀ r : List (String × α), KeysIncrease r →
      (r.filter fun e => e.1 == k) = ((r.lookup k).map (k, ·)).toList by
    exact h m.entries m.increase
  intro r hr
  induction r with
  | nil => rfl
  | cons e r ih =>
    obtain ⟨he, hr⟩ := List.pairwise_cons.1 hr
    rw [List.filter_cons, lookup_cons_if]
    by_cases hk : k = e.1
    · have hnone : (r.filter fun d => d.1 == k) = [] :=
        List.filter_eq_nil_iff.2 fun d hd h =>
          ne_of_lt_keys he hd (hk.symm.trans (beq_iff_eq.1 h).symm)
      rw [if_pos (beq_iff_eq.2 hk.symm), if_pos hk, hnone, hk]
      rfl
    · rw [if_neg fun h => hk (beq_iff_eq.1 h).symm, if_neg hk, ih hr]

lemma get?_of_mem {m : KeyMap α} {e : String × α} (he : e ∈ m.entries) : m.get? e.1 = some e.2 := by
  have hmem : e ∈ ((m.get? e.1).map (e.1, ·)).toList := by
    rw [← filter_entries]
    exact List.mem_filter.2 ⟨he, beq_self_eq_true e.1⟩
  obtain ⟨v, hv, hev⟩ := Option.map_eq_some_iff.1 (Option.mem_toList.1 hmem)
  rw [hv, ← hev]

/-- A map of what `g` makes of the entries of another one, where it makes something of them. -/
lemma get?_ofList_filterMap (m : KeyMap α) (g : String × α → Option β) (k : String) :
    (ofList (m.entries.filterMap fun e => (g e).map (e.1, ·))).get? k =
      (m.get? k).bind fun v => g (k, v) := by
  have hkeyed : ((m.entries.filterMap fun e => (g e).map (e.1, ·)).filter fun d => d.1 == k) =
      (m.entries.filter fun e => e.1 == k).filterMap fun e => (g e).map (e.1, ·) := by
    rw [List.filter_filterMap, List.filterMap_filter]
    refine congrArg (fun f => m.entries.filterMap f) (funext fun e => ?_)
    cases g e with
    | none => simp
    | some b => by_cases hk : e.1 = k <;> simp [hk]
  rw [get?_ofList, hkeyed, filter_entries]
  cases m.get? k with
  | none => rfl
  | some v => cases hg : g (k, v) <;> simp [hg]

end KeyMap

namespace Validation

open Session Tool

/-! ### Tools that answer the same -/

/-- The tools answer a question in the same way whenever it is asked. -/
structure Tools.Steadfast (t : Tools) : Prop where
  lint : ∀ n m, t.lint n = t.lint m
  format : ∀ n m, t.format n = t.format m
  compile : ∀ compile, t.compile = some compile → ∀ n m, compile n = compile m

/-- Any two sessions. -/
def Whatever (_ _ : Session) : Prop := True

/-- Where the number of a call does not matter, what was called before does not either. -/
lemma Tools.Steadfast.askedAlike {t : Tools} (ht : t.Steadfast) : AskedAlike t Whatever where
  lint _ _ _ _ _ := ⟨ht.lint _ _, trivial⟩
  format _ _ _ _ _ := ⟨ht.format _ _, trivial⟩
  compile compile hcompile _ _ _ _ _ _ := ⟨ht.compile compile hcompile _ _, trivial⟩

/-- What is found out about a file that starts from a text. -/
def resultOf (t : Tools) (c : Config) (fault : Option Fault) (path content text : String) : Result :=
  Session.answer {} (validateOne t c fault path content text)

/-! ### Formatting beforehand -/

/-- What the formatter says of a file. -/
def formatReply (t : Tools) (e : String × String) : Reply String :=
  t.format 1 ((FileKind.ofPath e.1).parser e.1) e.2

/-- The formatter crashes on a file. -/
def crashesOn (t : Tools) (e : String × String) : Bool :=
  match formatReply t e with
  | .crashed _ => true
  | _ => false

/-- A file as the formatter writes it. -/
def formatted? (t : Tools) (e : String × String) : Option String :=
  match formatReply t e with
  | .answered text => some text
  | _ => none

section

variable {t : Tools} (ht : t.Steadfast) {s : Session}

include ht

/-- One crash is enough to lose what was formatted before. -/
lemma answer_formatEach (l : List (String × String)) :
    ∃ results, s.answer (formatEach t (l.map formatJob)) =
        (if l.any (crashesOn t) then none else some results) ∧
      ((l.map formatJob).zip results).filterMap (fun p => p.2.toOption.map (p.1.path, ·)) =
        l.filterMap fun e => (formatted? t e).map (e.1, ·) := by
  induction l generalizing s with
  | nil => exact ⟨[], answer_pure _ _, rfl⟩
  | cons e l ih =>
    have hreply (n : Nat) : t.format n (formatJob e).parser (formatJob e).source = formatReply t e := by
      simp only [formatReply, formatJob, ht.format n 1]
    obtain ⟨results, hanswer, hzip⟩ :=
      ih (s := s.after (note (.format (formatJob e).parser (formatJob e).source)))
    have hany : (e :: l).any (crashesOn t) = (crashesOn t e || l.any (crashesOn t)) := List.any_cons
    rw [List.map_cons, formatEach, answer_bind, hreply, hany]
    cases hr : formatReply t e with
    | crashed detail =>
      have hcrash : crashesOn t e = true := by rw [crashesOn, hr]
      have hnone : formatted? t e = none := by rw [formatted?, hr]
      refine ⟨.error (.inputOutput detail) :: results, ?_, ?_⟩
      · rw [hcrash]
        exact answer_pure _ _
      · rw [List.filterMap_cons, hnone, ← hzip]
        rfl
    | answered text =>
      have hcrash : crashesOn t e = false := by rw [crashesOn, hr]
      have hsome : formatted? t e = some text := by rw [formatted?, hr]
      refine ⟨.ok text :: results, ?_, ?_⟩
      · rw [hcrash, Bool.false_or, answer_bind, hanswer, answer_pure]
        split <;> rfl
      · rw [List.filterMap_cons, hsome, ← hzip]
        rfl
    | failed f =>
      have hcrash : crashesOn t e = false := by rw [crashesOn, hr]
      have hnone : formatted? t e = none := by rw [formatted?, hr]
      refine ⟨.error f :: results, ?_, ?_⟩
      · rw [hcrash, Bool.false_or, answer_bind, hanswer, answer_pure]
        split <;> rfl
      · rw [List.filterMap_cons, hnone, ← hzip]
        rfl

/-- **What a file starts from** when files are formatted one by one. -/
lemma get?_preFormat (hbatch : t.formatAll = none) (files : KeyMap String) (path : String) :
    (s.answer (preFormat t files)).get? path =
      if files.entries.any (crashesOn t) then none
      else (files.get? path).bind fun content => formatted? t (path, content) := by
  obtain ⟨results, hanswer, hzip⟩ := answer_formatEach (s := s) ht files.entries
  have hjobs : formatJobs t (files.entries.map formatJob) = formatEach t (files.entries.map formatJob) := by
    rw [formatJobs, hbatch]
  unfold preFormat
  dsimp only
  split
  · next hempty =>
    have hentries : files.entries = [] := by simpa using hempty
    have hget : files.get? path = none := by
      rw [KeyMap.get?, hentries]
      rfl
    rw [answer_pure, hget, hentries]
    rfl
  · rw [hjobs, answer_bind, hanswer]
    cases files.entries.any (crashesOn t) with
    | true =>
      rw [if_pos rfl, if_pos rfl, answer_pure]
      exact KeyMap.get?_empty path
    | false =>
      rw [if_neg Bool.false_ne_true, if_neg Bool.false_ne_true, answer_pure, hzip]
      exact files.get?_ofList_filterMap (formatted? t) path

end

/-! ### A file among others -/

section

variable {t : Tools} (ht : t.Steadfast) {s : Session} (c : Config)

include ht

lemma answer_validateEach (fault : Option Fault) (ready : KeyMap String) (l : List (String × String)) :
    s.answer (validateEach t c fault ready l) =
      l.map fun e => (e.1, resultOf t c fault e.1 e.2 ((ready.get? e.1).getD e.2)) := by
  induction l generalizing s with
  | nil => exact answer_pure _ _
  | cons e l ih =>
    obtain ⟨path, content⟩ := e
    rw [validateEach, answer_bind, answer_bind, answer_pure, ih, List.map_cons]
    have hone := (steady_validateOne ht.askedAlike path fault c content ((ready.get? path).getD content)
      s {} trivial).1
    rw [hone, resultOf]

/-- The files that could be formatted beforehand, if that is wanted. -/
def readyFiles (t : Tools) (files : KeyMap String) (fault : Option Fault) : Run (KeyMap String) :=
  if fault.isNone && c.preFormat then preFormat t files else pure ∅

omit ht in
lemma validate_eq (files : KeyMap String) : validate t c files = (do
    let fault ← startTools t
    let ready ← readyFiles c t files fault
    let rs ← validateEach t c fault ready files.entries
    return .ofList rs) := by
  unfold validate readyFiles
  refine bind_congr fun fault => ?_
  cases fault.isNone && c.preFormat <;> rfl

/-- The text that a file starts from. -/
def startText (t : Tools) (fault : Option Fault) (files : KeyMap String) (path content : String) : String :=
  if fault.isNone && c.preFormat && !files.entries.any (crashesOn t) then
    (formatted? t (path, content)).getD content
  else content

/-- **The result of a file** in a validation, by the text that it starts from. -/
lemma get?_validate (hbatch : t.formatAll = none) (files : KeyMap String) (path : String) :
    (s.answer (validate t c files)).get? path = (files.get? path).map fun content =>
      resultOf t c (s.answer (startTools t)) path content
        (startText c t (s.answer (startTools t)) files path content) := by
  rw [validate_eq, answer_bind]
  generalize s.answer (startTools t) = fault
  generalize s.after (startTools t) = s₁
  have hready : ∀ content, files.get? path = some content →
      ((s₁.answer (readyFiles c t files fault)).get? path).getD content =
        startText c t fault files path content := by
    intro content hfile
    unfold startText readyFiles
    cases fault.isNone && c.preFormat with
    | false =>
      rw [if_neg Bool.false_ne_true, answer_pure, KeyMap.get?_empty]
      rfl
    | true =>
      have hpre := get?_preFormat ht hbatch (s := s₁) files path
      rw [hfile] at hpre
      rw [if_pos rfl, hpre]
      cases files.entries.any (crashesOn t) <;> rfl
  rw [answer_bind, answer_bind, answer_pure, answer_validateEach ht]
  have hmap (f : String × String → Result) : files.entries.map (fun e => (e.1, f e)) =
      files.entries.filterMap fun e => (some (f e)).map (e.1, ·) :=
    (congrFun List.filterMap_eq_map files.entries).symm
  rw [hmap, KeyMap.get?_ofList_filterMap]
  cases hfile : files.get? path with
  | none => rfl
  | some content =>
    exact congrArg (fun text => some (resultOf t c fault path content text)) (hready content hfile)

end

/-- The file alone. -/
def alone (path content : String) : KeyMap String := .ofList [(path, content)]

lemma get?_alone (path content : String) : (alone path content).get? path = some content :=
  KeyMap.get?_of_mem (m := alone path content) (List.mem_singleton_self (path, content))

lemma entries_alone (path content : String) : (alone path content).entries = [(path, content)] := rfl

lemma formatted?_of_crashesOn {t : Tools} {e : String × String} (h : crashesOn t e = true) :
    formatted? t e = none := by
  unfold crashesOn at h
  unfold formatted?
  cases hr : formatReply t e with
  | crashed detail => rfl
  | failed f => rfl
  | answered text =>
    rw [hr] at h
    exact absurd h Bool.false_ne_true

/-- Alone, a file on which the formatter crashes is not formatted beforehand, and neither is one that
cannot be formatted. -/
lemma startText_alone (t : Tools) (c : Config) (fault : Option Fault) (path content : String) :
    startText c t fault (alone path content) path content =
      if fault.isNone && c.preFormat then (formatted? t (path, content)).getD content else content := by
  rw [startText, entries_alone, List.any_cons, List.any_nil, Bool.or_false]
  cases hcrash : crashesOn t (path, content) with
  | false => rw [Bool.not_false, Bool.and_true]
  | true =>
    rw [formatted?_of_crashesOn hcrash, Bool.not_true, Bool.and_false, if_neg Bool.false_ne_true,
      Option.getD_none, ite_self]

/-- **Files do not influence each other**, with one exception. A file has the result that it has alone,
unless files are formatted beforehand and the formatter crashes on another one; then it has the result
that it has alone when nothing is formatted beforehand. -/
theorem validated_alone {t : Tools} (ht : t.Steadfast) (hbatch : t.formatAll = none) (c : Config)
    {files : KeyMap String} {path content : String} (hfile : files.get? path = some content)
    {s s' : Session} (hstart : s.answer (startTools t) = s'.answer (startTools t)) :
    (∃ r, (s.answer (validate t c files)).get? path = some r) ∧
      ((c.preFormat = true → s.answer (startTools t) = none →
          ∀ e ∈ files.entries, e.1 ≠ path → crashesOn t e = false) →
        (s.answer (validate t c files)).get? path =
          (s'.answer (validate t c (alone path content))).get? path) ∧
      ((∃ e ∈ files.entries, e.1 ≠ path ∧ crashesOn t e = true) →
        (s.answer (validate t c files)).get? path =
          (s'.answer (validate t { c with preFormat := false } (alone path content))).get? path) := by
  have hresult := get?_validate ht (s := s) c hbatch files path
  rw [hfile, Option.map_some] at hresult
  have halone (c : Config) := get?_validate ht (s := s') c hbatch (alone path content) path
  simp only [get?_alone, Option.map_some, startText_alone, ← hstart] at halone
  rw [halone, halone, hresult]
  generalize s.answer (startTools t) = fault
  refine ⟨⟨_, rfl⟩, fun hquiet => ?_, ?_⟩
  · refine congrArg (fun text => some (resultOf t c fault path content text)) ?_
    unfold startText
    cases hready : fault.isNone && c.preFormat with
    | false => rw [Bool.false_and]
    | true =>
      obtain ⟨hfault, hwanted⟩ := Bool.and_eq_true_iff.1 hready
      have hothers := hquiet hwanted (Option.isNone_iff_eq_none.1 hfault)
      cases hself : crashesOn t (path, content) with
      | true => rw [formatted?_of_crashesOn hself, Option.getD_none, ite_self, ite_self]
      | false =>
        have hany : files.entries.any (crashesOn t) = false := by
          refine List.any_eq_false.2 fun e he hcrash => Bool.false_ne_true ?_
          by_cases hpath : e.1 = path
          · have hsame : some content = some e.2 := by rw [← hfile, ← hpath, KeyMap.get?_of_mem he]
            have he : e = (path, content) := Prod.ext hpath (Option.some.inj hsame).symm
            rw [← hself, ← he, hcrash]
          · rw [← hothers e he hpath, hcrash]
        rw [hany, Bool.not_false, Bool.and_true]
  · rintro ⟨e, he, -, hcrash⟩
    have hany : files.entries.any (crashesOn t) = true := List.any_eq_true.2 ⟨e, he, hcrash⟩
    rw [startText, hany, Bool.not_true, Bool.and_false, if_neg Bool.false_ne_true, Bool.and_false,
      if_neg Bool.false_ne_true]
    rfl

/-- The formatter crashes on one text, and the linter warns of another one that is not formatted. -/
def brittleTools : Tools where
  start := fun _ => .ok ()
  lint := fun _ _ source =>
    .answered { messages := if source = "a" then [⟨1, none, "unformatted", none, none⟩] else [] }
  format := fun _ _ source =>
    if source = "boom" then .crashed "boom" else .answered (if source = "a" then "b" else source)
  formatAll := none
  compile := none

lemma brittleTools_steadfast : brittleTools.Steadfast where
  lint := fun _ _ => rfl
  format := fun _ _ => rfl
  compile := fun _ h => absurd h.symm (Option.some_ne_none _)

-- the warning comes from another file on which the formatter crashes
theorem validated_alone_sample :
    let files : KeyMap String := .ofList [("p.js", "a"), ("q.js", "boom")]
    let s : Session := {}
    (files.get? "p.js" = some "a" ∧ ∃ e ∈ files.entries, e.1 ≠ "p.js" ∧ crashesOn brittleTools e = true) ∧
      ((s.answer (validate brittleTools {} files)).get? "p.js").map (·.diagnostics.length) = some 1 ∧
      (s.answer (validate brittleTools {} files)).get? "p.js" =
        (s.answer (validate brittleTools { preFormat := false } (alone "p.js" "a"))).get? "p.js" := by
  intro files s
  have hfile : files.get? "p.js" = some "a" := by decide +kernel
  have hcrash : ∃ e ∈ files.entries, e.1 ≠ "p.js" ∧ crashesOn brittleTools e = true :=
    ⟨("q.js", "boom"), by decide +kernel, by decide, by decide +kernel⟩
  have hstart : s.answer (startTools brittleTools) = s.answer (startTools brittleTools) := rfl
  exact ⟨⟨hfile, hcrash⟩, by decide +kernel,
    (validated_alone brittleTools_steadfast rfl {} hfile hstart).2.2 hcrash⟩

/-- Not every file has the result that it has alone. -/
theorem not_always_validated_alone :
    ¬ ∀ (t : Tools) (c : Config) (files : KeyMap String) (path content : String) (s : Session),
      t.Steadfast → t.formatAll = none → files.get? path = some content →
        (s.answer (validate t c files)).get? path =
          (s.answer (validate t c (alone path content))).get? path := by
  intro h
  have hsame := h brittleTools {} (.ofList [("p.js", "a"), ("q.js", "boom")]) "p.js" "a" {}
    brittleTools_steadfast rfl (by decide +kernel)
  revert hsame
  decide +kernel

end Validation

end Mender
