import Mathlib.Data.List.DropRight
import Mathlib.Data.List.Induction
import Mathlib.Tactic.Common
import Mathlib.Tactic.Lemma
import Mender.Session

/-!
What a store holds, file by file.

A request changes what is held of its own file, by what was held of it before, and of no other file.
So what is held of a file can be read off the requests about this very file: the content put last, the
end of the memory saved last, and all the records added, in their order. Requests about other files may
stand anywhere between these.
-/

namespace Mender

/-- What is held of a file. -/
structure Dossier where
  file : Option FileRecord
  memory : List String
  audits : List Audit
  deriving DecidableEq

def Store.dossier (k : FileKey) (s : Store) : Dossier := ⟨s.file? k, s.memory k, s.auditsOf k⟩

namespace StoreRequest

/-- A record that is added is one of this file. -/
def About (key : FileKey) : StoreRequest → Prop
  | .appendAudit record => record.key = key
  | _ => True

/-- What is held of a file after a request that is about it. -/
def enter (key : FileKey) (d : Dossier) : StoreRequest → Dossier
  | .readFile | .loadMemory => d
  | .upsertFile content => { d with file := some ⟨key, content⟩ }
  | .saveMemory entries => { d with memory := bound entries }
  | .appendAudit record => { d with audits := d.audits ++ [record] }

end StoreRequest

lemma valueAt_cons {α : Type} (k k' : FileKey) (a : α) (l : List (FileKey × α)) :
    valueAt k ((k', a) :: l) = if k' = k then some a else valueAt k l := by
  unfold valueAt
  rw [List.find?_cons]
  by_cases h : k' = k
  · rw [if_pos h, beq_iff_eq.2 h]
    rfl
  · rw [if_neg h, beq_false_of_ne h]

namespace Store

variable {k k' : FileKey} {q : StoreRequest} (s : Store)

lemma dossier_perform (h : q.About k) : (q.perform k s).dossier k = q.enter k (s.dossier k) := by
  cases q with
  | readFile | loadMemory => rfl
  | upsertFile content => simp [StoreRequest.perform, StoreRequest.enter, dossier, putFile, file?,
      valueAt_cons, memory, auditsOf]
  | saveMemory entries => simp [StoreRequest.perform, StoreRequest.enter, dossier, putMemory, memory,
      valueAt_cons, file?, auditsOf]
  | appendAudit record =>
    have hrecord : record.key = k := h
    simp [StoreRequest.perform, StoreRequest.enter, dossier, addAudit, memory, file?, auditsOf, hrecord]

lemma dossier_perform_of_ne (h : q.About k) (hne : k' ≠ k) :
    (q.perform k s).dossier k' = s.dossier k' := by
  cases q with
  | readFile | loadMemory => rfl
  | upsertFile content => simp [StoreRequest.perform, dossier, putFile, file?, valueAt_cons, memory,
      auditsOf, hne.symm]
  | saveMemory entries => simp [StoreRequest.perform, dossier, putMemory, memory, valueAt_cons, file?,
      auditsOf, hne.symm]
  | appendAudit record =>
    have hrecord : record.key = k := h
    simp [StoreRequest.perform, dossier, addAudit, memory, file?, auditsOf, hrecord, hne.symm]

end Store

/-! ### The history of a store -/

/-- A request with the file that it is made for. -/
structure Asked where
  key : FileKey
  request : StoreRequest
  deriving DecidableEq

namespace Asked

/-- The file that a request is about; a record tells of itself what file it belongs to. -/
def subject (q : Asked) : FileKey :=
  match q.request with
  | .appendAudit record => record.key
  | _ => q.key

/-- The content that is put for a file. -/
def content? (k : FileKey) (q : Asked) : Option String :=
  match q.request with
  | .upsertFile content => if q.key = k then some content else none
  | _ => none

/-- The memory that is saved for a file. -/
def memory? (k : FileKey) (q : Asked) : Option (List String) :=
  match q.request with
  | .saveMemory entries => if q.key = k then some entries else none
  | _ => none

/-- The record that is added for a file. -/
def record? (k : FileKey) (q : Asked) : Option Audit :=
  match q.request with
  | .appendAudit record => if record.key = k then some record else none
  | _ => none

/-- The store after the request. -/
def perform (q : Asked) (s : Store) : Store := q.request.perform q.key s

variable {k : FileKey} {q : Asked}

lemma about_subject (q : Asked) : q.request.About q.subject := by
  obtain ⟨key, request⟩ := q
  cases request <;> trivial

/-- Only a record may belong to another file than the one it is added for. -/
lemma perform_eq (q : Asked) (s : Store) : q.perform s = q.request.perform q.subject s := by
  obtain ⟨key, request⟩ := q
  cases request <;> rfl

/-- **One request** changes what is held of its own file, and of no other one. -/
lemma dossier_perform (q : Asked) (k : FileKey) (s : Store) :
    (q.perform s).dossier k =
      if q.subject = k then q.request.enter k (s.dossier k) else s.dossier k := by
  rw [perform_eq]
  split
  · next h => exact h ▸ s.dossier_perform q.about_subject
  · next h => exact s.dossier_perform_of_ne q.about_subject (Ne.symm h)

lemma content?_of_ne (h : q.subject ≠ k) : q.content? k = none := by
  obtain ⟨key, request⟩ := q
  cases request with
  | upsertFile content => exact if_neg h
  | _ => rfl

lemma memory?_of_ne (h : q.subject ≠ k) : q.memory? k = none := by
  obtain ⟨key, request⟩ := q
  cases request with
  | saveMemory entries => exact if_neg h
  | _ => rfl

lemma record?_of_ne (h : q.subject ≠ k) : q.record? k = none := by
  obtain ⟨key, request⟩ := q
  cases request with
  | appendAudit record => exact if_neg h
  | _ => rfl

end Asked

namespace Store

/-- The store after some requests, which was empty before them. -/
def ofHistory (history : List Asked) : Store := history.foldl (fun s q => q.perform s) {}

lemma ofHistory_concat (history : List Asked) (q : Asked) :
    ofHistory (history ++ [q]) = q.perform (ofHistory history) := by
  rw [ofHistory, List.foldl_append]
  rfl

end Store

/-- What a history says of a file. -/
def Dossier.ofHistory (k : FileKey) (history : List Asked) : Dossier where
  file := (history.filterMap (Asked.content? k)).getLast?.map (⟨k, ·⟩)
  memory := ((history.filterMap (Asked.memory? k)).getLast?.getD []).rtake 12
  audits := history.filterMap (Asked.record? k)

namespace Dossier

variable {k : FileKey} {history : List Asked} {q : Asked}

lemma ofHistory_concat_of_ne (h : q.subject ≠ k) :
    ofHistory k (history ++ [q]) = ofHistory k history := by
  simp [ofHistory, Asked.content?_of_ne h, Asked.memory?_of_ne h, Asked.record?_of_ne h]

lemma ofHistory_concat (h : q.subject = k) :
    ofHistory k (history ++ [q]) = q.request.enter k (ofHistory k history) := by
  obtain ⟨key, request⟩ := q
  obtain rfl := h
  cases request with
  | readFile | loadMemory => simp [ofHistory, Asked.content?, Asked.memory?, Asked.record?,
      StoreRequest.enter, Asked.subject]
  | upsertFile content => simp [ofHistory, Asked.content?, Asked.memory?, Asked.record?,
      StoreRequest.enter, Asked.subject]
  | saveMemory entries => simp [ofHistory, Asked.content?, Asked.memory?, Asked.record?,
      StoreRequest.enter, Asked.subject, bound, memoryLimit, List.rtake]
  | appendAudit record => simp [ofHistory, Asked.content?, Asked.memory?, Asked.record?,
      StoreRequest.enter, Asked.subject]

end Dossier

namespace Store

/-- **What is held of a file** is what the history says of it. -/
theorem dossier_ofHistory (k : FileKey) (history : List Asked) :
    (ofHistory history).dossier k = .ofHistory k history := by
  induction history using List.reverseRecOn with
  | nil => rfl
  | append_singleton history q ih =>
    rw [ofHistory_concat, Asked.dossier_perform, ih]
    split
    · next h => rw [Dossier.ofHistory_concat h]
    · next h => rw [Dossier.ofHistory_concat_of_ne h]

/-- A request about another file may be left out of the history, wherever it stands. -/
lemma dossier_ofHistory_of_ne {k : FileKey} {q : Asked} (h : q.subject ≠ k) (before behind : List Asked) :
    (ofHistory (before ++ q :: behind)).dossier k = (ofHistory (before ++ behind)).dossier k := by
  rw [dossier_ofHistory, dossier_ofHistory]
  simp [Dossier.ofHistory, Asked.content?_of_ne h, Asked.memory?_of_ne h, Asked.record?_of_ne h]

/-- **The store keeps what it is given.** Of every file it gives back the content put last, with the
digest of it, the last twelve entries of the memory saved last, and the records added for it, each
once and in order. Nothing that concerns another file changes this. -/
theorem history_kept (history : List Asked) (k : FileKey) :
    let s := ofHistory history
    (s.file? k).map (fun r => (r.key, r.content, r.digest)) =
        (history.filterMap (Asked.content? k)).getLast?.map (fun c => (k, c, Digest.ofText c)) ∧
      s.memory k = ((history.filterMap (Asked.memory? k)).getLast?.getD []).rtake 12 ∧
      s.auditsOf k = history.filterMap (Asked.record? k) ∧
      ∀ before q behind, history = before ++ q :: behind → q.subject ≠ k →
        s.dossier k = (ofHistory (before ++ behind)).dossier k := by
  intro s
  have hdossier : s.dossier k = .ofHistory k history := dossier_ofHistory k history
  have hfile : s.file? k = (history.filterMap (Asked.content? k)).getLast?.map (⟨k, ·⟩) :=
    congrArg Dossier.file hdossier
  refine ⟨?_, congrArg Dossier.memory hdossier, congrArg Dossier.audits hdossier, ?_⟩
  · rw [hfile, Option.map_map]
    rfl
  · rintro before q behind rfl hne
    exact dossier_ofHistory_of_ne hne before behind

/-- Two files of two projects, whose names run together to the same text. -/
def sampleHistory : List Asked :=
  let k : FileKey := ⟨"a", "bc"⟩
  let k' : FileKey := ⟨"ab", "c"⟩
  [⟨k, .upsertFile "x"⟩, ⟨k', .upsertFile "y"⟩, ⟨k, .appendAudit ⟨k, 1, 0, "catalog", 0⟩⟩,
    ⟨k', .saveMemory ["other"]⟩, ⟨k, .saveMemory ((List.range 13).map fun n => s!"note {n}")⟩,
    ⟨k', .appendAudit ⟨k', 2, 1, "original", 0⟩⟩, ⟨k, .upsertFile "z"⟩]

theorem history_kept_sample :
    let k : FileKey := ⟨"a", "bc"⟩
    let s := ofHistory sampleHistory
    (s.file? k).map FileRecord.content = some "z" ∧ s.memory k ≠ [] ∧ (s.auditsOf k).length = 1 ∧
      s.dossier k = (ofHistory (sampleHistory.eraseIdx 1)).dossier k := by
  intro k s
  obtain ⟨hfile, hmemory, haudits, hothers⟩ := history_kept sampleHistory k
  refine ⟨?_, ?_, ?_, ?_⟩
  · have hcontent := congrArg (Option.map fun r => r.2.1) hfile
    rw [Option.map_map, Option.map_map] at hcontent
    exact hcontent
  · rw [hmemory]
    decide
  · rw [haudits]
    decide
  · exact hothers (sampleHistory.take 1) _ (sampleHistory.drop 2) rfl (by decide)

end Store

end Mender
