import Mender.Proofs.Json.Shape
import Mender.Proofs.Reply.Marked
import Mender.Proofs.Reply.Mending

/-!
Values are no fences.

A back quote in the text of a value stands in a string, and so behind the quote that opens it. No
line of such a text is left out as a fence line: what is left of it is the text with plain line
feeds at its line ends, and that spells the same value.
-/

namespace Mender.Reply

open Mender.Text

/-- Something stands in front of each back quote on its line. -/
def Solid (t : List Char) : Prop :=
  ∀ a b, t = a ++ '\x60' :: b → ∃ c ∈ lastLine a, isBlank c = false

namespace Solid

variable {t u : List Char}

lemma of_notMem (h : '\x60' ∉ t) : Solid t := by
  rintro a b rfl
  exact absurd (by simp) h

lemma append (ht : Solid t) (hu : Solid u) : Solid (t ++ u) := by
  intro a b hab
  rcases List.append_eq_append_iff.1 hab with ⟨a', rfl, hu'⟩ | ⟨t', rfl, hb⟩
  · obtain ⟨c, hc, hblank⟩ := hu a' b hu'
    exact ⟨c, (lastLine_suffix t a').subset hc, hblank⟩
  · rcases List.cons_eq_append_iff.1 hb with ⟨rfl, rfl⟩ | ⟨t', rfl, -⟩
    · obtain ⟨c, hc, -⟩ := hu [] b rfl
      cases hc
    · exact ht a t' rfl

/-- The line that a visible character begins. -/
lemma cons {c : Char} (hc : isBlank c = false) (hne : c ≠ '\x60') (hu : '\n' ∉ u) :
    Solid (c :: u) := by
  intro a b hab
  rcases List.cons_eq_append_iff.1 hab with ⟨rfl, hcons⟩ | ⟨a', rfl, rfl⟩
  · exact absurd (List.cons.inj hcons).1.symm hne
  · have hfeed : '\n' ∉ c :: a' := by
      rw [List.mem_cons, not_or]
      refine ⟨?_, fun h => hu (List.mem_append_left _ h)⟩
      rintro rfl
      cases hc
    rw [lastLine_of_notMem hfeed]
    exact ⟨c, List.mem_cons_self, hc⟩

/-- A line of a solid text is no fence line. -/
lemma isFenceLine (h : Solid t) {l : List Char} (hl : l ∈ lines t) : isFenceLine l = false := by
  obtain ⟨x, y, rfl, hline⟩ := mem_lines_iff.1 hl
  rw [← Bool.not_eq_true]
  intro hfence
  obtain ⟨r, hr⟩ := startsWith_iff.1 hfence
  have hsplit : l = l.takeWhile isBlank ++ (fence ++ r) := by
    rw [hr, trimStart, List.takeWhile_append_dropWhile]
  have hfeed : '\n' ∉ l.takeWhile isBlank := fun hm =>
    hline.feedless ((List.takeWhile_sublist _).subset hm)
  obtain ⟨c, hc, hblank⟩ := h (x ++ l.takeWhile isBlank) ("``".toList ++ r ++ y) (by
    conv_lhs => rw [hsplit]
    simp [fence])
  rw [lastLine_append hline.opened hfeed] at hc
  rw [List.mem_takeWhile_imp hc] at hblank
  cases hblank

lemma plainLines (h : Solid t) : plainLines t = lines t :=
  List.filter_eq_self.2 fun _ hl => by rw [h.isFenceLine hl]; rfl

end Solid

lemma composes_solid : Json.Composes Solid where
  nil := Solid.of_notMem List.not_mem_nil
  append := Solid.append
  plain := fun hc => Solid.of_notMem fun hm => by
    rw [← List.mem_singleton.1 hm] at hc
    exact absurd hc (by decide)
  string := fun h => Solid.cons (by decide) (by decide) (h.notMem (by decide))
  object := fun h => (Solid.cons (u := []) (by decide) (by decide) List.not_mem_nil).append
    (h.append (Solid.cons (u := []) (by decide) (by decide) List.not_mem_nil))

/-! ### The text of a value as a candidate -/

variable {t : List Char} {v : Json}

lemma solid_of_parse? (h : Json.parse? t = some v) : Solid t := by
  obtain ⟨b, u, e, rfl, hb, he, hu⟩ := Json.parse?_eq_some_iff.1 h
  exact (composes_solid.spaces hb).append ((composes_solid.spelled hu).append
    (composes_solid.spaces he))

/-- The text begins and ends with something visible. -/
inductive Enclosed : List Char → Prop
  | mk {c d w} (hc : isBlank c = false) (hd : isBlank d = false) : Enclosed (c :: (w ++ [d]))

lemma Enclosed.trim_around {u b e : List Char} (h : Enclosed u) (hb : ∀ c ∈ b, isBlank c = true)
    (he : ∀ c ∈ e, isBlank c = true) : trim (b ++ (u ++ e)) = u := by
  cases h with
  | @mk c d w hc hd =>
    rw [trim, trimStart, List.dropWhile_append_of_pos hb, List.cons_append,
      List.dropWhile_cons_of_neg (by simp [hc]), ← List.cons_append, trimEnd,
      dropTail_append_of_all he, ← List.cons_append, dropTail_concat hd]

lemma enclosed_of_spelled {d : Nat} {u : List Char} (h : Json.Spelled d v u)
    (hv : Json.closer v ≠ []) : Enclosed u := by
  cases v with
  | obj fs =>
    obtain ⟨w, rfl⟩ := h.object
    exact .mk (by decide) (by decide)
  | arr xs =>
    obtain ⟨w, rfl⟩ := h.list
    exact .mk (by decide) (by decide)
  | _ => exact absurd rfl hv

/-- A list or an object begins with an opening character. -/
lemma exists_opener {d : Nat} {u : List Char} (h : Json.Spelled d v u) (hv : Json.closer v ≠ []) :
    ∃ c w, u = c :: w ∧ isOpener c = true := by
  cases v with
  | obj fs =>
    obtain ⟨w, rfl⟩ := h.object
    exact ⟨_, _, rfl, rfl⟩
  | arr xs =>
    obtain ⟨w, rfl⟩ := h.list
    exact ⟨_, _, rfl, rfl⟩
  | _ => exact absurd rfl hv

/-- The text of a list or an object, trimmed. -/
lemma trim_of_parse? (h : Json.parse? t = some v) (hv : Json.closer v ≠ []) :
    Enclosed (trim t) ∧ Json.parse? (trim t) = some v := by
  obtain ⟨b, u, e, rfl, hb, he, hu⟩ := Json.parse?_eq_some_iff.1 h
  have henclosed := enclosed_of_spelled hu hv
  rw [henclosed.trim_around (fun c hc => isBlank_of_isSpace (hb c hc))
    fun c hc => isBlank_of_isSpace (he c hc)]
  exact ⟨henclosed, Json.parse?_eq_some_iff.2 ⟨[], u, [], by simp, Json.spaces_nil,
    Json.spaces_nil, hu⟩⟩

/-- What is made of a candidate that is read as `v`. -/
def judged (allowLists : Bool) : Json → Attempt
  | .obj fs => .parsed (.obj fs)
  | .arr xs => if allowLists then .parsed (.arr xs) else .rejected .listRoot
  | root => .rejected (.scalarRoot root)

lemma attempt_eq {u : List Char} (hne : trim u ≠ []) (allowLists : Bool) :
    attempt allowLists u = ((read? (trim u)).map (judged allowLists)).getD .unreadable := by
  unfold attempt
  split
  · next h => exact absurd h hne
  · split <;> simp_all [judged]

lemma attempt_of_parse? (h : Json.parse? t = some v) (hv : Json.closer v ≠ [])
    (allowLists : Bool) :
    attempt allowLists t = judged allowLists v ∧
      attempt allowLists (trim t) = judged allowLists v := by
  obtain ⟨henclosed, hparse⟩ := trim_of_parse? h hv
  have hself : trim (trim t) = trim t := by
    simpa using henclosed.trim_around (List.forall_mem_nil _) (List.forall_mem_nil _)
  have hne : trim t ≠ [] := by
    intro hnil
    rw [hnil] at henclosed
    cases henclosed
  have hread : read? (trim t) = some v := by rw [read?, hparse, Option.some_or]
  constructor
  · rw [attempt_eq hne, hread]
    rfl
  · rw [attempt_eq (hself.symm ▸ hne), hself, hread]
    rfl

end Mender.Reply
