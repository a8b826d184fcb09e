import Mender.Proofs.Json.Extent
import Mender.Proofs.Text.Blank
import Mender.Reply.Extraction

/-!
Candidates that run on.

Mending leaves the end of a text alone. A candidate that ends in neither a blank nor a closing
bracket is thus no list and no object, as it stands or mended.
-/

namespace Mender.Reply

open Mender.Text

/-- The text goes on behind its last closing bracket. -/
def RunsOn (t : List Char) : Prop :=
  ∃ c, t.getLast? = some c ∧ isBlank c = false ∧ isCloser c = false

lemma isBlank_of_isSpace {c : Char} (h : Json.isSpace c = true) : isBlank c = true := by
  simp only [Json.isSpace, Bool.or_eq_true, beq_iff_eq] at h
  rcases h with ((rfl | rfl) | rfl) | rfl <;> decide

lemma closer_of_parse?_runsOn {t : List Char} {v : Json} (ht : RunsOn t)
    (h : Json.parse? t = some v) : Json.closer v = [] := by
  obtain ⟨c, hlast, hblank, hcloser⟩ := ht
  obtain ⟨x, r, rfl, hr⟩ := Json.exists_closed_of_parse? h
  cases r using List.reverseRecOn with
  | nil =>
    cases v with
    | obj fs =>
      obtain rfl : '}' = c := by simpa [Json.closer] using hlast
      cases hcloser
    | arr xs =>
      obtain rfl : ']' = c := by simpa [Json.closer] using hlast
      cases hcloser
    | _ => rfl
  | append_singleton r d =>
    rw [← List.append_assoc, List.getLast?_concat, Option.some.injEq] at hlast
    rw [← hlast, isBlank_of_isSpace (hr d (by simp))] at hblank
    cases hblank

/-- The characters that mending does not change at the end of a text. -/
def Kept (c : Char) : Prop := c ≠ '\\' ∧ c ≠ '\n' ∧ c ≠ '\r' ∧ c ≠ '\t'

lemma getLast?_of_cons {d c : Char} {r : List Char} (h : (d :: r).getLast? = some c)
    (hd : d ≠ c) : r.getLast? = some c := by
  cases r with
  | nil => exact absurd (by simpa using h) hd
  | cons e r => rwa [List.getLast?_cons_cons] at h

lemma getLast?_put {b : Bool} {cs r : List Char} {d c : Char} (hd : d = c → cs.getLast? = some c)
    (ih : r.getLast? = some c → (mendFrom b r).1.getLast? = some c)
    (h : (d :: r).getLast? = some c) :
    (mendFrom.put cs (mendFrom b r)).1.getLast? = some c := by
  cases r with
  | nil =>
    rw [mendFrom, mendFrom.put, List.append_nil]
    exact hd (by simpa using h)
  | cons e r =>
    rw [List.getLast?_cons_cons] at h
    rw [mendFrom.put, List.getLast?_append, ih h, Option.some_or]

lemma getLast?_mendFrom {b : Bool} {t : List Char} {c : Char} (hc : Kept c)
    (h : t.getLast? = some c) : (mendFrom b t).1.getLast? = some c := by
  obtain ⟨hback, hfeed, hreturn, htab⟩ := hc
  fun_induction mendFrom b t with
  | case1 => cases h
  | case2 n r _ ih =>
    exact getLast?_put (congrArg some) ih (getLast?_of_cons h hback.symm)
  | case3 n r _ ih => exact ih (getLast?_of_cons h hback.symm)
  | case4 r _ ih => exact ih (getLast?_of_cons h hback.symm)
  | case5 r _ _ ih => exact getLast?_put (congrArg some) ih h
  | case6 r _ _ _ ih => exact getLast?_put (fun hd => absurd hd.symm hfeed) ih h
  | case7 r _ _ _ _ ih => exact getLast?_put (fun hd => absurd hd.symm hreturn) ih h
  | case8 r _ _ _ _ _ ih => exact getLast?_put (fun hd => absurd hd.symm htab) ih h
  | case9 d r _ _ _ _ _ _ ih => exact getLast?_put (congrArg some) ih h
  | case10 r ih => exact getLast?_put (congrArg some) ih h
  | case11 d r _ hcomma ih =>
    -- a comma that ends the text is not in front of a closing bracket
    cases r with
    | nil => exact absurd hcomma.2 (by decide)
    | cons e r => exact ih (by rwa [List.getLast?_cons_cons] at h)
  | case12 d r _ _ ih => exact getLast?_put (congrArg some) ih h

lemma straighten_cases (c : Char) : straighten c ∈ ['"', '\'', c] := by
  unfold straighten
  split <;> simp

/-- A text that runs on, not with a backslash, still does so when it is mended. -/
lemma runsOn_mendEscapes {t : List Char} {c : Char} (hlast : t.getLast? = some c)
    (hblank : isBlank c = false) (hcloser : isCloser c = false) (hback : c ≠ '\\') :
    RunsOn (mendEscapes t) := by
  have hall : ∀ d ∈ ['"', '\'', c], Kept d ∧ isBlank d = false ∧ isCloser d = false := by
    simp only [List.forall_mem_cons, List.not_mem_nil, false_imp_iff, implies_true, and_true]
    refine ⟨by simp [Kept]; decide, by simp [Kept]; decide, ⟨hback, ?_, ?_, ?_⟩, hblank, hcloser⟩
    all_goals
      rintro rfl
      cases hblank
  obtain ⟨hkept, hb, hcl⟩ := hall _ (straighten_cases c)
  have hend : (mendFrom false (t.map straighten)).1.getLast? = some (straighten c) :=
    getLast?_mendFrom hkept (by rw [List.getLast?_map, hlast, Option.map_some])
  unfold mendEscapes
  split
  · next out hout =>
    -- the string is closed behind the last character
    rw [hout] at hend
    obtain ⟨o, rfl⟩ := List.getLast?_eq_some_iff.1 hend
    refine ⟨'"', ?_, by decide, by decide⟩
    rw [closeString, trimEnd, dropTail_concat hb, dropTail_concat hcl]
    simp
  · next out hout =>
    rw [hout] at hend
    exact ⟨_, hend, hb, hcl⟩

/-- A candidate that runs on, not with a backslash, is refused. -/
lemma attempt_of_runsOn {candidate : List Char} {c : Char} (hlast : candidate.getLast? = some c)
    (hblank : isBlank c = false) (hcloser : isCloser c = false) (hback : c ≠ '\\')
    (allowLists : Bool) : attempt allowLists candidate = .unreadable ∨
      ∃ root, attempt allowLists candidate = .rejected (.scalarRoot root) := by
  have hend := getLast?_trim hlast hblank
  have hread : ∀ v, read? (trim candidate) = some v → Json.closer v = [] := by
    intro v hv
    rcases Option.or_eq_some_iff.1 hv with hv | ⟨-, hv⟩
    · exact closer_of_parse?_runsOn ⟨c, hend, hblank, hcloser⟩ hv
    · exact closer_of_parse?_runsOn (runsOn_mendEscapes hend hblank hcloser hback) hv
  unfold attempt
  split
  · exact .inl rfl
  · split
    · exact .inl rfl
    · next hobj => cases hread _ hobj
    · next harr => cases hread _ harr
    · exact .inr ⟨_, rfl⟩

/-- Mending leaves a brace in front of a text alone. -/
lemma exists_mendEscapes_brace (t : List Char) : ∃ r, mendEscapes ('{' :: t) = '{' :: r := by
  have hmend : mendFrom false (('{' :: t).map straighten) =
      mendFrom.put ['{'] (mendFrom false (t.map straighten)) := by
    have hcomma : ¬ ('{' = ',' ∧ closesNext (t.map straighten) = true) :=
      fun h => absurd h.1 (by decide)
    rw [List.map_cons, show straighten '{' = '{' from rfl, mendFrom, if_neg (by decide),
      if_neg hcomma]
  unfold mendEscapes
  rw [hmend, mendFrom.put]
  split
  · next hout =>
    rw [← (Prod.mk.inj hout).1, closeString, trimEnd, List.singleton_append,
      dropTail_cons (by decide), dropTail_cons (by decide)]
    exact ⟨_, rfl⟩
  · next hout => exact ⟨_, (Prod.mk.inj hout).1.symm⟩

end Mender.Reply
