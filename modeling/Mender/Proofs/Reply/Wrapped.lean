import Mathlib
import Mender.Proofs.Reply.Blocks

/-!
A value on lines of its own, with prose around it.

What is left of the reply is the text of the value with some of the prose in front of it and some
behind it. Only when nothing visible is left behind it is the value read directly. Otherwise the
balanced blocks are tried: an object is the first of them, and of a list at most an object in it
is found.
-/

namespace Mender.Reply

open Mender.Text

/-- The characters that open or close a list or an object, and the backslash. -/
def structural : List Char := "\x7b\x7d[]\\".toList

/-- Prose in which nothing opens or closes. -/
structure Bare (t : List Char) : Prop where
  plain : ∀ c ∈ t, c ∉ structural
  unmarked : ¬ startMark <:+: t

instance : DecidablePred Bare := fun t =>
  decidable_of_iff (t.all (fun c => !structural.contains c) = true ∧ ¬ startMark <:+: t)
    ⟨fun h => ⟨by simpa using h.1, h.2⟩, fun h => ⟨by simpa using h.plain, h.unmarked⟩⟩

lemma Bare.ne_of_mem {t : List Char} (h : Bare t) {c : Char} (hc : c ∈ t) {d : Char}
    (hd : d ∈ structural) : c ≠ d := fun he => h.plain c hc (he ▸ hd)

/-- A text on lines of its own between two others. -/
def onLines (before text after : List Char) : List Char := before ++ '\n' :: (text ++ '\n' :: after)

/-- A text in a code fence between two others. -/
def inFence (before text after : List Char) : List Char :=
  before ++ "\n```json\n".toList ++ text ++ "\n```\n".toList ++ after

variable {before text after : List Char} {v : Json}

lemma dropFences_onLines (h : Solid (text ++ ['\n'])) : dropFences (onLines before text after) =
    linesBefore before ++ (unlines (lines (text ++ ['\n'])) ++ linesBehind after) :=
  dropFences_between h.plainLines before after

/-- Fence lines are left out. -/
lemma dropFences_inFence (h : Solid (text ++ ['\n'])) : dropFences (inFence before text after) =
    dropFences (onLines before text after) := by
  have hlines : inFence before text after =
      onLines (before ++ '\n' :: "```json".toList) text (fence ++ '\n' :: after) := by
    simp [inFence, onLines, fence]
  rw [hlines, dropFences_onLines h, dropFences_onLines h,
    linesBefore_fence (by decide) (by decide) (by decide),
    linesBehind_fence (by decide) (by decide) (by decide)]

lemma startMark_not_infix_onLines (hs : Solid (text ++ ['\n'])) (ht : ¬ startMark <:+: text)
    (hb : Bare before) (ha : Bare after) :
    ¬ startMark <:+: dropFences (onLines before text after) := by
  have hfeed {t : List Char} (h : startMark <:+: t ++ ['\n']) : startMark <:+: t :=
    ((infix_append_cons_iff (by decide)).1 h).resolve_right (by decide)
  rw [dropFences_onLines hs, linesBefore, linesBehind,
    ← unlines_around _ (lines_ne_nil (by simp)), infix_unlines_iff (by decide) (by decide)]
  rintro ⟨l, hl, hm⟩
  simp only [List.mem_append] at hl
  rcases hl with hl | hl | hl
  · exact hb.unmarked (hfeed (infix_of_mem_plainLines hl hm))
  · exact ht (hfeed (hm.trans (infix_of_mem_lines hl)))
  · exact ha.unmarked (infix_of_mem_plainLines hl hm)

/-! ### What is tried -/

lemma isOpener_of_isBlank {c : Char} (h : isBlank c = true) : isOpener c = false := by
  rw [isOpener, Bool.or_eq_false_iff, beq_eq_false_iff_ne, beq_eq_false_iff_ne]
  constructor <;> rintro rfl <;> exact absurd h (by decide)

/-- The text is tried from its first brace or bracket on, which is where the value begins. -/
lemma exists_dropPreamble {a t : List Char} (ha : ∀ c ∈ a, isOpener c = false)
    (ht : Json.parse? t = some v) (hv : Json.closer v ≠ []) (s : List Char) :
    ∃ u e, Json.Spelled Json.depthLimit v u ∧ Json.Spaces e ∧
      dropPreamble (a ++ (t ++ s)) = trimEnd (u ++ (e ++ s)) := by
  obtain ⟨b, u, e, rfl, hb, he, hu⟩ := Json.parse?_eq_some_iff.1 ht
  obtain ⟨c, w, rfl, hc⟩ := exists_opener hu hv
  refine ⟨c :: w, e, hu, he, ?_⟩
  have hfront : ∀ d ∈ a ++ b, isOpener d = false :=
    List.forall_mem_append.2 ⟨ha, fun d hd => isOpener_of_isBlank (isBlank_of_isSpace (hb d hd))⟩
  have hassoc : a ++ (b ++ (c :: w ++ e) ++ s) = a ++ b ++ c :: (w ++ (e ++ s)) := by simp
  rw [hassoc, dropPreamble_append hfront hc]
  rfl

lemma trimEnd_of_spelled {d : Nat} {u r : List Char} (h : Json.Spelled d v u)
    (hv : Json.closer v ≠ []) (hr : ∀ c ∈ r, isBlank c = true) : trimEnd (u ++ r) = u := by
  have henclosed := enclosed_of_spelled h hv
  cases henclosed with
  | mk hc hd =>
    rw [trimEnd, dropTail_append_of_all hr, ← List.cons_append, dropTail_concat hd]

/-- A value that nothing visible follows is tried as it stands. -/
lemma attempt_spelled {u : List Char} (h : Json.Spelled Json.depthLimit v u)
    (hv : Json.closer v ≠ []) (allowLists : Bool) :
    attempt allowLists u = judged allowLists v :=
  (attempt_of_parse? (Json.parse?_eq_some_iff.2 ⟨[], u, [], by simp, Json.spaces_nil,
    Json.spaces_nil, h⟩) hv allowLists).1

/-- **The text of a list or an object** and nothing else is judged as it is read. -/
theorem extractWith_text (ht : Json.parse? text = some v) (hv : Json.closer v ≠ [])
    (hm : ¬ startMark <:+: text) (allowLists : Bool) :
    ∃ u, extractWith allowLists text = settled allowLists text u (judged allowLists v) := by
  have hlines : dropFences text = unlines (lines text) := by
    rw [dropFences]
    exact congrArg unlines (solid_of_parse? ht).plainLines
  have hunmarked : ¬ startMark <:+: dropFences text := by
    rw [hlines, infix_unlines_iff (by decide) (by decide)]
    rintro ⟨l, hl, h⟩
    exact hm (h.trans (infix_of_mem_lines hl))
  obtain ⟨u, e, hu, he, hdrop⟩ := exists_dropPreamble (a := []) (s := [])
    (List.forall_mem_nil _) (Json.parse?_unlines_lines ht) hv
  rw [List.nil_append, List.append_nil, List.append_nil,
    trimEnd_of_spelled hu hv fun c hc => isBlank_of_isSpace (he c hc)] at hdrop
  exact ⟨u, by rw [extractWith_of_unmarked hunmarked, hlines, hdrop, attempt_spelled hu hv]⟩

/-! ### A value among prose -/

/-- Blanks behind the value and the lines behind it have no bracket, brace or backslash. -/
lemma ne_structural_of_mem_rest {after e : List Char} (he : Json.Spaces e) (ha : Bare after)
    {c d : Char} (hc : c ∈ e ++ linesBehind after) (hd : d ∈ structural) : c ≠ d := by
  rcases List.mem_append.1 hc with hc | hc
  · rintro rfl
    have hall : structural.all (fun d => !Json.isSpace d) = true := by decide
    have := List.all_eq_true.1 hall c hd
    rw [he c hc] at this
    cases this
  · rcases mem_of_mem_linesBehind hc with rfl | hc
    · rintro rfl
      exact absurd hd (by decide)
    · exact ha.ne_of_mem hc hd

section Among

variable (ht : Json.parse? text = some v) (hv : Json.closer v ≠ []) (hm : ¬ startMark <:+: text)
  (hb : Bare before) (ha : Bare after)
include ht hv hm hb ha

/-- What is left of the reply: the value, and what is left of the prose behind it. -/
lemma exists_dropPreamble_onLines : ¬ startMark <:+: dropFences (onLines before text after) ∧
    ∃ u e, Json.Spelled Json.depthLimit v u ∧ Json.Spaces e ∧
      dropPreamble (dropFences (onLines before text after)) =
        trimEnd (u ++ (e ++ linesBehind after)) := by
  have hfeed : Json.Spaces ['\n'] := fun c hc => by rw [List.mem_singleton.1 hc]; rfl
  have hread : Json.parse? (text ++ ['\n']) = some v := Json.parse?_append_spaces hfeed ht
  have hsolid := solid_of_parse? hread
  have hfront : ∀ c ∈ linesBefore before, isOpener c = false := by
    intro c hc
    rcases mem_of_mem_linesBefore hc with rfl | hc
    · rfl
    · rw [isOpener, Bool.or_eq_false_iff, beq_eq_false_iff_ne, beq_eq_false_iff_ne]
      exact ⟨hb.ne_of_mem hc (by decide), hb.ne_of_mem hc (by decide)⟩
  refine ⟨startMark_not_infix_onLines hsolid hm hb ha, ?_⟩
  rw [dropFences_onLines hsolid]
  exact exists_dropPreamble hfront (Json.parse?_unlines_lines hread) hv _

variable {raw : List Char} (hraw : dropFences raw = dropFences (onLines before text after))
include hraw

/-- When nothing visible is left behind it the value is judged as it is read. -/
theorem extractWith_of_blank_behind (hblank : ∀ c ∈ linesBehind after, isBlank c = true)
    (allowLists : Bool) :
    ∃ u, extractWith allowLists raw = settled allowLists raw u (judged allowLists v) := by
  obtain ⟨hunmarked, u, e, hu, he, hdrop⟩ := exists_dropPreamble_onLines ht hv hm hb ha
  have hrest : ∀ c ∈ e ++ linesBehind after, isBlank c = true :=
    List.forall_mem_append.2 ⟨fun c hc => isBlank_of_isSpace (he c hc), hblank⟩
  rw [trimEnd_of_spelled hu hv hrest] at hdrop
  rw [← hraw] at hunmarked hdrop
  exact ⟨u, by rw [extractWith_of_unmarked hunmarked, hdrop, attempt_spelled hu hv]⟩

/-- **When something visible is left behind it** the value is searched for among the balanced
blocks. -/
theorem extractWith_of_prose_behind (hprose : ¬ ∀ c ∈ linesBehind after, isBlank c = true) :
    ∃ u s, Json.Spelled Json.depthLimit v u ∧ '}' ∉ s ∧ dropPreamble (dropFences raw) = u ++ s ∧
      ∀ allowLists, ∃ last, last ≠ some .listRoot ∧
        extractWith allowLists raw = searched allowLists raw (u ++ s) last := by
  obtain ⟨hunmarked, u, e, hu, he, hdrop⟩ := exists_dropPreamble_onLines ht hv hm hb ha
  have hvisible : ∃ c ∈ e ++ linesBehind after, isBlank c = false := by
    push Not at hprose
    obtain ⟨c, hc, hblank⟩ := hprose
    exact ⟨c, List.mem_append_right _ hc, by simpa using hblank⟩
  have hbare : ∀ c ∈ e ++ linesBehind after, ∀ d ∈ structural, c ≠ d :=
    fun c hc d hd => ne_structural_of_mem_rest he ha hc hd
  obtain ⟨s, d, hs, hd, hmem⟩ := exists_dropTail_eq hvisible
  have hne : dropTail isBlank (e ++ linesBehind after) ≠ [] := by simp [hs]
  rw [trimEnd, dropTail_append_of_ne_nil hne, hs] at hdrop
  rw [← hraw] at hunmarked hdrop
  refine ⟨u, s ++ [d], hu, fun hbrace => ?_, hdrop, fun allowLists => ?_⟩
  · rw [← hs] at hbrace
    have hsub := (dropTail_eq_rdropWhile (p := isBlank) (e ++ linesBehind after)) ▸ hbrace
    exact hbare '}' ((List.rdropWhile_prefix _ _).subset hsub) '}' (by decide) rfl
  · have hlast : (u ++ (s ++ [d])).getLast? = some d := by simp
    have hcloser : isCloser d = false := by
      rw [isCloser, Bool.or_eq_false_iff, beq_eq_false_iff_ne, beq_eq_false_iff_ne]
      exact ⟨hbare d hmem _ (by decide), hbare d hmem _ (by decide)⟩
    rw [extractWith_of_unmarked hunmarked, hdrop]
    rcases attempt_of_runsOn hlast hd hcloser (hbare d hmem _ (by decide)) allowLists with
      h | ⟨root, h⟩
    · exact ⟨none, by simp, by rw [h]; rfl⟩
    · exact ⟨some (.scalarRoot root), by simp, by rw [h]; rfl⟩

end Among

/-! ### Objects and lists -/

/-- **An object survives its wrapping**: alone and in a fence among prose it is found. -/
theorem object_found_wrapped {fs : List (String × Json)} (ht : Json.parse? text = some (.obj fs))
    (hm : ¬ startMark <:+: text) (hb : Bare before) (ha : Bare after) :
    (extract text).data? = some (.obj fs) ∧
      (extract (inFence before text after)).data? = some (.obj fs) := by
  have hv : Json.closer (.obj fs) ≠ [] := List.cons_ne_nil _ _
  have hsolid : Solid (text ++ ['\n']) := (solid_of_parse? ht).append (Solid.of_notMem (by decide))
  constructor
  · obtain ⟨u, hu⟩ := extractWith_text ht hv hm true
    rw [extract, hu]
    rfl
  · by_cases hblank : ∀ c ∈ linesBehind after, isBlank c = true
    · obtain ⟨u, hu⟩ := extractWith_of_blank_behind ht hv hm hb ha (dropFences_inFence hsolid)
        hblank true
      rw [extract, hu]
      rfl
    · obtain ⟨u, s, hu, hs, -, hall⟩ := extractWith_of_prose_behind ht hv hm hb ha
        (dropFences_inFence hsolid) hblank
      obtain ⟨last, -, hsearched⟩ := hall true
      rw [extract, hsearched, searched_object hu hs]
      rfl

/-- Braces and quotes in the strings of the object, prose on both sides. -/
theorem object_found_wrapped_prose :
    Json.parse? "\x7b\"\x7d \\\"\x7b\": [1, \x7b\x7d]\r\n\x7d".toList =
        some (.obj [("\x7d \"\x7b", .arr [.int 1, .obj []])]) ∧
      (extract (inFence "Here it is:".toList
        "\x7b\"\x7d \\\"\x7b\": [1, \x7b\x7d]\r\n\x7d".toList "Let me know.".toList)).data? =
          some (.obj [("\x7d \"\x7b", .arr [.int 1, .obj []])]) := by
  have ht : Json.parse? "\x7b\"\x7d \\\"\x7b\": [1, \x7b\x7d]\r\n\x7d".toList =
      some (.obj [("\x7d \"\x7b", .arr [.int 1, .obj []])]) := by cbv
  exact ⟨ht, (object_found_wrapped ht (by decide) (by decide) (by decide)).2⟩

/-- **A list survives its wrapping** only when nothing visible is left behind it. Otherwise objects
in it are found, or nothing is. -/
theorem list_found_wrapped_iff {xs : List Json} (ht : Json.parse? text = some (.arr xs))
    (hm : ¬ startMark <:+: text) (hb : Bare before) (ha : Bare after) :
    ((extract text).data? = some (.arr xs) ∧
        ∃ f, extractWith false text = .failed .listRoot f) ∧
      ((extract (onLines before text after)).data? = some (.arr xs) ↔
        ∀ c ∈ linesBehind after, isBlank c = true) ∧
      ((∃ f, extractWith false (onLines before text after) = .failed .listRoot f) ↔
        ∀ c ∈ linesBehind after, isBlank c = true) ∧
      ((extractWith false (onLines before text after)).isFailure = true ↔
        (∀ c ∈ linesBehind after, isBlank c = true) ∨
          ∀ b ∈ balancedBlocks (dropPreamble (dropFences (onLines before text after))),
            read? b = none) := by
  have hv : Json.closer (.arr xs) ≠ [] := List.cons_ne_nil _ _
  refine ⟨⟨?_, ?_⟩, ?_⟩
  · obtain ⟨u, hu⟩ := extractWith_text ht hv hm true
    rw [extract, hu]
    rfl
  · obtain ⟨u, hu⟩ := extractWith_text ht hv hm false
    exact ⟨_, hu⟩
  by_cases hblank : ∀ c ∈ linesBehind after, isBlank c = true
  · have hall := extractWith_of_blank_behind ht hv hm hb ha rfl hblank
    obtain ⟨u, hu⟩ := hall true
    obtain ⟨u', hu'⟩ := hall false
    refine ⟨iff_of_true ?_ hblank, iff_of_true ⟨_, hu'⟩ hblank, iff_of_true ?_ (.inl hblank)⟩
    · rw [extract, hu]
      rfl
    · rw [hu']
      rfl
  · obtain ⟨u, s, hu, hs, hdrop, hall⟩ := extractWith_of_prose_behind ht hv hm hb ha rfl hblank
    obtain ⟨last, hlast, hsearched⟩ := hall true
    obtain ⟨last', hlast', hsearched'⟩ := hall false
    refine ⟨iff_of_false (fun h => ?_) hblank, iff_of_false (fun h => ?_) hblank, ?_⟩
    · rw [extract, hsearched] at h
      obtain ⟨fs, hfs⟩ := exists_searched_data _ _ _ _ h
      cases hfs
    · obtain ⟨f, hf⟩ := h
      rw [hsearched'] at hf
      exact searched_ne_listRoot _ _ _ _ hlast' f hf
    · rw [or_iff_right hblank, hsearched', hdrop, isFailure_searched_iff]

/-- Blanks behind the list. -/
theorem list_found_before_blanks :
    Json.parse? "[\x7b\"a\":1\x7d]".toList = some (.arr [.obj [("a", .int 1)]]) ∧
      (extract (onLines "Here:".toList "[\x7b\"a\":1\x7d]".toList " \n".toList)).data? =
        some (.arr [.obj [("a", .int 1)]]) := by
  have ht : Json.parse? "[\x7b\"a\":1\x7d]".toList = some (.arr [.obj [("a", .int 1)]]) := by cbv
  have hblank : (linesBehind " \n".toList).all isBlank = true := by decide
  exact ⟨ht, (list_found_wrapped_iff ht (by decide) (by decide) (by decide)).2.1.2
    (List.all_eq_true.1 hblank)⟩

/-- One word behind the list, and an object in it is found, also when lists are refused. -/
theorem list_lost_before_prose :
    Bare "Here:".toList ∧ Bare "Done.".toList ∧ ¬ startMark <:+: "[\x7b\"a\":1\x7d]".toList ∧
      Json.parse? "[\x7b\"a\":1\x7d]".toList = some (.arr [.obj [("a", .int 1)]]) ∧
      ∀ allowLists, (extractWith allowLists
        (onLines "Here:".toList "[\x7b\"a\":1\x7d]".toList "Done.".toList)).data? =
          some (.obj [("a", .int 1)]) := by
  have hlist : Json.parse? "[\x7b\"a\":1\x7d]".toList = some (.arr [.obj [("a", .int 1)]]) := by cbv
  have hobject : Json.parse? "\x7b\"a\":1\x7d".toList = some (.obj [("a", .int 1)]) := by cbv
  have hb : Bare "Here:".toList := by decide
  have ha : Bare "Done.".toList := by decide
  refine ⟨hb, ha, by decide, hlist, fun allowLists => ?_⟩
  obtain ⟨u, s, -, -, hdrop, hall⟩ := extractWith_of_prose_behind hlist (List.cons_ne_nil _ _)
    (by decide) hb ha rfl fun h => absurd (h 'D' (by decide)) (by decide)
  obtain ⟨last, -, hsearched⟩ := hall allowLists
  have htext : dropPreamble (dropFences
      (onLines "Here:".toList "[\x7b\"a\":1\x7d]".toList "Done.".toList)) =
        "[\x7b\"a\":1\x7d]\nDone.".toList := by decide
  have hblocks : ((openings "[\x7b\"a\":1\x7d]\nDone.".toList).take openingLimit).filterMap
      (closed? 0 .code) = ["\x7b\"a\":1\x7d".toList] := by decide
  obtain ⟨more, hmore⟩ := List.head?_eq_some_iff.1
    (head?_balancedBlocks hblocks (List.forall_mem_nil _))
  rw [hsearched, ← hdrop, htext, searched, hmore, tryBlocks,
    (attempt_of_parse? hobject (List.cons_ne_nil _ _) allowLists).1]
  rfl

end Mender.Reply
