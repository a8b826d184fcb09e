import Mathlib
import Mender.Proofs.Reply.Blocks

/-!
An object between the marks, with any text around it.

Fence lines are left out before the marks are looked for, and the first mark stands on the line
that the text in front of it ends in. When that is a fence line the mark goes with it; otherwise
both marks are found and what stands between them is the object.
-/

namespace Mender.Reply

open Mender.Text

/-- An object between the marks, right behind one text and right in front of another. -/
def noisyReply (before object after : List Char) : List Char :=
  before ++ (startMark ++ (object ++ (endMark ++ after)))

/-- Neither mark stands in the text. -/
structure Unmarked (t : List Char) : Prop where
  start : ¬ startMark <:+: t
  «end» : ¬ endMark <:+: t

instance : DecidablePred Unmarked := fun t =>
  decidable_of_iff (¬ startMark <:+: t ∧ ¬ endMark <:+: t) ⟨fun h => ⟨h.1, h.2⟩, fun h => ⟨h.1, h.2⟩⟩

lemma startMark_ne_nil : startMark ≠ [] := by decide

lemma endMark_ne_nil : endMark ≠ [] := by decide

lemma borderless_startMark : Borderless startMark := by decide

lemma borderless_endMark : Borderless endMark := by decide

lemma apart_marks : Apart startMark endMark := by decide

/-! ### The line of the first mark -/

variable {a t : List Char}

/-- A line goes on behind its beginning. -/
lemma isFenceLine_append (h : isFenceLine a = true) (t : List Char) :
    isFenceLine (a ++ t) = true := by
  have hne : ¬ (trimStart a).isEmpty = true := by
    intro hnil
    rw [isFenceLine, List.isEmpty_iff.1 hnil] at h
    exact absurd h (by decide)
  rw [isFenceLine, startsWith_iff] at h ⊢
  rw [trimStart, List.dropWhile_append]
  split
  · next hnil => exact absurd hnil hne
  · exact h.trans (List.prefix_append _ _)

lemma isFenceLine_of_append {c : Char} (hc : isBlank c = false) (hf : c ∉ fence)
    (h : isFenceLine (a ++ c :: t) = true) : isFenceLine a = true := by
  rw [isFenceLine, startsWith_iff, trimStart, List.dropWhile_append] at h
  split at h
  · rw [List.dropWhile_cons_of_neg (by simp [hc])] at h
    exact absurd ((prefix_of_prefix_append_cons (a := []) hf h).length_le) (by decide)
  · exact startsWith_iff.2 (prefix_of_prefix_append_cons hf h)

/-- No line is a fence line when the first one begins as none and the others stand in a solid
text. -/
lemma isFenceLine_behind (ha : '\n' ∉ a) (hfence : isFenceLine a = false) {c : Char}
    (ht : t.head? = some c) (hc : isBlank c = false) (hf : c ∉ fence) (hs : Solid t) {l : List Char}
    (hl : l ∈ lines (a ++ t)) : isFenceLine l = false := by
  obtain ⟨t, rfl⟩ := List.head?_eq_some_iff.1 ht
  obtain ⟨x, y, hsplit, hline⟩ := mem_lines_iff.1 hl
  rcases hline.opened with rfl | hx
  · -- the first line
    rw [← Bool.not_eq_true]
    intro hfl
    have hall := isFenceLine_append hfl y
    rw [← List.nil_append l, ← hsplit] at hall
    rw [isFenceLine_of_append hc hf hall] at hfence
    cases hfence
  · obtain ⟨x, rfl⟩ := List.getLast?_eq_some_iff.1 hx
    simp only [List.append_assoc, List.singleton_append] at hsplit
    rcases List.append_eq_append_iff.1 hsplit with ⟨x', rfl, htail⟩ | ⟨a', rfl, htail⟩
    · refine hs.isFenceLine (mem_lines_iff.2 ⟨x' ++ ['\n'], y, by simp [htail], ?_⟩)
      exact ⟨hline.feedless, .inr (by simp), hline.closed⟩
    · rcases List.cons_eq_append_iff.1 htail with ⟨rfl, hcons⟩ | ⟨a', rfl, -⟩
      · rw [(List.cons.inj hcons).1] at hc
        cases hc
      · exact absurd (by simp) ha

/-- What is left of a reply around a stretch of it that has no line on a fence. -/
lemma exists_dropFences_around {before m : List Char} {d : Char}
    (hm : m.getLast? = some d) (hd : d ≠ '\n' ∧ d ≠ '\r')
    (hlines : ∀ r, '\n' ∉ r → ∀ l ∈ lines (lastLine before ++ (m ++ r)), isFenceLine l = false)
    (after : List Char) :
    ∃ (r y : List Char), '\n' ∉ r ∧ dropFences (before ++ (m ++ after)) =
      (plainLines (wholeLines before)).flatMap (· ++ ['\n']) ++
        (withoutReturns (lastLine before ++ (m ++ r)) ++ y) := by
  obtain ⟨r, z, hr, hend, hall⟩ := exists_lines_around hm hd before after
  have hkeep : plainLines (lastLine before ++ (m ++ r)) = lines (lastLine before ++ (m ++ r)) :=
    List.filter_eq_self.2 fun l hl => by rw [hlines r hr l hl]; rfl
  have hne : lastLine before ++ (m ++ r) ≠ [] := by
    have hmne : m ≠ [] := by
      rintro rfl
      cases hm
    simp [hmne]
  rw [plainLines] at hkeep
  refine ⟨r, (plainLines z).flatMap ('\n' :: ·), hr, ?_⟩
  rw [dropFences, hall, List.filter_append, List.filter_append, hkeep,
    unlines_around _ (lines_ne_nil hne), unlines_lines hend]
  rfl

/-! ### What stands between the marks -/

variable {before object after : List Char} {fs : List (String × Json)}

/-- No line that the marks and the object stand on is a fence line unless the text in front of them
begins one. -/
lemma isFenceLine_marked (ho : Json.parse? object = some (.obj fs))
    (hf : isFenceLine (lastLine before) = false) {r : List Char} (hr : '\n' ∉ r) {l : List Char}
    (hl : l ∈ lines (lastLine before ++ (startMark ++ (object ++ endMark) ++ r))) :
    isFenceLine l = false := by
  have hend : Solid (endMark ++ r) := by
    refine Solid.cons (c := '<') (u := endMark.tail ++ r) (by decide) (by decide) ?_
    rw [List.mem_append, not_or]
    exact ⟨by decide, hr⟩
  have hsolid : Solid (startMark ++ (object ++ endMark) ++ r) := by
    rw [List.append_assoc, List.append_assoc]
    exact (Solid.of_notMem (by decide)).append ((solid_of_parse? ho).append hend)
  exact isFenceLine_behind (c := '<') (notMem_lastLine before) hf rfl (by decide) (by decide)
    hsolid hl

/-- Only in the object between the marks carriage returns are lost. -/
lemma withoutReturns_marked {a r : List Char} (ha : '\n' ∉ a) (hr : '\n' ∉ r) :
    withoutReturns (a ++ (startMark ++ (object ++ endMark) ++ r)) =
      a ++ (startMark ++ (withoutReturns object ++ (endMark ++ r))) := by
  have hstart : Json.Framed startMark :=
    Json.framed_of_notMem ⟨'<', _, rfl, by decide, by decide⟩ (by decide) (by decide)
  have hend : Json.Framed endMark :=
    Json.framed_of_notMem ⟨'<', _, rfl, by decide, by decide⟩ (by decide) (by decide)
  have hkeep {t : List Char} (ht : '\n' ∉ t) : withoutReturns t = t :=
    withoutReturns_of_notMem (.inr rfl) ht
  rw [List.append_assoc, List.append_assoc, hstart.around, hend.around, hkeep ha, hkeep hr,
    hkeep (t := startMark) (by decide), hkeep (t := endMark) (by decide)]

/-- Lines of the text in front, and the rest of its last line, have no mark. -/
lemma startMark_not_infix_front (hb : Unmarked before) : ¬ startMark <:+: leftInFront before := by
  rw [leftInFront_eq_unlines, infix_unlines_iff (by decide) startMark_ne_nil]
  rintro ⟨l, hl, hm⟩
  rcases List.mem_append.1 hl with hl | hl
  · exact hb.start ((infix_of_mem_plainLines hl hm).trans (wholeLines_isPrefix before).isInfix)
  · rw [List.mem_singleton.1 hl] at hm
    exact hb.start (hm.trans (List.rtakeWhile_suffix _ _).isInfix)

/-- What is left of a reply whose first mark stands on no fence line. -/
lemma exists_dropFences_noisyReply (ho : Json.parse? object = some (.obj fs))
    (hb : Unmarked before) (hf : isFenceLine (lastLine before) = false) (after : List Char) :
    ∃ a y, ¬ startMark <:+: a ∧ dropFences (noisyReply before object after) =
      a ++ startMark ++ (withoutReturns object ++ endMark ++ y) := by
  have hlast : (startMark ++ (object ++ endMark)).getLast? = some '>' := by
    rw [← List.append_assoc, List.getLast?_append_of_ne_nil _ endMark_ne_nil]
    rfl
  obtain ⟨r, y, hr, hdrop⟩ := exists_dropFences_around hlast (by decide)
    (fun r hr l hl => isFenceLine_marked ho hf hr hl) after
  refine ⟨leftInFront before, r ++ y, startMark_not_infix_front hb, ?_⟩
  rw [noisyReply, ← List.append_assoc object, ← List.append_assoc startMark, hdrop,
    withoutReturns_marked (notMem_lastLine before) hr, leftInFront]
  simp only [List.append_assoc]

lemma delimited?_noisyReply (ho : Json.parse? object = some (.obj fs)) (hb : Unmarked before)
    (hn : Unmarked object) (hf : isFenceLine (lastLine before) = false) (after : List Char) :
    delimited? (dropFences (noisyReply before object after)) =
      some (trim (withoutReturns object)) := by
  obtain ⟨a, y, ha, hdrop⟩ := exists_dropFences_noisyReply ho hb hf after
  have hobject : ¬ endMark <:+: withoutReturns object := fun h =>
    hn.end (infix_of_infix_withoutReturns (by decide) h)
  rw [hdrop]
  exact delimited?_eq
    (cut?_of_first startMark_ne_nil
      (not_infix_append_dropLast borderless_startMark startMark_ne_nil ha) _)
    (cut?_of_first endMark_ne_nil
      (not_infix_append_dropLast borderless_endMark endMark_ne_nil hobject) y)

/-- On a fence line the first mark is left out, and there is no other. -/
lemma startMark_not_infix_noisyReply (hb : Unmarked before) (hn : Unmarked object)
    (ha : Unmarked after) (hf : isFenceLine (lastLine before) = true) :
    ¬ startMark <:+: dropFences (noisyReply before object after) := by
  obtain ⟨x, p, rfl, hp, hx⟩ := exists_last_feed before
  rw [lastLine_append hx hp] at hf
  have hfeed : '\n' ∉ p ++ startMark := by
    rw [List.mem_append, not_or]
    exact ⟨hp, by decide⟩
  obtain ⟨r, y, hry, hr, hy⟩ := exists_line_end (b := object ++ (endMark ++ after)) hfeed
    (by simp [startMark_ne_nil])
    (by rw [List.getLast?_append_of_ne_nil _ startMark_ne_nil]; decide)
  obtain ⟨z, hz, hlines⟩ := lines_of_closed hr hy
  have hall : lines (noisyReply (x ++ p) object after) =
      lines x ++ (p ++ (startMark ++ r)) :: lines z := by
    have hassoc : noisyReply (x ++ p) object after = x ++ (p ++ startMark ++ r ++ y) := by
      rw [noisyReply, hry]
      simp only [List.append_assoc]
    rw [hassoc, lines_behind hx, hlines, List.append_assoc]
  rw [dropFences, hall, List.filter_append,
    List.filter_cons_of_neg (by simp [isFenceLine_append hf]),
    infix_unlines_iff (by decide) startMark_ne_nil]
  rintro ⟨l, hl, hm⟩
  rcases List.mem_append.1 hl with hl | hl
  · exact hb.start (((hm.trans (infix_of_mem_plainLines hl List.infix_rfl))).trans
      (List.prefix_append x p).isInfix)
  · have hrest : startMark <:+: object ++ (endMark ++ after) := by
      rw [hry]
      exact (hm.trans (infix_of_mem_plainLines hl List.infix_rfl)).trans
        (hz.trans (List.suffix_append r y)).isInfix
    rcases infix_around_mark apart_marks hrest with h | h
    · exact hn.start h
    · exact ha.start h

/-- **An object between the marks is found**, whatever stands around it, unless the text in front
of it ends in a fence line. -/
theorem found_between_marks_iff (ho : Json.parse? object = some (.obj fs)) (hb : Unmarked before)
    (hn : Unmarked object) (ha : Unmarked after) :
    (∃ fragment, extract (noisyReply before object after) = .found (.obj fs) .delimited fragment) ↔
      isFenceLine (lastLine before) = false := by
  constructor
  · rintro ⟨fragment, h⟩
    rw [← Bool.not_eq_true]
    intro hf
    exact strategy_of_unmarked (startMark_not_infix_noisyReply hb hn ha hf) h
  · intro hf
    have hcut := delimited?_noisyReply ho hb hn hf after
    have hfirst : (candidates (noisyReply before object after)).head? =
        some (.delimited, trim (withoutReturns object)) := by
      rw [candidates, hcut]
      rfl
    have hparsed := (attempt_of_parse? (Json.parse?_withoutReturns ho) (by simp [Json.closer])
      true).2
    exact ⟨_, extractWith_of_first hfirst hparsed⟩

/-- Prose, an open brace, another fence and half a mark around the object. -/
theorem found_between_marks_noise :
    Json.parse? "\x7b\"a\": 1\x7d\r\n".toList = some (.obj [("a", .int 1)]) ∧
      ∃ fragment, extract (noisyReply "```json\nHere: \x7b <<<JSON_".toList
        "\x7b\"a\": 1\x7d\r\n".toList "\n```\n[1]\x7d <<<JSON".toList) =
          .found (.obj [("a", .int 1)]) .delimited fragment := by
  have ho : Json.parse? "\x7b\"a\": 1\x7d\r\n".toList = some (.obj [("a", .int 1)]) := by cbv
  exact ⟨ho, (found_between_marks_iff ho (by decide) (by decide) (by decide)).2 (by decide)⟩

/-- The first mark on the line of an opening fence is left out with it. -/
theorem mark_lost_on_fence_line :
    Unmarked "```".toList ∧ Unmarked "\x7b\"a\":1\x7d".toList ∧
      Json.parse? "\x7b\"a\":1\x7d".toList = some (.obj [("a", .int 1)]) ∧
      (extract (noisyReply "```".toList "\x7b\"a\":1\x7d".toList [])).isFailure = true := by
  refine ⟨by decide, by decide, by cbv, ?_⟩
  decide +kernel

end Mender.Reply
