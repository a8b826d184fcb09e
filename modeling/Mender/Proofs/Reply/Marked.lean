import Mender.Proofs.Reply.Answer
import Mender.Proofs.Text.Lines
import Mender.Reply.Candidates

/-!
An answer between its marks.

Fence lines are left out before the marks are looked for. The line with the answer is none, so
what stands around it is some of the other lines, and the marks are found where they were put.
-/

namespace Mender.Reply

open Mender.Text

/-! ### Lines that are no fence lines -/

/-- The lines of a text that are no fence lines. -/
def plainLines (t : List Char) : List (List Char) := (lines t).filter fun l => !isFenceLine l

/-- What is left of a text in front of a line. -/
def linesBefore (t : List Char) : List Char := (plainLines (t ++ ['\n'])).flatMap (· ++ ['\n'])

/-- What is left of a text behind a line. -/
def linesBehind (t : List Char) : List Char := (plainLines t).flatMap ('\n' :: ·)

/-- What is left of a text in front of the rest of a line that is no fence line. -/
def leftInFront (t : List Char) : List Char :=
  (plainLines (wholeLines t)).flatMap (· ++ ['\n']) ++ lastLine t

lemma leftInFront_eq_unlines (t : List Char) :
    leftInFront t = unlines (plainLines (wholeLines t) ++ [lastLine t]) := by
  rw [unlines_append_cons, List.flatMap_nil, List.append_nil, leftInFront]

/-- Whole lines without a fence line among them. -/
lemma dropFences_between {t : List Char} (h : plainLines (t ++ ['\n']) = lines (t ++ ['\n']))
    (a b : List Char) : dropFences (a ++ '\n' :: (t ++ '\n' :: b)) =
      linesBefore a ++ (unlines (lines (t ++ ['\n'])) ++ linesBehind b) := by
  rw [plainLines] at h
  rw [dropFences, lines_append, lines_append t, List.filter_append, List.filter_append, h,
    unlines_around _ (lines_ne_nil (by simp))]
  rfl

lemma dropFences_around {l : List Char} (hn : '\n' ∉ l) (hr : l.getLast? ≠ some '\r')
    (hf : isFenceLine l = false) (a b : List Char) :
    dropFences (a ++ '\n' :: (l ++ '\n' :: b)) = linesBefore a ++ (l ++ linesBehind b) := by
  rw [dropFences_between, lines_feed hn hr, unlines, List.intercalate_singleton]
  rw [plainLines, lines_feed hn hr, List.filter_cons_of_pos (by simp [hf]), List.filter_nil]

/-! ### Fence lines -/

lemma linesBehind_fence {l : List Char} (hn : '\n' ∉ l) (hr : l.getLast? ≠ some '\r')
    (hf : isFenceLine l = true) (t : List Char) : linesBehind (l ++ '\n' :: t) = linesBehind t := by
  rw [linesBehind, plainLines, lines_cons hn hr, List.filter_cons_of_neg (by simp [hf])]
  rfl

lemma linesBefore_fence {l : List Char} (hn : '\n' ∉ l) (hr : l.getLast? ≠ some '\r')
    (hf : isFenceLine l = true) (t : List Char) : linesBefore (t ++ '\n' :: l) = linesBefore t := by
  have hl : (lines (l ++ ['\n'])).filter (fun l => !isFenceLine l) = [] := by
    rw [lines_feed hn hr, List.filter_cons_of_neg (by simp [hf]), List.filter_nil]
  rw [linesBefore, plainLines, List.append_assoc, List.cons_append, lines_append,
    List.filter_append, hl, List.append_nil]
  rfl

/-! ### What stands in the lines that are left -/

lemma infix_of_mem_plainLines {needle l t : List Char} (h : l ∈ plainLines t)
    (hl : needle <:+: l) : needle <:+: t :=
  hl.trans (infix_of_mem_lines (List.mem_of_mem_filter h))

lemma mem_of_mem_linesBehind {c : Char} {t : List Char} (h : c ∈ linesBehind t) :
    c = '\n' ∨ c ∈ t := by
  obtain ⟨l, hl, hc⟩ := List.mem_flatMap.1 h
  refine (List.mem_cons.1 hc).imp_right fun hc => ?_
  exact (infix_of_mem_lines (List.mem_of_mem_filter hl)).subset hc

lemma mem_of_mem_linesBefore {c : Char} {t : List Char} (h : c ∈ linesBefore t) :
    c = '\n' ∨ c ∈ t := by
  obtain ⟨l, hl, hc⟩ := List.mem_flatMap.1 h
  have hl := (infix_of_mem_lines (List.mem_of_mem_filter hl)).subset
  simp only [List.mem_append, List.mem_singleton] at hc
  rcases hc with hc | hc
  · simpa [or_comm] using hl hc
  · exact .inl hc

/-- In a text without fences every line stays. -/
lemma mem_linesBehind {c : Char} {t : List Char} (hf : ∀ d ∈ fence, d ∉ t) (h : c ∈ t)
    (hn : c ≠ '\n') (hr : c ≠ '\r') : c ∈ linesBehind t := by
  obtain ⟨l, hl, hc⟩ := exists_mem_lines h hn hr
  refine List.mem_flatMap.2 ⟨l, List.mem_filter.2 ⟨hl, ?_⟩, List.mem_cons_of_mem _ hc⟩
  rw [Bool.not_eq_true', ← Bool.not_eq_true]
  intro hfence
  obtain ⟨d, hd⟩ := List.exists_mem_of_ne_nil fence (by decide)
  have hdl : d ∈ l := (List.dropWhile_sublist _).subset ((startsWith_iff.1 hfence).subset hd)
  exact hf d hd ((infix_of_mem_lines hl).subset hdl)

/-! ### The marks -/

lemma delimited?_eq {t a r inner b : List Char} (hstart : cut? startMark t = some (a, r))
    (hend : cut? endMark r = some (inner, b)) : delimited? t = some (trim inner) := by
  rw [delimited?, hstart]
  simp only [Option.bind_eq_bind, Option.bind_some, hend]
  rfl

variable {code summary : String}

lemma unescaped_startMark : Json.Unescaped startMark := ⟨by decide, _, _, rfl, by decide⟩

lemma unescaped_endMark : Json.Unescaped endMark := ⟨by decide, _, _, rfl, by decide⟩

/-- The first end mark is the one behind the answer. -/
lemma cut?_endMark (hc : ¬ endMark <:+: code.toList) (hs : ¬ endMark <:+: summary.toList)
    (b : List Char) :
    cut? endMark (answerText code summary ++ endMark ++ b) = some (answerText code summary, b) := by
  obtain ⟨inner, htext⟩ := exists_answerText_eq code summary
  have hinner : ¬ endMark <:+: '{' :: inner := by
    intro h
    have htrans : endMark <:+: answerText code summary :=
      h.trans ⟨[], ['}'], by rw [htext]; rfl⟩
    rcases infix_of_infix_answerText unescaped_endMark (by decide) (by decide) htrans with h | h
    · exact hc h
    · exact hs h
  have := cut?_behind (x := '}') (by decide) (by decide) hinner b
  rw [htext]
  simpa using this

lemma startMark_not_infix_before {t : List Char} (h : ¬ startMark <:+: t) :
    ¬ startMark <:+: linesBefore t ++ startMark.dropLast := by
  have hlines := unlines_append_cons (plainLines (t ++ ['\n'])) startMark.dropLast []
  rw [List.flatMap_nil, List.append_nil] at hlines
  rw [linesBefore, ← hlines, infix_unlines_iff (by decide) (by decide)]
  rintro ⟨l, hl, hm⟩
  rcases List.mem_append.1 hl with hl | hl
  · rcases (infix_append_cons_iff (by decide)).1 (infix_of_mem_plainLines hl hm) with h' | h'
    · exact h h'
    · exact absurd h' (by decide)
  · rw [List.mem_singleton.1 hl] at hm
    exact absurd hm (by decide)

/-- A reply with an answer between the marks, on a line of its own. -/
def markedReply (before code summary after : String) : String :=
  before ++ "\n" ++ String.ofList startMark ++ Json.compact (answerJson code summary) ++
    String.ofList endMark ++ "\n" ++ after

variable (before after : String)

lemma toList_markedReply : (markedReply before code summary after).toList = before.toList ++
    '\n' :: ((startMark ++ answerText code summary ++ endMark) ++ '\n' :: after.toList) := by
  simp [markedReply, Json.compact, answerText]

lemma dropFences_markedReply : dropFences (markedReply before code summary after).toList =
    linesBefore before.toList ++ startMark ++
      (answerText code summary ++ endMark ++ linesBehind after.toList) := by
  rw [toList_markedReply, dropFences_around]
  · simp only [List.append_assoc]
  · have hstart : '\n' ∉ startMark := by decide
    have hend : '\n' ∉ endMark := by decide
    simp only [List.mem_append, not_or]
    exact ⟨⟨hstart, not_mem_answerText (by decide)⟩, hend⟩
  · rw [List.getLast?_append_of_ne_nil _ (by decide)]
    decide
  · rfl

/-- **An answer between the marks is read as it was written**, whatever code it holds and
whatever stands around it. -/
theorem interpret_markedReply (hcode : blank code = false)
    (hbefore : ¬ startMark <:+: before.toList) (hc : ¬ endMark <:+: code.toList)
    (hs : ¬ endMark <:+: summary.toList) :
    interpret (markedReply before code summary after) = some ⟨code, trimmed? summary⟩ := by
  have hcut : delimited? (dropFences (markedReply before code summary after).toList) =
      some (answerText code summary) := by
    rw [dropFences_markedReply, delimited?_eq (cut?_of_first (by decide)
      (startMark_not_infix_before hbefore) _) (cut?_endMark hc hs _), trim_answerText]
  have hraw : blank (markedReply before code summary after) = false := by
    rw [blank_eq_false_iff, toList_markedReply]
    exact ⟨'<', by simp [show '<' ∈ startMark by decide], by decide⟩
  refine interpret_of_first ?_ (by decide : Strategy.delimited ≠ .balancedBlock) hraw hcode
  rw [candidates, hcut]
  rfl

theorem interpret_markedReply_nested :
    interpret (markedReply "Use [this]:\n```json\n<<<JSON_END>>>"
      "<p title=\"a\">\n<<<JSON_START>>>\n```</p>\n" "  closed p "
      "```\n<<<JSON_START>>>\x7b\"code\": 1\x7d<<<JSON_END>>>") =
      some ⟨"<p title=\"a\">\n<<<JSON_START>>>\n```</p>\n", some "closed p"⟩ :=
  interpret_markedReply _ _ (by decide) (by decide) (by decide) (by decide)

end Mender.Reply
