import Mender.Proofs.Reply.Answer
import Mender.Proofs.Reply.Marked
import Mender.Proofs.Reply.Mending

/-!
An answer in a code fence, with prose around it.

Without prose behind the fence the answer is read as it was written. With it the answer is
found as a balanced block at most, which counts as no answer, and the text of the answer is
taken for the code.
-/

namespace Mender.Reply

open Mender.Text

/-- The characters that may mean something to a reader of replies. -/
def markup : List Char := "\x7b\x7d[]\"\\`".toList

/-- Plain prose. -/
structure Prose (t : List Char) : Prop where
  plain : ∀ c ∈ t, c ∉ markup
  unmarked : ¬ startMark <:+: t

instance : DecidablePred Prose := fun t =>
  decidable_of_iff (t.all (fun c => !markup.contains c) = true ∧ ¬ startMark <:+: t)
    ⟨fun h => ⟨by simpa using h.1, h.2⟩, fun h => ⟨by simpa using h.plain, h.unmarked⟩⟩

namespace Prose

variable {t : List Char} (h : Prose t)
include h

lemma ne_of_mem {c : Char} (hc : c ∈ t) {d : Char} (hd : d ∈ markup) : c ≠ d :=
  fun he => h.plain c hc (he ▸ hd)

lemma isOpener {c : Char} (hc : c ∈ t) : isOpener c = false := by
  simp only [Reply.isOpener, Bool.or_eq_false_iff, beq_eq_false_iff_ne]
  exact ⟨h.ne_of_mem hc (by decide), h.ne_of_mem hc (by decide)⟩

lemma isCloser {c : Char} (hc : c ∈ t) : isCloser c = false := by
  simp only [Reply.isCloser, Bool.or_eq_false_iff, beq_eq_false_iff_ne]
  exact ⟨h.ne_of_mem hc (by decide), h.ne_of_mem hc (by decide)⟩

lemma notMem_of_mem_fence {d : Char} (hd : d ∈ fence) : d ∉ t := fun hm =>
  h.plain d hm ((by decide : fence ⊆ markup) hd)

lemma not_fence_infix_self : ¬ fence <:+: t := by
  intro hf
  obtain ⟨d, hd⟩ := List.exists_mem_of_ne_nil fence (by decide)
  exact h.notMem_of_mem_fence hd (hf.subset hd)

end Prose

/-- A reply with an answer in a code fence. -/
def fencedReply (before code summary after : String) : String :=
  before ++ "\n```json\n" ++ Json.compact (answerJson code summary) ++ "\n```\n" ++ after

variable {before code summary after : String}

lemma toList_fencedReply : (fencedReply before code summary after).toList =
    (before.toList ++ '\n' :: "```json".toList) ++
      '\n' :: (answerText code summary ++ '\n' :: (fence ++ '\n' :: after.toList)) := by
  simp [fencedReply, Json.compact, answerText, fence]

lemma dropFences_fencedReply : dropFences (fencedReply before code summary after).toList =
    linesBefore before.toList ++ (answerText code summary ++ linesBehind after.toList) := by
  rw [toList_fencedReply, dropFences_around (not_mem_answerText (by decide))
    (by rw [getLast?_answerText]; decide) (isFenceLine_answerText code summary),
    linesBefore_fence (by decide) (by decide) (by decide),
    linesBehind_fence (by decide) (by decide) (by decide)]

lemma blank_fencedReply : blank (fencedReply before code summary after) = false := by
  obtain ⟨inner, htext⟩ := exists_answerText_eq code summary
  rw [blank_eq_false_iff, toList_fencedReply, htext]
  exact ⟨'{', by simp, by decide⟩

/-! ### The candidates -/

lemma candidates_of_unmarked {t : List Char} (h : ¬ startMark <:+: dropFences t) :
    candidates t = [(.direct, dropPreamble (dropFences t))] := by
  have hcut : cut? startMark (dropFences t) = none := cut?_eq_none_iff.2 h
  have hdelimited : delimited? (dropFences t) = none := by simp [delimited?, hcut]
  have htruncated : truncated? (dropFences t) = none := by simp [truncated?, hcut]
  simp [candidates, hdelimited, htruncated]

lemma dropPreamble_append {a : List Char} (ha : ∀ c ∈ a, isOpener c = false) {c : Char}
    (hc : isOpener c = true) (s : List Char) :
    dropPreamble (a ++ c :: s) = trimEnd (c :: s) := by
  have hdrop : (a ++ c :: s).dropWhile (fun c => !isOpener c) = c :: s := by
    rw [List.dropWhile_append_of_pos (by simpa using ha), List.dropWhile_cons_of_neg (by simp [hc])]
  simp only [dropPreamble, hdrop]

section Unmarked

variable (hc : ¬ startMark <:+: code.toList) (hs : ¬ startMark <:+: summary.toList)
  (hb : Prose before.toList) (ha : Prose after.toList)
include hc hs hb ha

lemma startMark_not_infix_fencedReply :
    ¬ startMark <:+: dropFences (fencedReply before code summary after).toList := by
  rw [dropFences_fencedReply, linesBefore, linesBehind, ← unlines_append_cons,
    infix_unlines_iff (by decide) (by decide)]
  rintro ⟨l, hl, hm⟩
  simp only [List.mem_append, List.mem_cons] at hl
  rcases hl with hl | rfl | hl
  · rcases (infix_append_cons_iff (by decide)).1 (infix_of_mem_plainLines hl hm) with h | h
    · exact hb.unmarked h
    · exact absurd h (by decide)
  · rcases infix_of_infix_answerText unescaped_startMark (by decide) (by decide) hm with h | h
    · exact hc h
    · exact hs h
  · exact ha.unmarked (infix_of_mem_plainLines hl hm)

/-- The one candidate is the answer, with what is left of the prose behind it. -/
lemma candidates_fencedReply : candidates (fencedReply before code summary after).toList =
    [(.direct, trimEnd (answerText code summary ++ linesBehind after.toList))] := by
  have hbefore : ∀ c ∈ linesBefore before.toList, isOpener c = false := by
    intro c hc
    rcases mem_of_mem_linesBefore hc with rfl | hc
    · rfl
    · exact hb.isOpener hc
  obtain ⟨inner, htext⟩ := exists_answerText_eq code summary
  rw [candidates_of_unmarked (startMark_not_infix_fencedReply hc hs hb ha),
    dropFences_fencedReply, htext, List.cons_append, dropPreamble_append hbefore rfl]

/-- An answer that only blanks follow is read as it was written. -/
lemma interpret_fencedReply_of_blank (hcode : blank code = false) (hblank : blank after = true) :
    interpret (fencedReply before code summary after) = some ⟨code, trimmed? summary⟩ := by
  have hbehind : ∀ c ∈ linesBehind after.toList, isBlank c = true := by
    rw [blank, List.isEmpty_iff, trim_eq_nil_iff] at hblank
    intro c hc
    rcases mem_of_mem_linesBehind hc with rfl | hc
    · rfl
    · exact hblank c hc
  refine interpret_of_first ?_ (by decide : Strategy.direct ≠ .balancedBlock) blank_fencedReply
    hcode
  rw [candidates_fencedReply hc hs hb ha, trimEnd_answerText hbehind]
  rfl

end Unmarked

/-! ### Prose behind the fence -/

lemma answer?_tryBlocks {allowLists : Bool} {bs : List (List Char)} {e : Extraction}
    (h : tryBlocks allowLists bs = some e) : answer? e = none := by
  induction bs with
  | nil => cases h
  | cons b bs ih =>
    rw [tryBlocks] at h
    split at h
    · cases h
      rfl
    · exact ih h

lemma answer?_extractWith {allowLists : Bool} {raw : List Char} {last : Option Refusal}
    (h : tryAll allowLists raw none (candidates raw) = .error last) :
    answer? (extractWith allowLists raw) = none := by
  rw [extractWith, h]
  simp only
  split
  · next hblocks => exact answer?_tryBlocks hblocks
  · rfl

/-- The candidate ends in prose. -/
lemma exists_getLast?_trimEnd (ha : Prose after.toList) (hblank : blank after = false)
    (t : List Char) : ∃ c, (trimEnd (t ++ linesBehind after.toList)).getLast? = some c ∧
      isBlank c = false ∧ c ∈ after.toList := by
  obtain ⟨c, hmem, hc⟩ := blank_eq_false_iff.1 hblank
  have hne : ∀ d, isBlank d = true → c ≠ d := by
    rintro d hd rfl
    rw [hd] at hc
    cases hc
  have hbehind : c ∈ linesBehind after.toList :=
    mem_linesBehind (fun _ => ha.notMem_of_mem_fence) hmem (hne _ rfl) (hne _ rfl)
  obtain ⟨a, d, he, hd, hm⟩ := exists_dropTail_eq ⟨c, hbehind, hc⟩
  refine ⟨d, ?_, hd, ?_⟩
  · rw [trimEnd, dropTail_append_of_ne_nil (by simp [he]), he, ← List.append_assoc,
      List.getLast?_concat]
  · rcases mem_of_mem_linesBehind hm with rfl | hm
    · cases hd
    · exact hm

lemma answer?_fencedReply (hc : ¬ startMark <:+: code.toList)
    (hs : ¬ startMark <:+: summary.toList) (hb : Prose before.toList) (ha : Prose after.toList)
    (hblank : blank after = false) :
    answer? (extractWith false (fencedReply before code summary after).toList) = none := by
  obtain ⟨c, hlast, hnb, hmem⟩ :=
    exists_getLast?_trimEnd ha hblank (answerText code summary)
  have hall : ∃ last, tryAll false (fencedReply before code summary after).toList none
      (candidates (fencedReply before code summary after).toList) = .error last := by
    rw [candidates_fencedReply hc hs hb ha]
    rcases attempt_of_runsOn hlast hnb (ha.isCloser hmem) (ha.ne_of_mem hmem (by decide)) false
      with h | ⟨root, h⟩
    · exact ⟨none, by simp only [tryAll, h]⟩
    · exact ⟨some (.scalarRoot root), by simp only [tryAll, h]⟩
  obtain ⟨last, h⟩ := hall
  exact answer?_extractWith h

/-! ### The block in the fence -/

/-- The text in front of the first fence. -/
def untilFence (t : List Char) : List Char := ((cut? fence t).map (·.1)).getD t

/-- A line is cut off at its first fence or, if it has none, at the fence line behind it. -/
lemma exists_cut?_fence {t : List Char} (ht : ∀ c ∈ t, isLineEnd c = false) (z : List Char) :
    ∃ inner more, cut? fence (t ++ '\n' :: (fence ++ z)) = some (inner, more) ∧
      dropTail isLineEnd inner = untilFence t := by
  cases hcut : cut? fence t with
  | none =>
    refine ⟨t ++ ['\n'], z, cut?_behind (by decide) (by decide) (cut?_eq_none_iff.1 hcut) z, ?_⟩
    rw [dropTail_append_blank _ _ rfl, dropTail_eq_self ht, untilFence, hcut]
    rfl
  | some p =>
    obtain ⟨rfl, hfirst⟩ := (cut?_eq_some_iff (by decide)).1 hcut
    refine ⟨p.1, p.2 ++ '\n' :: (fence ++ z), ?_, ?_⟩
    · rw [List.append_assoc]
      exact cut?_of_first (by decide) hfirst _
    · rw [dropTail_eq_self fun c hc => ht c (by simp [hc]), untilFence, hcut]
      rfl

variable (code summary) in
lemma exists_untilFence_answerText : ∃ t, untilFence (answerText code summary) = '{' :: t := by
  obtain ⟨inner, htext⟩ := exists_answerText_eq code summary
  cases hcut : cut? fence (answerText code summary) with
  | none => exact ⟨_, by rw [untilFence, hcut]; exact htext⟩
  | some p =>
    have hp := cut?_eq_some hcut
    cases hfst : p.1 with
    | nil =>
      rw [hfst, htext] at hp
      cases hp
    | cons c t =>
      rw [hfst, htext, List.cons_append, List.cons_append, List.cons.injEq] at hp
      exact ⟨t, by rw [untilFence, hcut, hp.1]; exact hfst⟩

/-- The block is the text of the answer itself. -/
lemma fencedBlock?_fencedReply (hb : Prose before.toList) :
    fencedBlock? (fencedReply before code summary after).toList =
      some (untilFence (answerText code summary) ++ ['\n']) := by
  have hline : ∀ c ∈ answerText code summary, isLineEnd c = false := by
    intro c hc
    simp only [isLineEnd, Bool.or_eq_false_iff, beq_eq_false_iff_ne]
    exact ⟨fun he => not_mem_answerText (by decide) (he ▸ hc),
      fun he => not_mem_answerText (by decide) (he ▸ hc)⟩
  obtain ⟨inner, more, hcut, hblock⟩ := exists_cut?_fence hline ('\n' :: after.toList)
  have hopen : cut? fence (fencedReply before code summary after).toList =
      some (before.toList ++ ['\n'], "json".toList ++ ['\n'] ++
        (answerText code summary ++ '\n' :: (fence ++ '\n' :: after.toList))) := by
    have hraw : (fencedReply before code summary after).toList = before.toList ++ '\n' ::
        (fence ++ ("json".toList ++ ['\n'] ++
          (answerText code summary ++ '\n' :: (fence ++ '\n' :: after.toList)))) := by
      rw [toList_fencedReply]
      simp [fence]
    rw [hraw]
    exact cut?_behind (by decide) (by decide) hb.not_fence_infix_self _
  have htag : cut? ['\n'] ("json".toList ++ ['\n'] ++
      (answerText code summary ++ '\n' :: (fence ++ '\n' :: after.toList))) =
        some ("json".toList, answerText code summary ++ '\n' :: (fence ++ '\n' :: after.toList)) :=
    cut?_of_first (by decide) (by decide) _
  have hblank : (trim (untilFence (answerText code summary))).isEmpty = false := by
    obtain ⟨t, ht⟩ := exists_untilFence_answerText code summary
    rw [List.isEmpty_eq_false_iff, ne_eq, trim_eq_nil_iff, ht]
    simp only [List.forall_mem_cons, not_and]
    exact fun h => absurd h (by decide)
  rw [fencedBlock?, hopen]
  simp only [Option.bind_eq_bind, Option.bind_some, htag, hcut, hblock, hblank]
  rfl

/-! ### The block is not the code -/

lemma unescaped_fence : Json.Unescaped fence := ⟨by decide, _, _, rfl, by decide⟩

/-- A fence near enough to the beginning of an answer stands in its code. -/
lemma fence_infix_code {a : List Char} (h : a ++ fence <+: answerText code summary)
    (ha : a.length ≤ code.toList.length) : fence <:+: code.toList := by
  have hlen : (a ++ fence).length ≤ (answerHead code).length := by
    have := le_length_answerHead code
    have : fence.length = 3 := rfl
    rw [List.length_append]
    omega
  have hhead : fence <:+: answerHead code :=
    (List.suffix_append a fence).isInfix.trans
      (List.prefix_of_prefix_length_le h (answerHead_begins code summary) hlen).isInfix
  rw [answerHead, infix_intercalate_iff (by decide) (by decide)] at hhead
  simp only [List.mem_cons, List.not_mem_nil, or_false, exists_eq_or_imp, exists_eq_left] at hhead
  rcases hhead with h | h | h | h
  · exact absurd h (by decide)
  · exact absurd h (by decide)
  · exact absurd h (by decide)
  · exact Json.infix_of_infix_flatMap_escapeChar unescaped_fence h

/-- An answer is longer than its code, and a fence in front of the end of the code stands in the
code, where the block has none. -/
lemma untilFence_answerText_ne : untilFence (answerText code summary) ++ ['\n'] ≠ code.toList := by
  intro h
  have hlen := congrArg List.length h
  rw [List.length_append, List.length_singleton] at hlen
  cases hcut : cut? fence (answerText code summary) with
  | none =>
    rw [untilFence, hcut, Option.map_none, Option.getD_none] at hlen
    have := (answerHead_begins code summary).length_le
    have := le_length_answerHead code
    omega
  | some p =>
    obtain ⟨htext, hfirst⟩ := (cut?_eq_some_iff (by decide)).1 hcut
    rw [untilFence, hcut, Option.map_some, Option.getD_some] at h hlen
    have hcode := fence_infix_code (htext ▸ List.prefix_append _ _) (by omega)
    rw [← h, infix_append_cons_iff (by decide)] at hcode
    rcases hcode with hcode | hcode
    · exact hfirst (hcode.trans (List.prefix_append _ _).isInfix)
    · exact absurd hcode (by decide)

/-! ### What is read -/

/-- With prose behind the fence the text of the answer is taken for the code. -/
lemma interpret_fencedReply_of_prose (hc : ¬ startMark <:+: code.toList)
    (hs : ¬ startMark <:+: summary.toList) (hb : Prose before.toList) (ha : Prose after.toList)
    (hblank : blank after = false) : interpret (fencedReply before code summary after) =
      some ⟨String.ofList (untilFence (answerText code summary) ++ ['\n']), none⟩ := by
  have hnone := answer?_fencedReply hc hs hb ha hblank
  rw [interpret, extraction?, blank_fencedReply, if_neg Bool.false_ne_true, Option.bind_some,
    proposalFrom, hnone, fencedBlock?_fencedReply hb]
  rfl

/-- **A fenced answer with prose around it is read as it was written** just when there is no
prose behind the fence. -/
theorem interpret_fencedReply_iff (hcode : blank code = false)
    (hc : ¬ startMark <:+: code.toList) (hs : ¬ startMark <:+: summary.toList)
    (hb : Prose before.toList) (ha : Prose after.toList) :
    interpret (fencedReply before code summary after) = some ⟨code, trimmed? summary⟩ ↔
      blank after = true := by
  constructor
  · intro h
    by_contra hblank
    rw [interpret_fencedReply_of_prose hc hs hb ha (by simpa using hblank)] at h
    have := congrArg String.toList (Proposal.mk.inj (Option.some.inj h)).1
    exact untilFence_answerText_ne (by simpa using this)
  · exact interpret_fencedReply_of_blank hc hs hb ha hcode

theorem interpret_fencedReply_feed :
    interpret (fencedReply "Here is the fix:" "<p>\"hi\"</p>\n" " closed p " "\n") =
      some ⟨"<p>\"hi\"</p>\n", some "closed p"⟩ :=
  (interpret_fencedReply_iff (by decide) (by decide) (by decide) (by decide) (by decide)).2
    (by decide)

/-- One sentence behind the fence, and the text of the answer is the code. -/
theorem fencedReply_then_prose :
    blank "<p>hi</p>" = false ∧ Prose "Here is the fix:".toList ∧ Prose "Let me know.".toList ∧
      interpret (fencedReply "Here is the fix:" "<p>hi</p>" "closed p" "Let me know.") ≠
        some ⟨"<p>hi</p>", some "closed p"⟩ := by
  have hb : Prose "Here is the fix:".toList := by decide
  have ha : Prose "Let me know.".toList := by decide
  refine ⟨by decide, hb, ha, ?_⟩
  rw [interpret_fencedReply_of_prose (by decide) (by decide) hb ha (by decide)]
  decide

/-- A mark in the code is taken for one of the reply, whatever stands behind the fence. -/
example : interpret (fencedReply "" "<<<JSON_START>>>\x7b\x7d<<<JSON_END>>>" "" "") ≠
    some ⟨"<<<JSON_START>>>\x7b\x7d<<<JSON_END>>>", none⟩ := by
  decide +kernel

end Mender.Reply
