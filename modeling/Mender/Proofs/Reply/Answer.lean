import Mender.Proofs.Json.Quote
import Mender.Proofs.KeyMap
import Mender.Proofs.Text.Blank
import Mender.Proofs.Text.Search
import Mender.Reply.Proposal

/-!
The object a reply is asked for, and what is made of it once it is found.
-/

namespace Mender.Reply

open Mender.Text

def answerJson (code summary : String) : Json :=
  .ofFields [("code", .str code), ("summary", .str summary)]

def answerText (code summary : String) : List Char := Json.print (answerJson code summary)

variable (code summary : String)

lemma answerJson_eq :
    answerJson code summary = .obj [("code", .str code), ("summary", .str summary)] := by
  have hlt : ¬ "summary" < "code" := by decide
  have hne : "summary" ≠ "code" := by decide
  simp only [answerJson, Json.ofFields, List.foldl, insertEntry, if_neg hlt, if_neg hne]

/-- What stands between the quotes of an answer besides its code and summary. -/
def answerFrame : List (List Char) :=
  [['{'], "code".toList, [':'], [','], "summary".toList, ['}']]

/-- The text falls into pieces at its quotes. -/
lemma answerText_eq :
    answerText code summary = ['"'].intercalate
      [['{'], "code".toList, [':'], code.toList.flatMap Json.escapeChar, [','],
        "summary".toList, [':'], summary.toList.flatMap Json.escapeChar, ['}']] := by
  rw [answerText, answerJson_eq]
  simp [Json.print, Json.printField, Json.printFields, Json.quote, Json.escapeChar,
    List.intercalate_cons_cons]

lemma parse?_answerText :
    Json.parse? (answerText code summary) = some (answerJson code summary) := by
  refine Json.parse?_print ?_
  rw [answerJson_eq]
  refine Json.readsBack_obj ?_ (answerJson_eq code summary)
  simp only [List.forall_mem_cons, List.not_mem_nil, false_imp_iff, implies_true, and_true]
  exact ⟨Json.readsBack_str _ code, Json.readsBack_str _ summary⟩

lemma exists_answerText_eq : ∃ inner, answerText code summary = '{' :: (inner ++ ['}']) :=
  ⟨['"'].intercalate [[], "code".toList, [':'], code.toList.flatMap Json.escapeChar,
    [','], "summary".toList, [':'], summary.toList.flatMap Json.escapeChar, []],
    by simp [answerText_eq, List.intercalate_cons_cons]⟩

lemma getLast?_answerText : (answerText code summary).getLast? = some '}' := by
  obtain ⟨inner, h⟩ := exists_answerText_eq code summary
  rw [h, ← List.cons_append, List.getLast?_concat]

lemma isFenceLine_answerText : isFenceLine (answerText code summary) = false := by
  obtain ⟨inner, h⟩ := exists_answerText_eq code summary
  rw [h]
  rfl

/-- The text of an answer up to the end of its code. -/
def answerHead : List Char :=
  ['"'].intercalate [['{'], "code".toList, [':'], code.toList.flatMap Json.escapeChar]

lemma answerHead_begins : answerHead code <+: answerText code summary := by
  rw [answerHead, answerText_eq]
  simp [List.intercalate_cons_cons]

lemma le_length_answerHead : code.toList.length + 3 ≤ (answerHead code).length := by
  have := Json.length_le_flatMap_escapeChar code.toList
  simp only [answerHead, List.intercalate_cons_cons, List.intercalate_singleton,
    List.length_append, List.length_singleton]
  omega

lemma trim_answerText : trim (answerText code summary) = answerText code summary := by
  obtain ⟨inner, h⟩ := exists_answerText_eq code summary
  rw [h, trim_cons_concat (by decide) (by decide)]

variable {code summary}

lemma trimEnd_answerText {b : List Char} (h : ∀ c ∈ b, isBlank c = true) :
    trimEnd (answerText code summary ++ b) = answerText code summary := by
  obtain ⟨inner, htext⟩ := exists_answerText_eq code summary
  rw [trimEnd, dropTail_append_of_all h, htext, ← List.cons_append, dropTail_concat (by decide)]

/-- What has no quote stands in one of the pieces. -/
lemma infix_answerText_cases {needle : List Char} (hq : '"' ∉ needle) (hne : needle ≠ [])
    (h : needle <:+: answerText code summary) :
    (∃ t ∈ answerFrame, needle <:+: t) ∨ needle <:+: code.toList.flatMap Json.escapeChar ∨
      needle <:+: summary.toList.flatMap Json.escapeChar := by
  rw [answerText_eq, infix_intercalate_iff hq hne] at h
  obtain ⟨t, ht, hn⟩ := h
  have hpiece : t ∈ answerFrame ∨ t = code.toList.flatMap Json.escapeChar ∨
      t = summary.toList.flatMap Json.escapeChar := by
    simp only [answerFrame, List.mem_cons, List.not_mem_nil, or_false] at ht ⊢
    tauto
  rcases hpiece with ht | rfl | rfl
  · exact .inl ⟨t, ht, hn⟩
  · exact .inr (.inl hn)
  · exact .inr (.inr hn)

/-- An answer is one line: it has no control characters. -/
lemma not_mem_answerText {c : Char} (hc : c.toNat < 32) : c ∉ answerText code summary := by
  intro h
  have hframe : ∀ t ∈ answerFrame, t.all (fun d => 32 ≤ d.toNat) = true := by decide
  have hesc : ∀ t : List Char, c ∉ t.flatMap Json.escapeChar := fun t hm =>
    let ⟨_, _, h⟩ := List.mem_flatMap.1 hm
    Json.escapeChar_printable h hc
  have hq : '"' ∉ [c] := by
    rw [List.mem_singleton]
    rintro rfl
    exact absurd hc (by decide)
  rcases infix_answerText_cases hq (List.cons_ne_nil c []) ((List.singleton_infix_iff c _).2 h) with
    ⟨t, ht, hm⟩ | hm | hm
  · have hge := List.all_eq_true.1 (hframe t ht) c ((List.singleton_infix_iff c _).1 hm)
    exact absurd hc (by simpa using hge)
  · exact hesc _ ((List.singleton_infix_iff c _).1 hm)
  · exact hesc _ ((List.singleton_infix_iff c _).1 hm)

/-- A text that the frame of an answer does not have stands in the answer only where it stands
in the code or in the summary. -/
lemma infix_of_infix_answerText {needle : List Char} (hu : Json.Unescaped needle)
    (hq : '"' ∉ needle) (hf : ∀ t ∈ answerFrame, ¬ needle <:+: t)
    (h : needle <:+: answerText code summary) :
    needle <:+: code.toList ∨ needle <:+: summary.toList := by
  have hne : needle ≠ [] := by
    obtain ⟨n, ns, rfl, -⟩ := hu.head
    exact List.cons_ne_nil n ns
  rcases infix_answerText_cases hq hne h with ⟨t, ht, hn⟩ | hn | hn
  · exact absurd hn (hf t ht)
  · exact .inl (Json.infix_of_infix_flatMap_escapeChar hu hn)
  · exact .inr (Json.infix_of_infix_flatMap_escapeChar hu hn)

/-! ### What is made of it -/

lemma attempt_answerText (allowLists : Bool) :
    attempt allowLists (answerText code summary) = .parsed (answerJson code summary) := by
  obtain ⟨inner, htext⟩ := exists_answerText_eq code summary
  have hread : read? (answerText code summary) = some (answerJson code summary) := by
    rw [read?, parse?_answerText, Option.some_or]
  rw [attempt, trim_answerText, htext]
  simp only [← htext, hread, answerJson_eq]

lemma stringField?_code : (answerJson code summary).stringField? "code" = some code := by
  simp [answerJson_eq, Json.stringField?, Json.field?, Json.string?]

lemma stringField?_summary : (answerJson code summary).stringField? "summary" = some summary := by
  simp [answerJson_eq, Json.stringField?, Json.field?, Json.string?, lookup_cons_if]

/-- An answer is taken over unless it was found as a balanced block. -/
lemma proposalFrom_answer {strategy : Strategy} (hs : strategy ≠ .balancedBlock)
    (hc : blank code = false) (raw : String) (fragment : List Char) :
    proposalFrom raw (.found (answerJson code summary) strategy fragment) =
      some ⟨code, trimmed? summary⟩ := by
  have hanswer : answer? (.found (answerJson code summary) strategy fragment) =
      some (.found (answerJson code summary) strategy fragment) := by
    cases strategy <;> first | rfl | exact absurd rfl hs
  rw [proposalFrom, hanswer]
  simp only [Option.bind_some, codeField?, Extraction.stringField?, Extraction.data?,
    stringField?_code, stringField?_summary, Option.some_or, Option.filter_some, hc,
    Bool.not_false, if_true]

lemma blank_eq_false_iff {s : String} : blank s = false ↔ ∃ c ∈ s.toList, isBlank c = false := by
  rw [blank, List.isEmpty_eq_false_iff, ne_eq, trim_eq_nil_iff]
  simp

lemma extractWith_of_first {allowLists : Bool} {raw candidate : List Char} {strategy : Strategy}
    {data : Json} (h : (candidates raw).head? = some (strategy, candidate))
    (hp : attempt allowLists candidate = .parsed data) :
    extractWith allowLists raw = found data strategy candidate := by
  obtain ⟨rest, hrest⟩ := List.head?_eq_some_iff.1 h
  rw [extractWith, hrest, tryAll, hp]

/-- A reply whose first candidate is an answer. -/
lemma interpret_of_first {raw : String} {strategy : Strategy}
    (h : (candidates raw.toList).head? = some (strategy, answerText code summary))
    (hs : strategy ≠ .balancedBlock) (hraw : blank raw = false) (hcode : blank code = false) :
    interpret raw = some ⟨code, trimmed? summary⟩ := by
  rw [interpret, extraction?, hraw, if_neg Bool.false_ne_true, Option.bind_some,
    extractWith_of_first h (attempt_answerText false), found, proposalFrom_answer hs hcode]

end Mender.Reply
