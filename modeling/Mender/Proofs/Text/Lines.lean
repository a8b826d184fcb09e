import Mathlib.Data.List.DropRight
import Mathlib.Tactic.Common
import Mathlib.Tactic.Lemma
import Mender.Proofs.Text.Search
import Mender.Text.Lines

/-!
How a text falls into lines.

The lines after a line feed do not depend on what stands before it. Each line is a stretch of
the text between two line ends, and every stretch without a line feed that does not end in a
carriage return stands in one line. Lines that are put together again give the text without the carriage
returns in front of its line feeds.
-/

namespace Mender.Text

lemma lineRuns_append (a b : List Char) :
    lineRuns (a ++ '\n' :: b) = lineRuns (a ++ ['\n']) ++ lineRuns b := by
  induction a with
  | nil => simp [lineRuns]
  | cons c a ih =>
    simp only [List.cons_append, lineRuns, ih]
    split
    · rfl
    · -- a text that is not empty has a first piece, which takes the character up
      cases h : lineRuns (a ++ ['\n']) with
      | nil => exact absurd (h ▸ flatten_lineRuns (a ++ ['\n'])) (by simp)
      | cons l ls => rfl

lemma lines_append (a b : List Char) :
    lines (a ++ '\n' :: b) = lines (a ++ ['\n']) ++ lines b := by
  rw [lines, lineRuns_append, List.map_append]
  rfl

lemma lineRuns_feed {t : List Char} (h : '\n' ∉ t) : lineRuns (t ++ ['\n']) = [t ++ ['\n']] := by
  induction t with
  | nil => rfl
  | cons c t ih =>
    obtain ⟨hc, ht⟩ := not_or.1 (mt List.mem_cons.2 h)
    simp [lineRuns, Ne.symm hc, ih ht]

lemma lineRuns_feedless {t : List Char} (h : '\n' ∉ t) (ht : t ≠ []) : lineRuns t = [t] := by
  induction t with
  | nil => exact absurd rfl ht
  | cons c t ih =>
    obtain ⟨hc, hr⟩ := not_or.1 (mt List.mem_cons.2 h)
    cases t with
    | nil => simp [lineRuns, Ne.symm hc]
    | cons d r => rw [lineRuns, if_neg (Ne.symm hc), ih hr (by simp)]

lemma dropLineEnd_feedless {l : List Char} (h : '\n' ∉ l) : dropLineEnd l = l := by
  unfold dropLineEnd
  split
  · next hl => exact absurd (List.mem_reverse.1 (hl ▸ List.mem_cons_self)) h
  · next hl => exact absurd (List.mem_reverse.1 (hl ▸ List.mem_cons_self)) h
  · rfl

/-- A text without a line feed is one line. -/
lemma lines_feedless {t : List Char} (h : '\n' ∉ t) (ht : t ≠ []) : lines t = [t] := by
  rw [lines, lineRuns_feedless h ht, List.map_singleton, dropLineEnd_feedless h]

lemma dropLineEnd_return (l : List Char) : dropLineEnd (l ++ ['\r', '\n']) = l := by
  simp [dropLineEnd]

lemma dropLineEnd_feed {l : List Char} (h : l.getLast? ≠ some '\r') :
    dropLineEnd (l ++ ['\n']) = l := by
  rw [← List.head?_reverse] at h
  rw [dropLineEnd, List.reverse_append]
  cases hl : l.reverse with
  | nil => simpa using hl.symm
  | cons c r =>
    have hc : c ≠ '\r' := by
      rintro rfl
      simp [hl] at h
    have : l = (c :: r).reverse := by rw [← hl, List.reverse_reverse]
    simp [hc, this]

/-- A line that is closed by a line feed. -/
lemma lines_feed {l : List Char} (h : '\n' ∉ l) (hr : l.getLast? ≠ some '\r') :
    lines (l ++ ['\n']) = [l] := by
  rw [lines, lineRuns_feed h, List.map_singleton, dropLineEnd_feed hr]

lemma lines_cons {l : List Char} (h : '\n' ∉ l) (hr : l.getLast? ≠ some '\r') (t : List Char) :
    lines (l ++ '\n' :: t) = l :: lines t := by
  rw [lines_append, lines_feed h hr]
  rfl

/-- What is written line by line is read so. -/
lemma lines_unlines {ls : List (List Char)} (hne : ls ≠ [])
    (h : ∀ l ∈ ls, '\n' ∉ l ∧ l ≠ [] ∧ l.getLast? ≠ some '\r') : lines (unlines ls) = ls := by
  induction ls with
  | nil => exact absurd rfl hne
  | cons l ls ih =>
    obtain ⟨hl, hls⟩ := List.forall_mem_cons.1 h
    rcases ls with _ | ⟨m, ls⟩
    · rw [unlines, List.intercalate_singleton, lines_feedless hl.1 hl.2.1]
    · rw [unlines, List.intercalate_cons_cons, ← unlines, List.append_assoc, List.singleton_append,
        lines_cons hl.1 hl.2.2, ih (by simp) hls]

/-- A text is read line by line. -/
lemma byLines {P : List Char → Prop} (last : ∀ t, '\n' ∉ t → P t)
    (cons : ∀ l t, '\n' ∉ l → P t → P (l ++ '\n' :: t)) (t : List Char) : P t := by
  suffices h : ∀ l, '\n' ∉ l → P (l ++ t) by simpa using h [] List.not_mem_nil
  induction t with
  | nil => simpa using last
  | cons c t ih =>
    intro l hl
    by_cases hc : c = '\n'
    · subst hc
      exact cons l t hl (by simpa using ih [] List.not_mem_nil)
    · have := ih (l ++ [c]) (by simp [hl, Ne.symm hc])
      simpa using this

/-- How a line that ends in front of `y` is closed. -/
inductive LineClosed (l : List Char) : List Char → Prop
  | textEnd (h : l ≠ []) : LineClosed l []
  | feed (h : l.getLast? ≠ some '\r') (r : List Char) : LineClosed l ('\n' :: r)
  | return (r : List Char) : LineClosed l ('\r' :: '\n' :: r)

/-- The stretch `l` of a text is a line, with `x` in front of it and `y` behind it. -/
structure IsLine (x l y : List Char) : Prop where
  feedless : '\n' ∉ l
  opened : x = [] ∨ x.getLast? = some '\n'
  closed : LineClosed l y

lemma IsLine.behind {x l y : List Char} (h : IsLine x l y) (w : List Char) :
    IsLine (w ++ '\n' :: x) l y := by
  refine ⟨h.feedless, .inr ?_, h.closed⟩
  rcases h.opened with rfl | hx
  · simp
  · simp [List.getLast?_cons, hx]

/-- The line that a text begins with, and those behind it. -/
lemma lines_of_closed {l y : List Char} (h : '\n' ∉ l) (hy : LineClosed l y) :
    ∃ z, z <:+ y ∧ lines (l ++ y) = l :: lines z := by
  cases hy with
  | textEnd hl =>
    refine ⟨[], List.suffix_rfl, ?_⟩
    rw [List.append_nil, lines_feedless h hl]
    rfl
  | feed hr r => exact ⟨r, List.suffix_cons _ _, lines_cons h hr r⟩
  | «return» r =>
    have hl : '\n' ∉ l ++ ['\r'] := by simp [h]
    have hrun : lines (l ++ ['\r'] ++ ['\n']) = [l] := by
      rw [lines, lineRuns_feed hl, List.map_singleton, List.append_assoc]
      exact congrArg (fun k => [k]) (dropLineEnd_return l)
    have hall := lines_append (l ++ ['\r']) r
    rw [hrun, List.append_assoc] at hall
    exact ⟨r, (List.suffix_cons _ _).trans (List.suffix_cons _ _), hall⟩

lemma mem_lines_of_closed {l y : List Char} (h : '\n' ∉ l) (hy : LineClosed l y) :
    l ∈ lines (l ++ y) := by
  obtain ⟨z, -, hz⟩ := lines_of_closed h hy
  rw [hz]
  exact List.mem_cons_self

/-- The lines behind a line end. -/
lemma lines_behind {x : List Char} (hx : x = [] ∨ x.getLast? = some '\n') (t : List Char) :
    lines (x ++ t) = lines x ++ lines t := by
  rcases hx with rfl | hx
  · rfl
  · obtain ⟨y, rfl⟩ := List.getLast?_eq_some_iff.1 hx
    rw [List.append_assoc, List.singleton_append, lines_append]

/-- **The lines of a text** are its stretches between two line ends. -/
theorem mem_lines_iff {l t : List Char} :
    l ∈ lines t ↔ ∃ x y, t = x ++ l ++ y ∧ IsLine x l y := by
  constructor
  · intro hl
    induction t using byLines with
    | last t ht =>
      cases t with
      | nil => simp [lines, lineRuns] at hl
      | cons c r =>
        rw [lines_feedless ht (by simp), List.mem_singleton] at hl
        exact ⟨[], [], by simp [hl], hl ▸ ht, .inl rfl, .textEnd (by simp [hl])⟩
    | cons k t hk ih =>
      rw [lines_append, List.mem_append] at hl
      rcases hl with hl | hl
      · -- the first line, with the carriage return that may belong to its end
        rw [lines, lineRuns_feed hk, List.map_singleton, List.mem_singleton] at hl
        by_cases hr : k.getLast? = some '\r'
        · obtain ⟨k, rfl⟩ := List.getLast?_eq_some_iff.1 hr
          rw [List.append_assoc] at hl
          obtain rfl : l = k := hl.trans (dropLineEnd_return k)
          exact ⟨[], '\r' :: '\n' :: t, by simp, fun hn => hk (List.mem_append_left _ hn), .inl rfl,
            .return t⟩
        · obtain rfl : l = k := hl.trans (dropLineEnd_feed hr)
          exact ⟨[], '\n' :: t, by simp, hk, .inl rfl, .feed hr t⟩
      · obtain ⟨x, y, rfl, h⟩ := ih hl
        exact ⟨k ++ '\n' :: x, y, by simp, h.behind k⟩
  · rintro ⟨x, y, rfl, h⟩
    have hl := mem_lines_of_closed h.feedless h.closed
    rw [List.append_assoc, lines_behind h.opened]
    exact List.mem_append_right _ hl

lemma infix_of_mem_lines {l t : List Char} (h : l ∈ lines t) : l <:+: t := by
  obtain ⟨x, y, rfl, -⟩ := mem_lines_iff.1 h
  exact ⟨x, y, rfl⟩

/-- What follows the last line feed of a text. -/
lemma exists_last_feed (t : List Char) :
    ∃ x r, t = x ++ r ∧ '\n' ∉ r ∧ (x = [] ∨ x.getLast? = some '\n') := by
  induction t using byLines with
  | last t ht => exact ⟨[], t, rfl, ht, .inl rfl⟩
  | cons l t hl ih =>
    obtain ⟨x, r, rfl, hr, hx⟩ := ih
    refine ⟨l ++ '\n' :: x, r, by simp, hr, .inr ?_⟩
    rcases hx with rfl | hx
    · simp
    · simp [List.getLast?_cons, hx]

/-- The end of the line that goes on with `b`. -/
lemma exists_line_end {m b : List Char} (hm : '\n' ∉ m) (hne : m ≠ [])
    (hr : m.getLast? ≠ some '\r') :
    ∃ r y, b = r ++ y ∧ '\n' ∉ m ++ r ∧ LineClosed (m ++ r) y := by
  induction b using byLines with
  | last b hb => exact ⟨b, [], by simp, by simp [hm, hb], .textEnd (by simp [hne])⟩
  | cons l t hl _ =>
    by_cases hlast : l.getLast? = some '\r'
    · obtain ⟨k, rfl⟩ := List.getLast?_eq_some_iff.1 hlast
      exact ⟨k, '\r' :: '\n' :: t, by simp, by simp_all, .return t⟩
    · refine ⟨l, '\n' :: t, rfl, by simp [hm, hl], .feed ?_ t⟩
      cases l with
      | nil => simpa using hr
      | cons c l => simpa [List.getLast?_append] using hlast

/-- A stretch without a line feed stands in one line, unless it ends inside a line end. -/
theorem exists_line_around {a m b : List Char} (hm : '\n' ∉ m) (hne : m ≠ [])
    (hr : m.getLast? ≠ some '\r') :
    ∃ x a' b' y, a = x ++ a' ∧ b = b' ++ y ∧ IsLine x (a' ++ m ++ b') y := by
  obtain ⟨x, a', rfl, ha, hx⟩ := exists_last_feed a
  have hlast : (a' ++ m).getLast? ≠ some '\r' := by
    rwa [List.getLast?_append_of_ne_nil _ hne]
  obtain ⟨b', y, rfl, hb, hy⟩ :=
    exists_line_end (b := b) (show '\n' ∉ a' ++ m by simp [ha, hm]) (by simp [hne]) hlast
  exact ⟨x, a', b', y, rfl, rfl, hb, hx, hy⟩

/-! ### The line that a text ends in -/

/-- What stands behind the last line feed. -/
def lastLine (t : List Char) : List Char := t.rtakeWhile (· != '\n')

lemma lastLine_append {x : List Char} (hx : x = [] ∨ x.getLast? = some '\n') {r : List Char}
    (hr : '\n' ∉ r) : lastLine (x ++ r) = r := by
  have hall : ∀ c ∈ r.reverse, (c != '\n') = true := by
    intro c hc
    rw [bne_iff_ne]
    rintro rfl
    exact hr (List.mem_reverse.1 hc)
  rw [lastLine, List.rtakeWhile, List.reverse_append, List.takeWhile_append_of_pos hall]
  rcases hx with rfl | hx
  · simp
  · obtain ⟨y, rfl⟩ := List.getLast?_eq_some_iff.1 hx
    simp

lemma notMem_lastLine (t : List Char) : '\n' ∉ lastLine t := fun h => by
  have := List.mem_rtakeWhile_imp h
  simp at this

lemma lastLine_of_notMem {t : List Char} (h : '\n' ∉ t) : lastLine t = t :=
  lastLine_append (x := []) (.inl rfl) h

lemma lastLine_suffix (x t : List Char) : lastLine t <:+ lastLine (x ++ t) := by
  obtain ⟨y, r, rfl, hr, hy⟩ := exists_last_feed t
  rw [lastLine_append hy hr]
  rcases hy with rfl | hy
  · obtain ⟨z, s, rfl, hs, hz⟩ := exists_last_feed x
    rw [List.nil_append, List.append_assoc, lastLine_append hz (by simp [hs, hr])]
    exact List.suffix_append s r
  · rw [← List.append_assoc, lastLine_append (.inr ?_) hr]
    rw [List.getLast?_append, hy, Option.some_or]

/-- What stands in front of the line that a text ends in. -/
def wholeLines (t : List Char) : List Char := t.rdropWhile (· != '\n')

lemma wholeLines_isPrefix (t : List Char) : wholeLines t <+: t := List.rdropWhile_prefix _ _

lemma wholeLines_append {x : List Char} (hx : x = [] ∨ x.getLast? = some '\n') {r : List Char}
    (hr : '\n' ∉ r) : wholeLines (x ++ r) = x := by
  have hall : wholeLines (x ++ r) ++ lastLine (x ++ r) = x ++ r :=
    List.rdropWhile_append_rtakeWhile
  rw [lastLine_append hx hr] at hall
  exact List.append_cancel_right hall

lemma lines_wholeLines (t : List Char) : lines t = lines (wholeLines t) ++ lines (lastLine t) := by
  obtain ⟨x, r, rfl, hr, hx⟩ := exists_last_feed t
  rw [wholeLines_append hx hr, lastLine_append hx hr, lines_behind hx]

/-- The lines of a text around a stretch of it: those in front of it, those that it reaches into,
and those behind it. -/
lemma exists_lines_around {m : List Char} {d : Char} (hm : m.getLast? = some d)
    (hd : d ≠ '\n' ∧ d ≠ '\r') (a b : List Char) :
    ∃ r z, '\n' ∉ r ∧ (lastLine a ++ (m ++ r)).getLast? ≠ some '\n' ∧
      lines (a ++ (m ++ b)) =
        lines (wholeLines a) ++ (lines (lastLine a ++ (m ++ r)) ++ lines z) := by
  obtain ⟨x, p, rfl, hp, hx⟩ := exists_last_feed a
  rw [lastLine_append hx hp, wholeLines_append hx hp]
  obtain ⟨x', k, hk, hkn, hx'⟩ := exists_last_feed (p ++ m)
  have hlast : (x' ++ k).getLast? = some d := by
    rw [← hk, List.getLast?_append, hm, Option.some_or]
  have hne : k ≠ [] := by
    rintro rfl
    rw [List.append_nil] at hlast
    rcases hx' with rfl | hx'
    · cases hlast
    · rw [hx'] at hlast
      exact hd.1 (Option.some.inj hlast).symm
  rw [List.getLast?_append_of_ne_nil _ hne] at hlast
  obtain ⟨r, y, rfl, hr, hy⟩ := exists_line_end hkn hne (b := b) (by simpa [hlast] using hd.2)
  obtain ⟨z, -, hz⟩ := lines_of_closed hr hy
  have hone : lines (k ++ r) = [k ++ r] := lines_feedless hr (by simp [hne])
  have hassoc (t : List Char) : p ++ (m ++ t) = x' ++ (k ++ t) := by
    rw [← List.append_assoc, hk, List.append_assoc]
  refine ⟨r, z, fun h => hr (List.mem_append_right _ h), ?_, ?_⟩
  · rw [hassoc, List.getLast?_append_of_ne_nil _ (by simp [hne])]
    exact fun hl => hr (List.mem_of_getLast? hl)
  · rw [List.append_assoc, lines_behind hx, hassoc, lines_behind hx', ← List.append_assoc k, hz,
      hassoc, lines_behind hx', hone, List.append_assoc]
    rfl

/-! ### Lines put together -/

lemma unlines_append_cons (A : List (List Char)) (l : List Char) (B : List (List Char)) :
    unlines (A ++ l :: B) = A.flatMap (· ++ ['\n']) ++ (l ++ B.flatMap ('\n' :: ·)) := by
  have hrest : unlines (l :: B) = l ++ B.flatMap ('\n' :: ·) := by
    induction B generalizing l with
    | nil => simp [unlines]
    | cons k B ih =>
      rw [unlines, List.intercalate_cons_cons, ← unlines, ih, List.flatMap_cons,
        List.append_assoc, List.singleton_append, List.cons_append]
  induction A with
  | nil => simpa using hrest
  | cons k A ih =>
    rw [List.cons_append, unlines, List.intercalate_cons_of_ne_nil (by simp), ← unlines, ih]
    simp

lemma unlines_around (A : List (List Char)) {L : List (List Char)} (hL : L ≠ [])
    (B : List (List Char)) : unlines (A ++ (L ++ B)) =
      A.flatMap (· ++ ['\n']) ++ (unlines L ++ B.flatMap ('\n' :: ·)) := by
  obtain ⟨l, L, rfl⟩ := List.exists_cons_of_ne_nil hL
  have hhead := unlines_append_cons [] l L
  rw [List.nil_append, List.flatMap_nil, List.nil_append] at hhead
  rw [List.cons_append, unlines_append_cons, hhead, List.flatMap_append, List.append_assoc]

lemma lines_ne_nil {t : List Char} (h : t ≠ []) : lines t ≠ [] := by
  intro hnil
  have hflat := flatten_lineRuns t
  rw [List.map_eq_nil_iff.1 hnil] at hflat
  exact h hflat.symm

lemma unlines_feed {ls : List (List Char)} (hne : ls ≠ []) :
    unlines ls ++ ['\n'] = ls.flatMap (· ++ ['\n']) := by
  rw [← List.dropLast_append_getLast hne, unlines_append_cons]
  simp

lemma infix_unlines_iff {needle : List Char} (hn : '\n' ∉ needle) (hne : needle ≠ [])
    (ls : List (List Char)) : needle <:+: unlines ls ↔ ∃ l ∈ ls, needle <:+: l :=
  infix_intercalate_iff hn hne ls

/-- What stands in a text and does not begin or end a line stands in one of its lines. -/
lemma exists_mem_lines {c : Char} {t : List Char} (h : c ∈ t) (hn : c ≠ '\n') (hr : c ≠ '\r') :
    ∃ l ∈ lines t, c ∈ l := by
  obtain ⟨a, b, rfl⟩ := List.append_of_mem h
  rw [List.append_cons]
  obtain ⟨x, a', b', y, rfl, rfl, hl⟩ :=
    exists_line_around (a := a) (m := [c]) (b := b) (by simpa using hn.symm) (by simp)
      (by simpa using hr)
  exact ⟨a' ++ [c] ++ b', mem_lines_iff.2 ⟨x, y, by simp, hl⟩, by simp⟩

/-! ### Carriage returns at line ends -/

/-- The text without the carriage returns that belong to line ends. -/
def withoutReturns : List Char → List Char
  | [] => []
  | c :: r =>
    if c = '\r' ∧ r.head? = some '\n' then withoutReturns r else c :: withoutReturns r

variable {a b t : List Char}

lemma withoutReturns_cons {c : Char} (h : c ≠ '\r') (t : List Char) :
    withoutReturns (c :: t) = c :: withoutReturns t := by
  simp [withoutReturns, h]

lemma withoutReturns_append (h : a.getLast? ≠ some '\r') (b : List Char) :
    withoutReturns (a ++ b) = withoutReturns a ++ withoutReturns b := by
  induction a with
  | nil => rfl
  | cons c a ih =>
    cases a with
    | nil =>
      have hc : c ≠ '\r' := by simpa using h
      simp [withoutReturns, hc]
    | cons d a =>
      have hrest := ih (by simpa [List.getLast?_cons_cons] using h)
      by_cases hc : c = '\r' ∧ d = '\n'
      · rw [List.cons_append, withoutReturns, if_pos (by simpa using hc), hrest,
          withoutReturns.eq_def (c :: d :: a)]
        simp [hc]
      · rw [List.cons_append, withoutReturns, if_neg (by simpa using hc), hrest,
          withoutReturns.eq_def (c :: d :: a)]
        simp [hc]

lemma withoutReturns_append_cons {c : Char} (h : c ≠ '\n') (a r : List Char) :
    withoutReturns (a ++ c :: r) = withoutReturns a ++ withoutReturns (c :: r) := by
  induction a with
  | nil => rfl
  | cons d a ih =>
    have hhead : ((a ++ c :: r).head? = some '\n') = (a.head? = some '\n') := by
      cases a <;> simp [h]
    simp only [List.cons_append, withoutReturns, hhead] at ih ⊢
    split
    · exact ih
    · rw [ih, List.cons_append]

lemma withoutReturns_of_notMem {c : Char} (hc : c = '\r' ∨ c = '\n') (h : c ∉ t) :
    withoutReturns t = t := by
  induction t with
  | nil => rfl
  | cons d t ih =>
    obtain ⟨hd, ht⟩ := not_or.1 (mt List.mem_cons.2 h)
    rw [withoutReturns, if_neg, ih ht]
    rintro ⟨rfl, hhead⟩
    rcases hc with rfl | rfl
    · exact hd rfl
    · exact ht (List.mem_of_head? hhead)

lemma withoutReturns_sublist (t : List Char) : (withoutReturns t).Sublist t := by
  induction t with
  | nil => exact .slnil
  | cons c t ih =>
    rw [withoutReturns]
    split
    · exact ih.cons _
    · exact ih.cons_cons _

/-! ### What stands in the text -/

variable {needle : List Char}

lemma prefix_of_prefix_withoutReturns (hn : '\n' ∉ needle) (h : needle <+: withoutReturns t) :
    needle <+: t := by
  induction t generalizing needle with
  | nil => exact h
  | cons c t ih =>
    cases needle with
    | nil => exact List.nil_prefix
    | cons n needle =>
      obtain ⟨hne, hrest⟩ := not_or.1 (mt List.mem_cons.2 hn)
      rw [withoutReturns] at h
      split at h
      · next hreturn =>
        -- the line feed behind the carriage return stays
        obtain ⟨t, rfl⟩ := List.head?_eq_some_iff.1 hreturn.2
        rw [withoutReturns_cons (by decide), List.cons_prefix_cons] at h
        exact absurd h.1.symm hne
      · rw [List.cons_prefix_cons] at h
        exact List.cons_prefix_cons.2 ⟨h.1, ih hrest h.2⟩

lemma infix_of_infix_withoutReturns (hn : '\n' ∉ needle) (h : needle <:+: withoutReturns t) :
    needle <:+: t := by
  induction t with
  | nil => exact h
  | cons c t ih =>
    by_cases hreturn : c = '\r' ∧ t.head? = some '\n'
    · rw [withoutReturns, if_pos hreturn] at h
      exact List.infix_cons (ih h)
    · have hcons : withoutReturns (c :: t) = c :: withoutReturns t := by
        rw [withoutReturns, if_neg hreturn]
      rcases List.infix_cons_iff.1 (hcons ▸ h) with hp | hi
      · exact (prefix_of_prefix_withoutReturns hn (hcons ▸ hp)).isInfix
      · exact List.infix_cons (ih hi)

/-! ### Lines put together -/

lemma dropLineEnd_feed_eq {l : List Char} (h : '\n' ∉ l) :
    dropLineEnd (l ++ ['\n']) ++ ['\n'] = withoutReturns (l ++ ['\n']) := by
  by_cases hr : l.getLast? = some '\r'
  · obtain ⟨k, rfl⟩ := List.getLast?_eq_some_iff.1 hr
    rw [List.append_assoc, List.singleton_append, withoutReturns_append_cons (by decide),
      withoutReturns_of_notMem (.inr rfl) fun hk => h (List.mem_append_left _ hk)]
    exact congrArg (· ++ ['\n']) (dropLineEnd_return k)
  · rw [dropLineEnd_feed hr, withoutReturns_append hr, withoutReturns_of_notMem (.inr rfl) h]
    rfl

lemma flatMap_lines_feed (t : List Char) :
    (lines (t ++ ['\n'])).flatMap (· ++ ['\n']) = withoutReturns (t ++ ['\n']) := by
  have hline (l : List Char) (h : '\n' ∉ l) :
      (lines (l ++ ['\n'])).flatMap (· ++ ['\n']) = withoutReturns (l ++ ['\n']) := by
    rw [lines, lineRuns_feed h, List.map_singleton, List.flatMap_singleton, dropLineEnd_feed_eq h]
  induction t using byLines with
  | last t ht => exact hline t ht
  | cons l t hl ih =>
    have hsplit : l ++ '\n' :: t ++ ['\n'] = l ++ ['\n'] ++ (t ++ ['\n']) := by simp
    rw [hsplit, withoutReturns_append (by simp), ← hline l hl, ← ih, ← List.flatMap_append,
      List.append_assoc, List.singleton_append, lines_append]

lemma unlines_lines_feed (t : List Char) :
    unlines (lines (t ++ ['\n'])) ++ ['\n'] = withoutReturns (t ++ ['\n']) := by
  rw [unlines_feed (lines_ne_nil (by simp)), flatMap_lines_feed]

/-- **Lines put together** are the text without the carriage returns at its line ends, when it
ends in the middle of a line. -/
theorem unlines_lines (h : t.getLast? ≠ some '\n') : unlines (lines t) = withoutReturns t := by
  obtain ⟨x, r, rfl, hr, hx⟩ := exists_last_feed t
  rcases eq_or_ne r [] with rfl | hne
  · rw [List.append_nil] at h ⊢
    rw [hx.resolve_right h]
    rfl
  have hlast : lines r = [r] := lines_feedless hr hne
  have hkeep : withoutReturns r = r := withoutReturns_of_notMem (.inr rfl) hr
  rcases hx with rfl | hx
  · rw [List.nil_append, hlast, hkeep, unlines, List.intercalate_singleton]
  · obtain ⟨x, rfl⟩ := List.getLast?_eq_some_iff.1 hx
    rw [withoutReturns_append (by simp), ← flatMap_lines_feed, List.append_assoc,
      List.singleton_append, lines_append, hlast, unlines_append_cons, hkeep, List.flatMap_nil,
      List.append_nil]

end Mender.Text
