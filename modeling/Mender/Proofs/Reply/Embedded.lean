import Mathlib
import Mender.Proofs.Reply.Noise

/-!
Objects anywhere in a reply.

The lines of an object that are no fence lines stay, and so does the object. From its own brace it
is a balanced block, whatever quotes and braces stand in front of it; those only count against the
number of braces that are looked at. No candidate that is tried before the blocks ends the search
without data when lists are allowed. Without a brace or a bracket there is nothing to find.
-/

namespace Mender.Reply

open Mender.Text

/-- The lines that a stretch of a text stands on. -/
def linesOn (before stretch after : List Char) : List (List Char) :=
  lines (lastLine before ++ (stretch ++ after.takeWhile (· != '\n')))

/-! ### Braces in front -/

lemma mem_take_openings {a : List Char} {n : Nat} (h : a.count '{' < n) (w : List Char) :
    '{' :: w ∈ (openings (a ++ '{' :: w)).take n := by
  induction a generalizing n with
  | nil =>
    obtain ⟨n, rfl⟩ := Nat.exists_eq_succ_of_ne_zero (Nat.ne_zero_of_lt h)
    exact List.mem_cons_self
  | cons c a ih =>
    rw [List.cons_append, openings]
    split
    · next hc =>
      rw [hc, List.count_cons_self] at h
      obtain ⟨n, rfl⟩ := Nat.exists_eq_succ_of_ne_zero (Nat.ne_zero_of_lt h)
      rw [List.take_succ_cons]
      exact List.mem_cons_of_mem _ (ih (Nat.lt_of_succ_lt_succ h))
    · next hc =>
      rw [List.count_cons_of_ne hc] at h
      exact ih h

lemma subset_loop_eraseReps (a : List Char) (l acc : List (List Char)) :
    acc.reverse ++ a :: l ⊆ List.eraseRepsBy.loop (· == ·) a l acc := by
  induction l generalizing a acc with
  | nil => simp [List.eraseRepsBy.loop]
  | cons b l ih =>
    rw [List.eraseRepsBy.loop]
    split
    · next hab =>
      rw [beq_iff_eq] at hab
      subst hab
      refine List.Subset.trans (fun x hx => ?_) (ih a acc)
      simp only [List.mem_append, List.mem_cons] at hx ⊢
      tauto
    · refine List.Subset.trans (fun x hx => ?_) (ih b (a :: acc))
      simp only [List.mem_append, List.mem_cons, List.mem_reverse] at hx ⊢
      tauto

lemma subset_eraseReps (l : List (List Char)) : l ⊆ l.eraseReps := by
  cases l with
  | nil => exact List.nil_subset _
  | cons a l => exact subset_loop_eraseReps a l []

/-- **The text of an object is a block**, when it is not too far behind. -/
theorem mem_balancedBlocks {d : Nat} {fs : List (String × Json)} {u a : List Char}
    (h : Json.Spelled d (.obj fs) u) (ha : a.count '{' < openingLimit) (s : List Char) :
    u ∈ balancedBlocks (a ++ (u ++ s)) := by
  have hclosed := closed?_object h s
  obtain ⟨w, rfl⟩ := h.object
  refine subset_eraseReps _ (List.mem_mergeSort.2 (List.mem_filterMap.2 ⟨_, ?_, hclosed⟩))
  exact mem_take_openings ha _

/-! ### What is left around an object -/

lemma count_unlines (ls : List (List Char)) :
    (unlines ls).count '{' = (ls.map (List.count '{')).sum := by
  rcases eq_or_ne ls [] with rfl | hne
  · rfl
  · have hline (l : List Char) : (l ++ ['\n']).count '{' = l.count '{' := by
      rw [List.count_append]
      rfl
    rw [← hline, unlines_feed hne, List.count_flatMap]
    exact congrArg List.sum (List.map_congr_left fun l _ => hline l)

variable {before w after : List Char} {fs : List (String × Json)}

lemma count_leftInFront (hf : isFenceLine (lastLine before) = false) :
    (leftInFront before).count '{' = (dropFences before).count '{' := by
  have hlast : ((plainLines (lastLine before)).map (List.count '{')).sum =
      (lastLine before).count '{' := by
    rcases eq_or_ne (lastLine before) [] with hnil | hne
    · rw [hnil]
      rfl
    · rw [plainLines, lines_feedless (notMem_lastLine before) hne,
        List.filter_cons_of_pos (by simp [hf]), List.filter_nil, List.map_singleton,
        List.sum_singleton]
  rw [leftInFront_eq_unlines, dropFences, lines_wholeLines, List.filter_append, count_unlines,
    count_unlines, List.map_append, List.map_append, List.sum_append, List.sum_append,
    List.map_singleton, List.sum_singleton, ← hlast]
  rfl

/-- A line that goes on visibly is no fence line, and neither is what it begins with. -/
lemma isFenceLine_front {p s : List Char} {c : Char} (hp : '\n' ∉ p) (hc : c ≠ '\n' ∧ c ≠ '\r')
    (h : ∀ l ∈ lines (p ++ c :: s), isFenceLine l = false) : isFenceLine p = false := by
  obtain ⟨r, y, rfl, hr, hy⟩ := exists_line_end (m := p ++ [c]) (b := s) (by simp [hp, hc.1.symm])
    (by simp) (by simpa using hc.2)
  have hline := mem_lines_of_closed hr hy
  rw [List.append_assoc, List.append_assoc, List.singleton_append] at hline
  rw [← Bool.not_eq_true]
  intro hf
  have hwhole := h _ hline
  rw [List.append_assoc, isFenceLine_append hf] at hwhole
  cases hwhole

/-- What is left of a reply around an object in it. -/
lemma exists_dropFences_object (ho : Json.parse? ('{' :: w) = some (.obj fs))
    (hf : isFenceLine (lastLine before) = false) (after : List Char) :
    ∃ u rest, Json.Spelled Json.depthLimit (.obj fs) u ∧
      dropFences (before ++ ('{' :: w ++ after)) = leftInFront before ++ (u ++ rest) := by
  obtain ⟨b, u, e, hw, hb, -, hu⟩ := Json.parse?_eq_some_iff.1 ho
  obtain ⟨hframed, hu'⟩ := Json.spelled_withoutReturns hu
  obtain ⟨v, huv, hv⟩ := composes_solid.object_inner hu
  -- the object begins with its brace
  obtain rfl : b = [] := by
    cases b with
    | nil => rfl
    | cons c b =>
      have hc := hb c List.mem_cons_self
      rw [← (List.cons.inj hw).1] at hc
      cases hc
  have hlast : u.getLast? = some '}' := by
    rw [huv, ← List.cons_append, List.getLast?_concat]
  have hlines : ∀ r, '\n' ∉ r → ∀ l ∈ lines (lastLine before ++ (u ++ r)),
      isFenceLine l = false := by
    intro r hr l hl
    have hsolid : Solid (u ++ r) := by
      rw [huv, ← List.cons_append, List.append_assoc, List.singleton_append]
      exact (composes_solid.append (Solid.of_notMem (t := ['{']) (by decide)) hv).append
        (Solid.cons (by decide) (by decide) hr)
    exact isFenceLine_behind (c := '{') (notMem_lastLine before) hf (by rw [huv]; rfl) (by decide)
      (by decide) hsolid hl
  obtain ⟨r, y, hr, hdrop⟩ := exists_dropFences_around hlast (by decide) hlines (e ++ after)
  refine ⟨withoutReturns u, r ++ y, hu', ?_⟩
  rw [hw, List.nil_append, List.append_assoc, hdrop, hframed.around,
    withoutReturns_of_notMem (.inr rfl) (notMem_lastLine before),
    withoutReturns_of_notMem (.inr rfl) hr, leftInFront]
  simp only [List.append_assoc]

/-- Dropping the preamble and the blanks at the end leaves the object, and no more braces in front
of it. -/
lemma exists_dropPreamble_object {d : Nat} {u : List Char} (hu : Json.Spelled d (.obj fs) u)
    (front rest : List Char) : ∃ a s, dropPreamble (front ++ (u ++ rest)) = a ++ (u ++ s) ∧
      a.count '{' ≤ front.count '{' := by
  obtain ⟨v, rfl⟩ := hu.object
  have htrim (a : List Char) : trimEnd (a ++ ('{' :: (v ++ ['}']) ++ rest)) =
      a ++ ('{' :: (v ++ ['}']) ++ trimEnd rest) := by
    have hclose : dropTail isBlank ('}' :: rest) = '}' :: dropTail isBlank rest :=
      dropTail_cons (by decide) rest
    have hassoc (s : List Char) : a ++ ('{' :: (v ++ ['}']) ++ s) = a ++ '{' :: v ++ '}' :: s := by
      simp
    rw [hassoc, hassoc, trimEnd, dropTail_append_of_ne_nil (by simp [hclose]), hclose, trimEnd]
  have hsplit := List.takeWhile_append_dropWhile (p := fun c => !isOpener c) (l := front)
  have hplain : ∀ c ∈ front.takeWhile fun c => !isOpener c, isOpener c = false := fun c hc => by
    simpa using List.mem_takeWhile_imp hc
  refine ⟨front.dropWhile fun c => !isOpener c, trimEnd rest, ?_,
    (List.dropWhile_sublist _).count_le _⟩
  conv_lhs => rw [← hsplit]
  rw [← htrim, List.append_assoc]
  cases hdrop : front.dropWhile fun c => !isOpener c with
  | nil => exact dropPreamble_append hplain rfl _
  | cons c t =>
    have hc : isOpener c = true := by
      have := List.head?_dropWhile_not (fun c => !isOpener c) front
      rw [hdrop] at this
      simpa using this
    exact dropPreamble_append hplain hc _

/-! ### What is tried before the blocks -/

lemma exists_data_of_parsed {allowLists : Bool} {c : List Char} {data : Json}
    (h : attempt allowLists c = .parsed data) :
    (∃ fs, data = .obj fs) ∨ ∃ xs, data = .arr xs := by
  unfold attempt at h
  split at h
  · cases h
  · split at h
    · cases h
    · cases h
      exact .inl ⟨_, rfl⟩
    · split_ifs at h
      cases h
      exact .inr ⟨_, rfl⟩
    · cases h

/-- When lists are allowed, nothing but data ends the trying. -/
lemma exists_of_tryAll {raw : List Char} {last : Option Refusal}
    {cs : List (Strategy × List Char)} {e : Extraction} (h : tryAll true raw last cs = .ok e) :
    ∃ s c data, (s, c) ∈ cs ∧ attempt true c = .parsed data ∧ e = found data s c := by
  induction cs generalizing last with
  | nil => cases h
  | cons p cs ih =>
    obtain ⟨s, c⟩ := p
    rw [tryAll] at h
    split at h
    · next hp =>
      cases h
      exact ⟨s, c, _, List.mem_cons_self, hp, rfl⟩
    · next hp =>
      unfold attempt at hp
      split at hp
      · cases hp
      · split at hp <;> cases hp
    · obtain ⟨s', c', data, hm, hrest⟩ := ih h
      exact ⟨s', c', data, List.mem_cons_of_mem _ hm, hrest⟩
    · obtain ⟨s', c', data, hm, hrest⟩ := ih h
      exact ⟨s', c', data, List.mem_cons_of_mem _ hm, hrest⟩

/-- What is made of a reply: data from a candidate, or what the search in the blocks gives. -/
lemma extract_cases (raw : List Char) :
    (∃ s c data, (s, c) ∈ candidates raw ∧ attempt true c = .parsed data ∧
      extract raw = found data s c) ∨
      ∃ last, extract raw = searched true raw (dropPreamble (dropFences raw)) last := by
  rw [extract, extractWith]
  split
  · next h =>
    obtain ⟨s, c, data, hm, hp, rfl⟩ := exists_of_tryAll h
    exact .inl ⟨s, c, data, hm, hp, rfl⟩
  · next last h =>
    refine .inr ⟨last, ?_⟩
    rw [searched]
    cases tryBlocks true (balancedBlocks (dropPreamble (dropFences raw))) <;> rfl

/-! ### Without braces and brackets -/

/-- There is no brace and no bracket that opens. -/
def Unopened (t : List Char) : Prop := ∀ c ∈ t, isOpener c = false

lemma Unopened.subset {t u : List Char} (h : Unopened t) (hu : u ⊆ t) : Unopened u :=
  fun c hc => h c (hu hc)

lemma Unopened.notMem {t : List Char} (h : Unopened t) : '{' ∉ t := fun hm => by
  cases h _ hm

lemma Unopened.dropFences {t : List Char} (h : Unopened t) : Unopened (dropFences t) := by
  intro c hc
  by_cases hn : c = '\n'
  · rw [hn]
    rfl
  · have hinfix : [c] <:+: unlines (plainLines t) := (List.singleton_infix_iff _ _).2 hc
    obtain ⟨l, hl, hcl⟩ := (infix_unlines_iff (by simpa using Ne.symm hn) (by simp) _).1 hinfix
    exact h c ((infix_of_mem_plainLines hl hcl).subset List.mem_cons_self)

lemma Unopened.put {cs : List Char} {p : List Char × Bool} (hcs : Unopened cs)
    (hp : Unopened p.1) : Unopened (mendFrom.put cs p).1 :=
  List.forall_mem_append.2 ⟨hcs, hp⟩

lemma unopened_cons {c : Char} {t : List Char} :
    Unopened (c :: t) ↔ isOpener c = false ∧ Unopened t := List.forall_mem_cons

lemma unopened_escape {c : Char} (hc : c ∈ ['n', 'r', 't']) : Unopened ['\\', c] := by
  have hall : ['n', 'r', 't'].all (fun c => ['\\', c].all fun d => !isOpener d) = true := by decide
  intro d hd
  simpa using List.all_eq_true.1 (List.all_eq_true.1 hall c hc) d hd

lemma Unopened.mendFrom {b : Bool} {t : List Char} (h : Unopened t) :
    Unopened (mendFrom b t).1 := by
  have hnil : Unopened [] := List.forall_mem_nil _
  fun_induction Mender.Reply.mendFrom b t with
  | case1 => exact hnil
  | case2 n r _ ih =>
    obtain ⟨hc, hn, hr⟩ : _ ∧ _ ∧ _ := by simpa only [unopened_cons] using h
    exact .put (unopened_cons.2 ⟨hc, unopened_cons.2 ⟨hn, hnil⟩⟩) (ih hr)
  | case3 n r _ ih => exact ih (unopened_cons.1 h).2
  | case4 r _ ih => exact ih (unopened_cons.1 h).2
  | case5 r _ _ ih =>
    obtain ⟨hc, hr⟩ := unopened_cons.1 h
    exact .put (unopened_cons.2 ⟨hc, hnil⟩) (ih hr)
  | case6 r _ _ _ ih => exact .put (unopened_escape (by simp)) (ih (unopened_cons.1 h).2)
  | case7 r _ _ _ _ ih => exact .put (unopened_escape (by simp)) (ih (unopened_cons.1 h).2)
  | case8 r _ _ _ _ _ ih => exact .put (unopened_escape (by simp)) (ih (unopened_cons.1 h).2)
  | case9 c r _ _ _ _ _ _ ih =>
    obtain ⟨hc, hr⟩ := unopened_cons.1 h
    exact .put (unopened_cons.2 ⟨hc, hnil⟩) (ih hr)
  | case10 r ih =>
    obtain ⟨hc, hr⟩ := unopened_cons.1 h
    exact .put (unopened_cons.2 ⟨hc, hnil⟩) (ih hr)
  | case11 c r _ _ ih => exact ih (unopened_cons.1 h).2
  | case12 c r _ _ ih =>
    obtain ⟨hc, hr⟩ := unopened_cons.1 h
    exact .put (unopened_cons.2 ⟨hc, hnil⟩) (ih hr)

lemma Unopened.mendEscapes {t : List Char} (h : Unopened t) : Unopened (mendEscapes t) := by
  have hstraight : Unopened (t.map straighten) := by
    intro c hc
    obtain ⟨d, hd, rfl⟩ := List.mem_map.1 hc
    have hcases := straighten_cases d
    simp only [List.mem_cons, List.not_mem_nil, or_false] at hcases
    rcases hcases with hs | hs | hs <;> rw [hs]
    · rfl
    · rfl
    · exact h d hd
  have hmended := hstraight.mendFrom (b := false)
  unfold Mender.Reply.mendEscapes
  split
  · next out hout =>
    rw [hout] at hmended
    have hhead : dropTail isCloser (trimEnd out) ⊆ out :=
      ((dropTail_isPrefix _).trans (dropTail_isPrefix _)).subset
    exact List.forall_mem_append.2 ⟨hmended.subset hhead,
      unopened_cons.2 ⟨rfl, hmended.subset (List.drop_subset _ _)⟩⟩
  · next out hout =>
    rw [hout] at hmended
    exact hmended

/-- What has no opening character is no list and no object. -/
lemma closer_of_unopened {t : List Char} {v : Json} (h : Unopened t)
    (hv : Json.parse? t = some v) : Json.closer v = [] := by
  by_contra hne
  obtain ⟨b, u, e, rfl, -, -, hu⟩ := Json.parse?_eq_some_iff.1 hv
  obtain ⟨c, w, rfl, hc⟩ := exists_opener hu hne
  rw [h c (by simp)] at hc
  cases hc

lemma not_parsed_of_unopened {c : List Char} (h : Unopened c) (allowLists : Bool) (data : Json) :
    attempt allowLists c ≠ .parsed data := by
  have htrim : Unopened (trim c) := h.subset (trim_isInfix c).subset
  have hread : ∀ v, read? (trim c) = some v → Json.closer v = [] := by
    intro v hv
    rcases Option.or_eq_some_iff.1 hv with hv | ⟨-, hv⟩
    · exact closer_of_unopened htrim hv
    · exact closer_of_unopened htrim.mendEscapes hv
  unfold attempt
  split
  · exact Attempt.noConfusion
  · split
    · exact Attempt.noConfusion
    · next hobj => cases hread _ hobj
    · next harr => cases hread _ harr
    · exact Attempt.noConfusion

lemma dropPreamble_isInfix (t : List Char) : dropPreamble t <:+: t := by
  unfold dropPreamble
  split
  · exact trim_isInfix t
  · exact (dropTail_isPrefix _).isInfix.trans (List.dropWhile_suffix _).isInfix

lemma delimited?_isInfix {t c : List Char} (h : delimited? t = some c) : c <:+: t := by
  cases hstart : cut? startMark t with
  | none => simp [delimited?, hstart] at h
  | some p =>
    obtain ⟨a, r⟩ := p
    cases hend : cut? endMark r with
    | none => simp [delimited?, hstart, hend] at h
    | some q =>
      obtain ⟨inner, b⟩ := q
      rw [delimited?_eq hstart hend, Option.some.injEq] at h
      rw [← h, cut?_eq_some hstart, cut?_eq_some hend]
      exact (trim_isInfix inner).trans ⟨a ++ startMark, endMark ++ b, by simp⟩

/-- A text that was cut off is read from a brace on. -/
lemma truncated?_of_notMem {t : List Char} (h : '{' ∉ t) : truncated? t = none := by
  rw [truncated?]
  split
  · rfl
  · cases hstart : cut? startMark t with
    | none => rfl
    | some p =>
      obtain ⟨a, r⟩ := p
      have hr : r.dropWhile (· != '{') = [] := by
        rw [cut?_eq_some hstart] at h
        rw [List.dropWhile_eq_nil_iff]
        intro c hc
        rw [bne_iff_ne]
        rintro rfl
        exact h (List.mem_append_right _ hc)
      simp [hr]

/-- Without an opening brace every candidate stands in what is left of the reply. -/
lemma candidate_isInfix {raw c : List Char} {s : Strategy} (hb : '{' ∉ dropFences raw)
    (h : (s, c) ∈ candidates raw) : c <:+: dropFences raw := by
  simp only [candidates, truncated?_of_notMem hb, List.mem_append, List.mem_map, Option.mem_toList,
    List.mem_singleton, Prod.mk.injEq, Option.toList_none, List.not_mem_nil] at h
  rcases h with (⟨d, hd, -, rfl⟩ | ⟨d, hd, -⟩) | ⟨-, rfl⟩
  · exact delimited?_isInfix hd
  · exact hd.elim
  · exact dropPreamble_isInfix _

lemma openings_of_notMem {t : List Char} (h : '{' ∉ t) : openings t = [] :=
  List.eq_nil_iff_forall_not_mem.2 fun _ ho =>
    h ((mem_openings.1 ho).1.subset (List.mem_of_head? (mem_openings.1 ho).2))

lemma Refusal.message_ne_empty (r : Refusal) : r.message ≠ "" := by
  cases r with
  | scalarRoot root =>
    intro h
    exact absurd (String.append_eq_empty_iff.1 h).1 (by decide)
  | _ => decide

/-- A search fails where there is no block to be tried. -/
lemma searched_of_notMem {t : List Char} (h : '{' ∉ t) (allowLists : Bool) (raw : List Char)
    (last : Option Refusal) :
    ∃ refusal fragment, searched allowLists raw t last = .failed refusal fragment := by
  have hblocks : balancedBlocks t = [] := by
    simp [balancedBlocks, openings_of_notMem h, List.eraseReps, List.eraseRepsBy]
  rw [searched, hblocks]
  exact ⟨_, _, rfl⟩

/-- **An object in a reply never keeps it from being read**: when the lines that it stands on are no
fence lines and its brace is among those that are looked at, something is found, whatever stands
around it. Without an opening brace or bracket nothing is, and the reason is given. -/
theorem structure_found :
    (∀ (before w after : List Char) (fs : List (String × Json)),
      Json.parse? ('{' :: w) = some (.obj fs) →
      (∀ l ∈ linesOn before ('{' :: w) after, isFenceLine l = false) →
      (dropFences before).count '{' < openingLimit →
      ∃ data strategy fragment,
        extract (before ++ ('{' :: w ++ after)) = .found data strategy fragment ∧
          ((∃ fs, data = .obj fs) ∨ ∃ xs, data = .arr xs)) ∧
      ∀ raw : List Char, '{' ∉ raw → '[' ∉ raw →
        ∃ refusal fragment, extract raw = .failed refusal fragment ∧ refusal.message ≠ "" := by
  refine ⟨fun before w after fs ho hlines hcount => ?_, fun raw hbrace hbracket => ?_⟩
  · have hf : isFenceLine (lastLine before) = false :=
      isFenceLine_front (notMem_lastLine before) (by decide) hlines
    obtain ⟨u, rest, hu, hdrop⟩ := exists_dropFences_object ho hf after
    obtain ⟨a, s, htext, ha⟩ := exists_dropPreamble_object hu (leftInFront before) rest
    rw [← hdrop] at htext
    rcases extract_cases (before ++ ('{' :: w ++ after)) with
      ⟨strategy, c, data, -, hp, hfound⟩ | ⟨last, hsearched⟩
    · exact ⟨data, strategy, _, hfound, exists_data_of_parsed hp⟩
    · have hblock : u ∈ balancedBlocks (a ++ (u ++ s)) := by
        refine mem_balancedBlocks hu (lt_of_le_of_lt ha ?_) s
        rwa [count_leftInFront hf]
      have hread : read? u = some (.obj fs) := by
        rw [read?, Json.parse?_eq_some_iff.2 ⟨[], u, [], by simp, Json.spaces_nil,
          Json.spaces_nil, hu⟩, Option.some_or]
      rw [hsearched, htext]
      cases hresult : searched true (before ++ ('{' :: w ++ after)) (a ++ (u ++ s)) last with
      | found data strategy fragment =>
        have hdata := exists_searched_data true _ _ _ (congrArg Extraction.data? hresult)
        exact ⟨data, strategy, fragment, rfl, .inl hdata⟩
      | failed refusal fragment =>
        have hfail := (isFailure_searched_iff true _ _ _).1 (congrArg Extraction.isFailure hresult)
        rw [hfail u hblock] at hread
        cases hread
  · have hraw : Unopened raw := by
      intro c hc
      rw [isOpener, Bool.or_eq_false_iff, beq_eq_false_iff_ne, beq_eq_false_iff_ne]
      exact ⟨fun h => hbrace (h ▸ hc), fun h => hbracket (h ▸ hc)⟩
    have hleft := hraw.dropFences
    rcases extract_cases raw with ⟨strategy, c, data, hc, hp, -⟩ | ⟨last, hsearched⟩
    · exact absurd hp
        (not_parsed_of_unopened (hleft.subset (candidate_isInfix hleft.notMem hc).subset) true data)
    · obtain ⟨refusal, fragment, hfailed⟩ := searched_of_notMem
        (hleft.subset (dropPreamble_isInfix _).subset).notMem true raw last
      exact ⟨refusal, fragment, hsearched.trans hfailed, refusal.message_ne_empty⟩

/-- Open braces and a quote in front of the object, the marks the wrong way round, and a text of
prose. -/
theorem structure_found_garbled :
    (∃ data strategy fragment,
      extract ("\x7d \" <<<JSON_END>>>\n```js\n\x7b[\x7b it's:\n  ".toList ++
        ('\x7b' :: "\n\"k\": \"\x7d\"\x7d".toList ++
          "\n] \x7b\" <<<JSON_START>>>\n```".toList)) = .found data strategy fragment ∧
        ((∃ fs, data = .obj fs) ∨ ∃ xs, data = .arr xs)) ∧
      ∃ refusal fragment, extract "No \x7d here.".toList = .failed refusal fragment ∧
        refusal.message ≠ "" := by
  have ho : Json.parse? ('\x7b' :: "\n\"k\": \"\x7d\"\x7d".toList) =
      some (.obj [("k", .str "\x7d")]) := by cbv
  exact ⟨structure_found.1 _ _ _ _ ho (by decide) (by decide),
    structure_found.2 _ (by decide) (by decide)⟩

end Mender.Reply
