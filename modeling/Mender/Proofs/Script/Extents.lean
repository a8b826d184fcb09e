import Mender.Proofs.Script.Starts
import Mender.Proofs.Script.Swap

/-!
Where the statements of a script stand in its text.

The grammar counts signs from the end, and the tree gives places from the start of the text. Each
cell has some text, so places that differ in signs differ in the text too.
-/

namespace Mender.Script

open Mender.Text

variable {cs : List Cell} {t : List Char}

/-! ### Places -/

lemma placeOf_eq (cs : List Cell) (left : Nat) :
    placeOf cs left = width (joined (cs.take (cs.length - left))) := by
  have h : joined cs = joined (cs.take (cs.length - left)) ++ joined (lastCells cs left) := by
    rw [lastCells, ← joined_append, List.take_append_drop]
  rw [placeOf, h, width_append, Nat.add_sub_cancel]

/-- A stretch of a text from one place to another. -/
def IsStretch (t : List Char) (e : Extent) : Prop :=
  ∃ a m b, t = a ++ (m ++ b) ∧ e = ⟨width a, width a + width m⟩

lemma isStretch_restore {e : Extent} (h : e.last ≤ e.first) : IsStretch (joined cs) (e.restore cs) := by
  have htake : (cs.take (cs.length - e.last)).take (cs.length - e.first) = cs.take (cs.length - e.first) := by
    rw [List.take_take, Nat.min_eq_left (by omega)]
  have hsplit := List.take_append_drop (cs.length - e.first) (cs.take (cs.length - e.last))
  rw [htake] at hsplit
  refine ⟨joined (cs.take (cs.length - e.first)),
    joined ((cs.take (cs.length - e.last)).drop (cs.length - e.first)),
    joined (cs.drop (cs.length - e.last)), ?_, ?_⟩
  · rw [← joined_append, ← joined_append, ← List.append_assoc, hsplit, List.take_append_drop]
  · rw [Extent.restore, placeOf_eq, placeOf_eq, ← width_append, ← joined_append, hsplit]

/-- The place behind some cells. -/
lemma placeOf_length (as ds : List Cell) : placeOf (as ++ ds) ds.length = width (joined as) := by
  rw [placeOf_eq, List.length_append, Nat.add_sub_cancel, List.take_left]

lemma placeOf_le {n m : Nat} (h : m ≤ n) : placeOf cs n ≤ placeOf cs m := by
  obtain ⟨a, b, c, -, he⟩ := isStretch_restore (e := ⟨n, m⟩) h
  have hn : placeOf cs n = width a := congrArg Extent.first he
  have hm : placeOf cs m = width a + width b := congrArg Extent.last he
  omega

/-- Every cell has some text. -/
lemma text_ne_nil {n : Nat} {s : Scan} {c : Cell} (h : c ∈ cellsFrom n s t) : c.text ≠ [] := by
  induction t generalizing n s with
  | nil => cases n <;> cases h
  | cons d t ih =>
    cases n with
    | succ n => exact ih h
    | zero =>
      rw [cellsFrom] at h
      split at h
      · split at h
        all_goals
          rcases List.mem_cons.1 h with rfl | h
          · exact List.cons_ne_nil _ _
          · exact ih h
      · rcases List.mem_cons.1 h with rfl | h
        · exact List.cons_ne_nil _ _
        · exact ih h

lemma placeOf_lt {n m : Nat} (h : m < n) (hn : n ≤ (cells t).length) :
    placeOf (cells t) n < placeOf (cells t) m := by
  refine (Nat.lt_of_lt_of_le ?_ (placeOf_le (Nat.le_pred_of_lt h)) : _)
  have hlt : (cells t).length - n < (cells t).length := by omega
  have hnext : (cells t).length - n.pred = (cells t).length - n + 1 := by
    rw [Nat.pred_eq_sub_one]
    omega
  have hpos : width ((cells t)[(cells t).length - n].text) ≠ 0 :=
    mt width_eq_zero (text_ne_nil (List.getElem_mem hlt))
  rw [placeOf_eq, placeOf_eq, hnext, List.take_add_one, List.getElem?_eq_getElem hlt, joined_append,
    width_append, Option.toList_some, joined_cons, joined_nil, List.append_nil]
  omega

/-! ### In front of an import -/

lemma eq_plain_of_sign {x : Cell} {c : Char} (h : x.sign = c) (hc : c ≠ '"') (hc' : c ≠ '\'') :
    x = .plain c := by
  cases x with
  | literal u => exact absurd h (Ne.symm hc)
  | unclosed q => exact absurd h (Ne.symm hc')
  | plain d =>
    rw [Cell.sign] at h
    split at h
    · exact absurd h (Ne.symm hc')
    · rw [h]

/-- The text pauses where its signs do. -/
lemma pauses_joined (h : Pauses (signs cs)) : Pauses (joined cs) := by
  generalize hs : signs cs = t at h
  cases h with
  | @sign t c hc =>
    obtain ⟨as, bs, rfl, -, hbs⟩ := List.map_eq_append_iff.1 hs
    obtain ⟨x, ds, rfl, hx, hds⟩ := List.map_eq_cons_iff.1 hbs
    obtain rfl : ds = [] := List.map_eq_nil_iff.1 hds
    have hplain : c ≠ '"' ∧ c ≠ '\'' := by
      constructor <;> rintro rfl <;> exact absurd hc (by decide)
    rw [eq_plain_of_sign hx hplain.1 hplain.2, joined_append]
    exact .sign _ hc
  | comment t =>
    obtain ⟨as, bs, rfl, -, hbs⟩ := List.map_eq_append_iff.1 hs
    obtain ⟨x, ds, rfl, hx, hds⟩ := List.map_eq_cons_iff.1 hbs
    obtain ⟨y, es, rfl, hy, hes⟩ := List.map_eq_cons_iff.1 hds
    obtain rfl : es = [] := List.map_eq_nil_iff.1 hes
    rw [eq_plain_of_sign hx (by decide) (by decide), eq_plain_of_sign hy (by decide) (by decide),
      joined_append]
    exact .comment _

/-- An import starts at a place of a text, and nothing is unfinished in front of it. -/
def ImportAt (t : List Char) (place : Nat) : Prop :=
  ∃ a r, t = a ++ 'i' :: r ∧ place = width a ∧ Rests a

lemma importAt_restore {u : List Char} (h : StartsAt (signs cs) u) :
    ImportAt (joined cs) (placeOf cs u.length) := by
  obtain ⟨a, r, hs, rfl, ha⟩ := h
  obtain ⟨as, bs, rfl, rfl, hbs⟩ := List.map_eq_append_iff.1 hs
  obtain ⟨x, ds, rfl, hx, rfl⟩ := List.map_eq_cons_iff.1 hbs
  rw [eq_plain_of_sign hx (by decide) (by decide)]
  refine ⟨joined as, joined ds, by rw [joined_append, joined_cons]; rfl, ?_, ?_⟩
  · rw [List.length_cons, List.length_map, ← List.length_cons (a := Cell.plain 'i')]
    exact placeOf_length as (Cell.plain 'i' :: ds)
  · rcases ha with ha | ha
    · obtain rfl : as = [] := List.map_eq_nil_iff.1 ha
      exact .inl rfl
    · exact .inr (pauses_joined ha)

/-! ### The statements of a script -/

/-- One statement ends before the other starts. -/
def EndsBefore (s s' : Statement) : Prop :=
  s.extent.last ≤ s'.extent.first ∧ s.extent.first < s'.extent.first

lemma mem_rowOf {s : Statement} (h : s ∈ rowOf t) :
    s.extent.last ≤ s.extent.first ∧ s.extent.first ≤ (cells t).length := by
  have hrow := (precedes_readStatements _ _).1 s h
  rwa [length_signs] at hrow

/-- **The statements of a script** stand in its text one before the other. -/
theorem pairwise_statements (t : List Char) : (parse t).statements.Pairwise EndsBefore := by
  have hrow : (rowOf t).Pairwise Precedes := (precedes_readStatements _ _).2
  rw [statements_parse, List.pairwise_map]
  refine hrow.imp_of_mem fun {s s'} hs _ hp => ⟨placeOf_le hp.1, placeOf_lt hp.2 (mem_rowOf hs).2⟩

lemma isStretch_of_mem {s : Statement} (h : s ∈ (parse t).statements) : IsStretch t s.extent := by
  rw [statements_parse] at h
  obtain ⟨s, hs, rfl⟩ := List.mem_map.1 h
  have hstretch : IsStretch (joined (cells t)) (s.extent.restore (cells t)) :=
    isStretch_restore (mem_rowOf hs).1
  rwa [joined_cells] at hstretch

/-- **An import starts where nothing is unfinished**, and it is there. -/
theorem importAt_of_mem {s : Statement} (h : s ∈ (parse t).statements) {i : Import}
    (hi : s.form = .imports i) : ImportAt t s.extent.first ∧ s.extent.first < s.extent.last := by
  rw [statements_parse] at h
  obtain ⟨s, hs, rfl⟩ := List.mem_map.1 h
  obtain ⟨j, hj⟩ : ∃ j, s.form = .imports j := by
    obtain ⟨extent, form⟩ := s
    cases form <;> cases hi
    exact ⟨_, rfl⟩
  have hready : Ready (signs (cells t)) (signs (cells t)) := ⟨[], rfl, .inl (.inl rfl)⟩
  obtain ⟨u, hu, hfirst, hlast⟩ := startsAt_readStatements _ hready hs hj
  have hat := importAt_restore hu
  rw [joined_cells, ← hfirst] at hat
  exact ⟨hat, placeOf_lt (hfirst ▸ hlast) (mem_rowOf hs).2⟩

/-- The text of an import, with what stands around it. -/
lemma exists_import {s : Statement} (h : s ∈ (parse t).statements) {i : Import}
    (hi : s.form = .imports i) : ∃ a m b, t = a ++ ('i' :: m ++ b) ∧
      s.extent = ⟨width a, width a + width ('i' :: m)⟩ ∧ Rests a := by
  obtain ⟨a, m, b, ht, hextent⟩ := isStretch_of_mem h
  obtain ⟨⟨a', r, ht', hfirst, hrests⟩, hlt⟩ := importAt_of_mem h hi
  obtain rfl : a' = a := by
    have ha : takeWidth s.extent.first t = a := by rw [hextent, ht, takeWidth_width]
    have ha' : takeWidth s.extent.first t = a' := by rw [hfirst, ht', takeWidth_width]
    exact ha'.symm.trans ha
  rw [hextent] at hlt ⊢
  cases m with
  | nil => exact absurd hlt (Nat.lt_irrefl _)
  | cons c m =>
    obtain ⟨rfl, -⟩ := List.cons.inj (List.append_cancel_left (ht.symm.trans ht'))
    exact ⟨a', m, b, ht, rfl, hrests⟩

end Mender.Script
