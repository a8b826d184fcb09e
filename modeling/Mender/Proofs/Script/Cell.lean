import Mathlib.Data.List.Forall2
import Mathlib.Data.List.Infix
import Mathlib.Tactic.Common
import Mathlib.Tactic.Lemma
import Mender.Proofs.Json.Quote
import Mender.Script.Cell

/-!
Cells are found again in their text.

The scan for literals looks one character ahead, and it takes any two quotes for the same there.
So a script in which literals are replaced by other ones has the old cells with the new literals
among them.
-/

namespace Mender.Script

open Mender.Text

/-! ### String literals -/

/-- A string literal with its quotes. -/
def IsLiteral (t : List Char) : Prop :=
  ∃ q body, t = q :: body ∧ (q = '"' ∨ q = '\'') ∧ stringEnd? q false body = some []

lemma stringEnd_append {q : Char} {e : Bool} {t rest : List Char}
    (h : stringEnd? q e t = some rest) (r : List Char) :
    stringEnd? q e (t ++ r) = some (rest ++ r) := by
  induction t generalizing e with
  | nil => simp [stringEnd?] at h
  | cons c t ih =>
    rw [List.cons_append]
    cases e with
    | true =>
      -- the literal goes on behind the escaped character, so the one ahead is its own
      have hne : t ≠ [] := by
        rintro rfl
        simp [stringEnd?] at h
      rw [stringEnd?, List.head?_append_of_ne_nil _ hne] 
      rw [stringEnd?] at h
      split at h
      · next hc => rw [if_pos hc, ih h]
      · next hc => rw [if_neg hc, ih h]
    | false =>
      rw [stringEnd?] at h ⊢
      split at h
      · next hc =>
        cases h
        rw [if_pos hc]
      · next hc =>
        rw [if_neg hc]
        split at h
        · cases h
        · next hend => rw [if_neg hend, ih h]

lemma ne_nil_of_stringEnd {q : Char} {e : Bool} {t rest : List Char}
    (h : stringEnd? q e t = some rest) : t ≠ [] := by
  rintro rfl
  simp [stringEnd?] at h

/-- A literal and what follows it. -/
lemma exists_of_stringEnd {q : Char} {e : Bool} {t rest : List Char}
    (h : stringEnd? q e t = some rest) :
    ∃ body, t = body ++ rest ∧ stringEnd? q e body = some [] := by
  induction t generalizing e with
  | nil => simp [stringEnd?] at h
  | cons c t ih =>
    cases e with
    | true =>
      rw [stringEnd?] at h
      split at h
      · next hc =>
        obtain ⟨body, rfl, hb⟩ := ih h
        rw [List.head?_append_of_ne_nil _ (ne_nil_of_stringEnd hb)] at hc
        exact ⟨c :: body, rfl, by rw [stringEnd?, if_pos hc, hb]⟩
      · next hc =>
        obtain ⟨body, rfl, hb⟩ := ih h
        rw [List.head?_append_of_ne_nil _ (ne_nil_of_stringEnd hb)] at hc
        exact ⟨c :: body, rfl, by rw [stringEnd?, if_neg hc, hb]⟩
    | false =>
      rw [stringEnd?] at h
      split at h
      · next hc =>
        cases h
        exact ⟨[c], rfl, by rw [stringEnd?, if_pos hc]⟩
      · next hc =>
        split at h
        · cases h
        · next hend =>
          obtain ⟨body, rfl, hb⟩ := ih h
          exact ⟨c :: body, rfl, by rw [stringEnd?, if_neg hc, if_neg hend, hb]⟩

/-- A character with no meaning of its own is passed over. -/
lemma stringEnd_plain {d : Char} (hq : d ≠ '"') (hb : d ≠ '\\') (hc : ¬ d.toNat < 32) (r : List Char) :
    stringEnd? '"' false (d :: r) = stringEnd? '"' false r := by
  have hend : ¬ (d = '\n' ∨ d = '\r') := by
    rintro (rfl | rfl) <;> exact hc (by decide)
  have hescape : (d == '\\') = false := beq_eq_false_iff_ne.2 hb
  rw [stringEnd?, if_neg hq, if_neg hend, hescape]

lemma hexDigit_plain {n : Nat} (h : n < 16) :
    Json.hexDigit n ≠ '"' ∧ Json.hexDigit n ≠ '\\' ∧ ¬ (Json.hexDigit n).toNat < 32 := by
  revert n
  decide

lemma stringEnd_escapeChar (c : Char) (r : List Char) :
    stringEnd? '"' false (Json.escapeChar c ++ r) = stringEnd? '"' false r := by
  fun_cases Json.escapeChar c with
  | case8 _ _ _ _ _ _ _ hlow =>
    obtain ⟨hq, hb, hl⟩ := hexDigit_plain (show c.toNat / 16 < 16 by omega)
    obtain ⟨hq', hb', hl'⟩ := hexDigit_plain (show c.toNat % 16 < 16 by omega)
    simp only [List.cons_append, List.nil_append]
    rw [show stringEnd? '"' false ('\\' :: 'u' :: '0' :: '0' :: Json.hexDigit (c.toNat / 16) ::
        Json.hexDigit (c.toNat % 16) :: r) = stringEnd? '"' false (Json.hexDigit (c.toNat / 16) ::
        Json.hexDigit (c.toNat % 16) :: r) from rfl, stringEnd_plain hq hb hl,
      stringEnd_plain hq' hb' hl']
  | case9 hquote hback _ _ _ _ _ hlow => exact stringEnd_plain hquote hback hlow r
  | _ => rfl

/-- A text written as a literal is one. -/
lemma isLiteral_quote (t : List Char) : IsLiteral (Json.quote t) := by
  refine ⟨'"', t.flatMap Json.escapeChar ++ ['"'], rfl, .inl rfl, ?_⟩
  induction t with
  | nil => rfl
  | cons c t ih => rw [List.flatMap_cons, List.append_assoc, stringEnd_escapeChar, ih]

/-! ### Reading the cells of a text -/

@[simp] lemma joined_nil : joined [] = [] := rfl

@[simp] lemma joined_cons (c : Cell) (cs : List Cell) : joined (c :: cs) = c.text ++ joined cs := rfl

@[simp] lemma joined_append (cs ds : List Cell) : joined (cs ++ ds) = joined cs ++ joined ds :=
  List.flatMap_append

@[simp] lemma signs_append (cs ds : List Cell) : signs (cs ++ ds) = signs cs ++ signs ds :=
  List.map_append

lemma length_signs (cs : List Cell) : (signs cs).length = cs.length := List.length_map _

lemma cellsFrom_skip (n : Nat) (s : Scan) (t : List Char) :
    cellsFrom n s t = cellsFrom 0 s (t.drop n) := by
  induction n generalizing t with
  | zero => rfl
  | succ n ih =>
    cases t with
    | nil => rfl
    | cons c t => rw [cellsFrom, ih, List.drop_succ_cons]

/-- The cells are those of their text, and no quote is left open. -/
def Closed : Scan → List Cell → Prop
  | _, [] => True
  | s, .literal t :: cs => s.mode = .code ∧ IsLiteral t ∧ Closed s.pastLiteral cs
  | s, .plain c :: cs => s.startsLiteral c = false ∧ Closed (s.step c (joined cs).head?) cs
  | _, .unclosed _ :: _ => False

lemma startsLiteral_iff {s : Scan} {c : Char} :
    s.startsLiteral c = true ↔ s.mode = .code ∧ (c = '"' ∨ c = '\'') := by
  simp [Scan.startsLiteral]

/-- **Closed cells are found again** in their text. -/
theorem cellsFrom_joined {s : Scan} {cs : List Cell} (h : Closed s cs) :
    cellsFrom 0 s (joined cs) = cs := by
  induction cs generalizing s with
  | nil => rfl
  | cons c cs ih =>
    cases c with
    | literal t =>
      obtain ⟨hmode, ⟨q, body, rfl, hq, hend⟩, hrest⟩ := h
      have hstart : s.startsLiteral q = true := startsLiteral_iff.2 ⟨hmode, hq⟩
      have hstop := stringEnd_append hend (joined cs)
      have hlength : (body ++ joined cs).length - (joined cs).length = body.length := by simp
      rw [List.nil_append] at hstop
      rw [joined_cons, Cell.text, List.cons_append, cellsFrom, if_pos hstart, hstop]
      simp only [hlength, List.take_left, cellsFrom_skip body.length, List.drop_left, ih hrest]
    | plain c =>
      obtain ⟨hstart, hrest⟩ := h
      rw [joined_cons, Cell.text, List.singleton_append, cellsFrom, hstart, if_neg (by decide), ih hrest]
    | unclosed c => exact h.elim

lemma joined_cellsFrom (n : Nat) (s : Scan) (t : List Char) :
    joined (cellsFrom n s t) = t.drop n := by
  induction t generalizing n s with
  | nil => cases n <;> rfl
  | cons c t ih =>
    cases n with
    | succ n => rw [cellsFrom, ih, List.drop_succ_cons]
    | zero =>
      rw [cellsFrom]
      split
      · split
        · rw [joined_cons, ih, Cell.text, List.cons_append, List.take_append_drop]
          rfl
        · rw [joined_cons, ih]
          rfl
      · rw [joined_cons, ih]
        rfl

/-- The cells of a text give the text. -/
@[simp] lemma joined_cells (t : List Char) : joined (cells t) = t := joined_cellsFrom 0 {} t

lemma closed_cellsFrom {n : Nat} {s : Scan} {t : List Char}
    (h : fromUnclosed? (cellsFrom n s t) = none) : Closed s (cellsFrom n s t) := by
  induction t generalizing n s with
  | nil => cases n <;> trivial
  | cons c t ih =>
    cases n with
    | succ n => exact ih h
    | zero =>
      rw [cellsFrom] at h ⊢
      split at h
      · next hstart =>
        obtain ⟨hmode, hq⟩ := startsLiteral_iff.1 hstart
        split at h
        · next rest hend =>
          obtain ⟨body, rfl, hb⟩ := exists_of_stringEnd hend
          have hlength : (body ++ rest).length - rest.length = body.length := by simp
          rw [if_pos hstart]
          simp only [hlength, List.take_left] at h ⊢
          exact ⟨hmode, ⟨c, body, rfl, hq, hb⟩, ih h⟩
        · cases h
      · next hstart =>
        rw [if_neg hstart]
        refine ⟨Bool.eq_false_iff.2 hstart, ?_⟩
        rw [joined_cellsFrom, List.drop_zero]
        exact ih h

/-- Where no quote is left open the cells are closed. -/
lemma closed_cells {t : List Char} (h : fromUnclosed? (cells t) = none) : Closed {} (cells t) :=
  closed_cellsFrom h

/-! ### Other literals in the place of literals -/

/-- A cell that may take the place of another one. -/
def SwapsTo (c d : Cell) : Prop :=
  d = c ∨ ∃ t u, c = .literal t ∧ d = .literal u ∧ IsLiteral u

lemma SwapsTo.sign {c d : Cell} (h : SwapsTo c d) : d.sign = c.sign := by
  rcases h with rfl | ⟨t, u, rfl, rfl, -⟩ <;> rfl

lemma signs_of_swaps {cs ds : List Cell} (h : List.Forall₂ SwapsTo cs ds) : signs ds = signs cs := by
  induction h with
  | nil => rfl
  | cons hc _ ih => exact congrArg₂ List.cons hc.sign ih

/-- A step takes any two quotes ahead for the same. -/
lemma step_quote {q q' : Char} (hq : q = '"' ∨ q = '\'') (hq' : q' = '"' ∨ q' = '\'') (s : Scan)
    (c : Char) : s.step c (some q) = s.step c (some q') := by
  rcases hq with rfl | rfl <;> rcases hq' with rfl | rfl <;> simp [Scan.step, Scan.pass]

lemma IsLiteral.head? {t : List Char} (h : IsLiteral t) (r : List Char) :
    ∃ q, (t ++ r).head? = some q ∧ (q = '"' ∨ q = '\'') := by
  obtain ⟨q, body, rfl, hq, -⟩ := h
  exact ⟨q, rfl, hq⟩

lemma step_swap {s s' : Scan} {cs ds : List Cell} (hc : Closed s' cs)
    (hs : List.Forall₂ SwapsTo cs ds) (c : Char) :
    s.step c (joined ds).head? = s.step c (joined cs).head? := by
  cases hs with
  | nil => rfl
  | @cons a b cs ds hab hs =>
    rcases hab with rfl | ⟨t, u, rfl, rfl, hu⟩
    · have hne : b.text ≠ [] := by
        cases b with
        | literal t =>
          obtain ⟨q, body, rfl, -⟩ := hc.2.1
          exact List.cons_ne_nil _ _
        | _ => exact List.cons_ne_nil _ _
      rw [joined_cons, joined_cons, List.head?_append_of_ne_nil _ hne,
        List.head?_append_of_ne_nil _ hne]
    · obtain ⟨q, hq, hquote⟩ := hc.2.1.head? (joined cs)
      obtain ⟨q', hq', hquote'⟩ := hu.head? (joined ds)
      rw [joined_cons, joined_cons, Cell.text, Cell.text, hq, hq', step_quote hquote hquote']

/-- **Literals may be replaced by others** without a change to the other cells. -/
theorem Closed.swap {s : Scan} {cs ds : List Cell} (h : Closed s cs)
    (hs : List.Forall₂ SwapsTo cs ds) : Closed s ds := by
  induction hs generalizing s with
  | nil => trivial
  | @cons c d cs ds hcd hs ih =>
    rcases hcd with rfl | ⟨t, u, rfl, rfl, hu⟩
    · cases d with
      | literal t => exact ⟨h.1, h.2.1, ih h.2.2⟩
      | plain c => exact ⟨h.1, by rw [step_swap h.2 hs]; exact ih h.2⟩
      | unclosed c => exact h.elim
    · exact ⟨h.1, hu, ih h.2.2⟩

/-! ### Lines in front of a script -/

/-- A character without a meaning for the scan. -/
def isTame (c : Char) : Bool := !"\"'/#\x60(){}[]".toList.contains c

lemma startsLiteral_of_isTame {c : Char} (h : isTame c = true) (s : Scan) :
    s.startsLiteral c = false := by
  rw [Bool.eq_false_iff]
  intro hs
  rcases (startsLiteral_iff.1 hs).2 with rfl | rfl <;> exact absurd h (by decide)

lemma step_of_isTame {c : Char} (h : isTame c = true) {s : Scan} (hs : s.mode = .code)
    (next : Option Char) : s.step c next = { s with before := s.before.push c } := by
  simp [isTame] at h
  simp [Scan.step, hs, Scan.pass, h]

/-- A text of tame characters is read character by character. -/
lemma closed_tame {w : List Char} (hw : ∀ c ∈ w, isTame c = true) {s : Scan} (hs : s.mode = .code)
    {cs : List Cell} : Closed s (w.map Cell.plain ++ cs) ↔
      Closed { s with before := w.foldl (fun b c => b.push c) s.before } cs := by
  induction w generalizing s with
  | nil => rfl
  | cons c w ih =>
    obtain ⟨hc, hw⟩ := List.forall_mem_cons.1 hw
    have hstep : { s with before := s.before.push c }.mode = .code := hs
    rw [List.map_cons, List.cons_append, Closed, startsLiteral_of_isTame hc, step_of_isTame hc hs,
      ih hw hstep]
    exact ⟨And.right, fun h => ⟨rfl, h⟩⟩

/-- The cells of a line that imports a module's default under a name. -/
def importCells (name specifier : List Char) : List Cell :=
  ("\n  import ".toList ++ name ++ " from ".toList).map Cell.plain ++
    [.literal (Json.quote specifier), .plain ';']

lemma joined_map_plain (w : List Char) : joined (w.map Cell.plain) = w := by
  induction w with
  | nil => rfl
  | cons c w ih => exact congrArg (c :: ·) ih

lemma signs_map_plain {w : List Char} (h : '"' ∉ w) : signs (w.map Cell.plain) = w := by
  induction w with
  | nil => rfl
  | cons c w ih =>
    obtain ⟨hc, hw⟩ := not_or.1 (mt List.mem_cons.2 h)
    exact congrArg₂ List.cons (if_neg (Ne.symm hc)) (ih hw)

variable {name specifier : List Char}

lemma joined_importCells : joined (importCells name specifier) =
    "\n  import ".toList ++ name ++ " from ".toList ++ Json.quote specifier ++ [';'] := by
  unfold importCells
  rw [joined_append, joined_map_plain]
  simp only [joined_cons, joined_nil, Cell.text, List.append_assoc, List.append_nil]

lemma quote_notMem_of_tame (h : ∀ c ∈ name, isTame c = true) : '"' ∉ name :=
  fun hq => absurd (h _ hq) (by decide)

lemma signs_importCells (h : ∀ c ∈ name, isTame c = true) : signs (importCells name specifier) =
    "\n  import ".toList ++ name ++ " from \";".toList := by
  have hq : '"' ∉ "\n  import ".toList ++ name ++ " from ".toList := by
    rw [List.mem_append, List.mem_append, not_or, not_or]
    exact ⟨⟨by decide, quote_notMem_of_tame h⟩, by decide⟩
  unfold importCells
  rw [signs_append, signs_map_plain hq, List.append_assoc]
  rfl

/-- **An import line in front of a script** leaves the cells of the script as they are. -/
theorem closed_importCells (h : ∀ c ∈ name, isTame c = true) {cs : List Cell} (hcs : Closed {} cs) :
    Closed {} (importCells name specifier ++ cs) := by
  have hw : ∀ c ∈ "\n  import ".toList ++ name ++ " from ".toList, isTame c = true := by
    intro c hc
    rcases List.mem_append.1 hc with hc | hc
    · rcases List.mem_append.1 hc with hc | hc
      · exact List.all_eq_true.1 (by decide : "\n  import ".toList.all isTame = true) c hc
      · exact h c hc
    · exact List.all_eq_true.1 (by decide : " from ".toList.all isTame = true) c hc
  unfold importCells
  rw [List.append_assoc, closed_tame hw rfl]
  exact ⟨rfl, isLiteral_quote _, rfl, hcs⟩

end Mender.Script
