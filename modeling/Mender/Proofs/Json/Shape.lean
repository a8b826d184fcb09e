import Mender.Proofs.Json.Extent
import Mender.Proofs.Text.Lines

/-!
What the texts of values have in common.

A property of texts that goes over to texts put together, and that strings and objects have when
their parts do, holds of the text of every value. Without the carriage returns at its line ends a
text spells the same value.
-/

namespace Mender.Json

open Mender.Text

/-- The characters outside of strings, the braces of objects apart. -/
def isPlain (c : Char) : Bool := isSpace c || isNumeric c || "nultrefas,:[]".toList.contains c

/-- The property goes over from the parts of a text to the whole. -/
structure Composes (Q : List Char → Prop) : Prop where
  nil : Q []
  append : ∀ {a b}, Q a → Q b → Q (a ++ b)
  plain : ∀ {c}, isPlain c = true → Q [c]
  string : ∀ {u}, Literal false u → Q ('"' :: u)
  object : ∀ {w}, Q w → Q ('{' :: (w ++ ['}']))

namespace Composes

variable {Q : List Char → Prop} (hq : Composes Q)
include hq

lemma cons {c : Char} {t : List Char} (hc : isPlain c = true) (ht : Q t) : Q (c :: t) :=
  hq.append (hq.plain hc) ht

lemma all {t : List Char} (h : ∀ c ∈ t, isPlain c = true) : Q t := by
  induction t with
  | nil => exact hq.nil
  | cons c t ih =>
    obtain ⟨hc, ht⟩ := List.forall_mem_cons.1 h
    exact hq.cons hc (ih ht)

lemma spaces {b : List Char} (h : Spaces b) : Q b :=
  hq.all fun c hc => by simp [isPlain, h c hc]

lemma numeral {reader : List Char → Reading Json} {v : Json} {u : List Char}
    (h : Numeral reader v u) : Q u :=
  hq.all fun c hc => by simp [isPlain, h.chars c hc]

lemma scalar {v : Json} {u : List Char} (h : Scalar v u) : Q u := by
  cases h with
  | null | true | false =>
    refine hq.all (List.all_eq_true.1 ?_)
    decide
  | negative h => exact hq.cons (by decide) (hq.numeral h)
  | number _ h => exact hq.numeral h
  | string h => exact hq.string h.literal

variable {α : Type} {P : α → List Char → Prop} {xs : List α} {w : List Char}

lemma more (hp : ∀ x u, P x u → Q u) (h : More P xs w) : Q w := by
  induction h with
  | done hb => exact hq.spaces hb
  | next hb hb' hx _ ih =>
    exact hq.append (hq.spaces hb) (hq.cons (by decide)
      (hq.append (hq.spaces hb') (hq.append (hp _ _ hx) ih)))

lemma row (hp : ∀ x u, P x u → Q u) (h : Row P xs w) : Q w := by
  cases h with
  | empty hb => exact hq.spaces hb
  | parts hb hx h => exact hq.append (hq.spaces hb) (hq.append (hp _ _ hx) (hq.more hp h))

omit P in
lemma field {P : Json → List Char → Prop} (hp : ∀ v u, P v u → Q u) {e : String × Json}
    {f : List Char} (h : Field P e f) : Q f := by
  cases h with
  | mk hk hb hb' hv =>
    rw [← List.cons_append]
    exact hq.append (hq.string hk.literal) (hq.append (hq.spaces hb)
      (hq.cons (by decide) (hq.append (hq.spaces hb') (hp _ _ hv))))

/-- **The text of every value has the property.** -/
theorem spelled {d : Nat} {v : Json} {u : List Char} (h : Spelled d v u) : Q u := by
  induction d generalizing v u with
  | zero => exact hq.scalar h
  | succ d ih =>
    cases h with
    | scalar h => exact hq.scalar h
    | list h =>
      exact hq.cons (by decide) (hq.append (hq.row (fun _ _ => ih) h) (hq.plain (by decide)))
    | object h => exact hq.object (hq.row (fun _ _ => hq.field fun _ _ => ih) h)

/-- What stands between the braces of an object has the property as well. -/
lemma object_inner {d : Nat} {fs : List (String × Json)} {u : List Char}
    (h : Spelled d (.obj fs) u) : ∃ w, u = '{' :: (w ++ ['}']) ∧ Q w := by
  cases d with
  | zero => cases Scalar.closer h
  | succ d =>
    cases h with
    | scalar h => cases h.closer
    | object h => exact ⟨_, rfl, hq.row (fun _ _ => hq.field fun _ _ => hq.spelled) h⟩

end Composes

/-! ### Carriage returns at line ends -/

lemma Literal.visible {escaped : Bool} {u : List Char} (h : Literal escaped u) :
    ∀ c ∈ u, ¬ c.toNat < 32 := by
  induction h with
  | close => exact List.forall_mem_singleton.2 (by decide)
  | plain _ _ hc _ ih => exact List.forall_mem_cons.2 ⟨hc, ih⟩
  | backslash _ ih => exact List.forall_mem_cons.2 ⟨by decide, ih⟩
  | escape hc _ ih => exact List.forall_mem_cons.2 ⟨hc, ih⟩

lemma Literal.notMem {escaped : Bool} {u : List Char} (h : Literal escaped u) {c : Char}
    (hc : c.toNat < 32) : c ∉ u := fun hm => h.visible c hm hc

lemma Literal.notMem_quote {u : List Char} (h : Literal false u) {c : Char} (hc : c.toNat < 32)
    (hq : c ≠ '"') : c ∉ '"' :: u :=
  fun hm => h.notMem hc ((List.mem_cons.1 hm).resolve_left hq)

lemma Scalar.notMem {v : Json} {u : List Char} (h : Scalar v u) {c : Char}
    (hc : c = '\r' ∨ c = '\n') : c ∉ u := by
  have hnumeral : ∀ {reader u}, Numeral reader v u → c ∉ u := fun h hm => by
    have := h.chars _ hm
    rcases hc with rfl | rfl <;> exact absurd this (by decide)
  cases h with
  | null | true | false => rcases hc with rfl | rfl <;> decide
  | negative h =>
    refine fun hm => hnumeral h ((List.mem_cons.1 hm).resolve_left ?_)
    rcases hc with rfl | rfl <;> decide
  | number _ h => exact hnumeral h
  | string h => rcases hc with rfl | rfl <;> exact h.literal.notMem_quote (by decide) (by decide)

lemma Spaces.unreturned {b : List Char} (h : Spaces b) : Spaces (withoutReturns b) :=
  fun c hc => h c ((withoutReturns_sublist b).subset hc)

/-- The text neither begins with a blank nor ends in a line end. -/
structure Framed (u : List Char) : Prop where
  begins : Begins u
  ends : ∀ c ∈ u.getLast?, c ≠ '\r' ∧ c ≠ '\n'

lemma Framed.getLast?_append {u : List Char} (h : Framed u) (a : List Char) :
    (a ++ u).getLast? = u.getLast? := by
  obtain ⟨⟨c, r, rfl, -⟩, -⟩ := h
  exact List.getLast?_append_of_ne_nil _ (List.cons_ne_nil c r)

lemma Framed.around {u b : List Char} (h : Framed u) (w : List Char) :
    withoutReturns (b ++ (u ++ w)) =
      withoutReturns b ++ (withoutReturns u ++ withoutReturns w) := by
  have hlast : u.getLast? ≠ some '\r' := fun hl => (h.ends _ hl).1 rfl
  obtain ⟨c, r, rfl, hc, -⟩ := h.begins
  have hfeed : c ≠ '\n' := by
    rintro rfl
    cases hc
  rw [List.cons_append, withoutReturns_append_cons hfeed, ← List.cons_append,
    withoutReturns_append hlast]

lemma withoutReturns_mark {c : Char} (hc : c ≠ '\n' ∧ c ≠ '\r') (b w : List Char) :
    withoutReturns (b ++ c :: w) = withoutReturns b ++ c :: withoutReturns w := by
  rw [withoutReturns_append_cons hc.1, withoutReturns_cons hc.2]

section Parts

variable {α : Type} {P : α → List Char → Prop} {xs : List α} {w : List Char}
  (hp : ∀ x u, P x u → Framed u ∧ P x (withoutReturns u))
include hp

lemma More.unreturned (h : More P xs w) : More P xs (withoutReturns w) := by
  induction h with
  | done hb => exact .done hb.unreturned
  | next hb hb' hx _ ih =>
    obtain ⟨hu, hx⟩ := hp _ _ hx
    rw [withoutReturns_mark (by decide), hu.around]
    exact .next hb.unreturned hb'.unreturned hx ih

lemma Row.unreturned (h : Row P xs w) : Row P xs (withoutReturns w) := by
  cases h with
  | empty hb => exact .empty hb.unreturned
  | parts hb hx h =>
    obtain ⟨hu, hx⟩ := hp _ _ hx
    rw [hu.around]
    exact .parts hb.unreturned hx (h.unreturned hp)

end Parts

/-- A text without line ends. -/
lemma framed_of_notMem {u : List Char} (hu : Begins u) (hr : '\r' ∉ u) (hn : '\n' ∉ u) :
    Framed u := by
  refine ⟨hu, fun c hc => ⟨?_, ?_⟩⟩ <;> rintro rfl
  · exact hr (List.mem_of_getLast? hc)
  · exact hn (List.mem_of_getLast? hc)

lemma Field.unreturned {P : Json → List Char → Prop} {e : String × Json} {f : List Char}
    (hp : ∀ v u, P v u → Framed u ∧ P v (withoutReturns u)) (h : Field P e f) :
    Framed f ∧ Field P e (withoutReturns f) := by
  cases h with
  | @mk k ks b b' v u hk hb hb' hv =>
    obtain ⟨hu, hx⟩ := hp _ _ hv
    have hkey : '\r' ∉ '"' :: ks := hk.literal.notMem_quote (by decide) (by decide)
    have hkeep := withoutReturns_of_notMem (.inl rfl) hkey
    have hlast : ('"' :: ks).getLast? ≠ some '\r' := fun hl => hkey (List.mem_of_getLast? hl)
    constructor
    · have hsplit : '"' :: (ks ++ (b ++ ':' :: (b' ++ u))) =
          '"' :: (ks ++ (b ++ ':' :: b')) ++ u := by simp
      refine ⟨begins_quote _, ?_⟩
      rw [hsplit, hu.getLast?_append]
      exact hu.ends
    · have hend := hu.around (b := b') []
      rw [List.append_nil] at hend
      rw [← List.cons_append, withoutReturns_append hlast, hkeep,
        withoutReturns_mark (by decide), hend, withoutReturns, List.append_nil]
      exact .mk hk hb.unreturned hb'.unreturned hx

/-- What stands between brackets, without the carriage returns at its line ends. -/
lemma withoutReturns_brackets {c d : Char} (hc : c ≠ '\r') (hd : d ≠ '\n' ∧ d ≠ '\r')
    (w : List Char) :
    withoutReturns (c :: (w ++ [d])) = c :: (withoutReturns w ++ [d]) := by
  rw [withoutReturns_cons hc, withoutReturns_mark hd]
  rfl

lemma framed_brackets {c d : Char} (hc : isSpace c = false ∧ c ≠ ']') (hd : d ≠ '\r' ∧ d ≠ '\n')
    (w : List Char) : Framed (c :: (w ++ [d])) := by
  refine ⟨⟨c, _, rfl, hc⟩, ?_⟩
  rw [← List.cons_append, List.getLast?_concat]
  rintro e ⟨⟩
  exact hd

lemma Scalar.framed {v : Json} {u : List Char} (h : Scalar v u) : Framed u :=
  framed_of_notMem h.begins (h.notMem (.inl rfl)) (h.notMem (.inr rfl))

/-- **Without the carriage returns at its line ends** a text spells the same value. -/
theorem spelled_withoutReturns {d : Nat} {v : Json} {u : List Char} (h : Spelled d v u) :
    Framed u ∧ Spelled d v (withoutReturns u) := by
  have hscalar : ∀ {v u}, Scalar v u → Framed u ∧ Scalar v (withoutReturns u) := fun h =>
    ⟨h.framed, (withoutReturns_of_notMem (.inl rfl) (h.notMem (.inl rfl))).symm ▸ h⟩
  induction d generalizing v u with
  | zero => exact hscalar h
  | succ d ih =>
    cases h with
    | scalar h => exact ⟨(hscalar h).1, .scalar (hscalar h).2⟩
    | list h =>
      refine ⟨framed_brackets (by decide) (by decide) _, ?_⟩
      rw [withoutReturns_brackets (by decide) (by decide)]
      exact Spells.list (h.unreturned fun _ _ h => ih h)
    | object h =>
      refine ⟨framed_brackets (by decide) (by decide) _, ?_⟩
      rw [withoutReturns_brackets (by decide) (by decide)]
      exact Spells.object (h.unreturned fun _ _ h => h.unreturned fun _ _ h => ih h)

/-- What is left between the line ends behind a value. -/
lemma exists_unlines_lines {u e : List Char} (hu : Framed u) (he : Spaces e) (b : List Char) :
    ∃ e', Spaces e' ∧ unlines (lines (b ++ (u ++ e))) =
      withoutReturns b ++ (withoutReturns u ++ e') := by
  by_cases hlast : e.getLast? = some '\n'
  · obtain ⟨e, rfl⟩ := List.getLast?_eq_some_iff.1 hlast
    have hfeed := unlines_lines_feed e
    refine ⟨unlines (lines (e ++ ['\n'])), fun c hc => ?_, ?_⟩
    · refine he c ((withoutReturns_sublist _).subset ?_)
      rw [← hfeed]
      exact List.mem_append_left _ hc
    · have hall := unlines_lines_feed (b ++ (u ++ e))
      have hassoc : b ++ (u ++ e) ++ ['\n'] = b ++ (u ++ (e ++ ['\n'])) := by simp
      rw [hassoc, hu.around, ← hfeed] at hall
      refine (List.append_left_inj ['\n']).1 ?_
      rw [hall]
      simp only [List.append_assoc]
  · refine ⟨withoutReturns e, he.unreturned, ?_⟩
    rw [unlines_lines, hu.around]
    rw [← List.append_assoc, List.getLast?_append]
    cases hend : e.getLast? with
    | some c =>
      rw [hend] at hlast
      simpa using hlast
    | none =>
      rw [Option.none_or, hu.getLast?_append]
      exact fun hl => (hu.ends _ hl).2 rfl

theorem parse?_withoutReturns {t : List Char} {v : Json} (h : parse? t = some v) :
    parse? (withoutReturns t) = some v := by
  obtain ⟨b, u, e, rfl, hb, he, hu⟩ := parse?_eq_some_iff.1 h
  obtain ⟨hframed, hu⟩ := spelled_withoutReturns hu
  exact parse?_eq_some_iff.2 ⟨_, _, _, hframed.around e, hb.unreturned, he.unreturned, hu⟩

/-- **Lines put together** are read as what was read from the text. -/
theorem parse?_unlines_lines {t : List Char} {v : Json} (h : parse? t = some v) :
    parse? (unlines (lines t)) = some v := by
  obtain ⟨b, u, e, rfl, hb, he, hu⟩ := parse?_eq_some_iff.1 h
  obtain ⟨hframed, hu⟩ := spelled_withoutReturns hu
  obtain ⟨e', he', heq⟩ := exists_unlines_lines hframed he b
  exact parse?_eq_some_iff.2 ⟨_, _, _, heq, hb.unreturned, he', hu⟩

end Mender.Json
