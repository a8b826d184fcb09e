import Mathlib.Tactic.Common
import Mathlib.Tactic.Lemma
import Mender.Module.Closed
import Mender.Proofs.Text.Width

/-!
An edited text piece by piece.

A text before and after an edit is given by one list of pieces, and the replacements can be read
off it. Splicing them into the text gives the edited one.
-/

namespace Mender.Module

open Mender.Text Mender.Script

/-- A piece of a text that stays, one that another text takes the place of, or a text that is put
between two others. -/
inductive Piece
  | kept (t : List Char)
  | swapped (old new : List Char)
  | added (new : List Char)
  deriving DecidableEq

namespace Piece

def old : Piece → List Char
  | kept t | swapped t _ => t
  | added _ => []

def new : Piece → List Char
  | kept t | swapped _ t | added t => t

def added? : Piece → Option (List Char)
  | added new => some new
  | _ => none

end Piece

def oldText (ps : List Piece) : List Char := ps.flatMap Piece.old

def newText (ps : List Piece) : List Char := ps.flatMap Piece.new

/-- The replacements in some pieces that start at `place`. -/
def edits : (place : Nat) → List Piece → List (Extent × List Char)
  | _, [] => []
  | place, .kept t :: ps => edits (place + width t) ps
  | place, p :: ps =>
    (⟨place, place + width p.old⟩, p.new) :: edits (place + width p.old) ps

/-- The texts that take the place of other ones, with the places of those. -/
def swaps : (place : Nat) → List Piece → List (Extent × List Char)
  | _, [] => []
  | place, .swapped old new :: ps => (⟨place, place + width old⟩, new) :: swaps (place + width old) ps
  | place, p :: ps => swaps (place + width p.old) ps

/-- The texts that are put between others. -/
def added (ps : List Piece) : List (List Char) := ps.filterMap Piece.added?

@[simp] lemma oldText_cons (p : Piece) (ps : List Piece) : oldText (p :: ps) = p.old ++ oldText ps :=
  rfl

@[simp] lemma newText_cons (p : Piece) (ps : List Piece) : newText (p :: ps) = p.new ++ newText ps :=
  rfl

@[simp] lemma oldText_append (ps qs : List Piece) : oldText (ps ++ qs) = oldText ps ++ oldText qs :=
  List.flatMap_append

@[simp] lemma newText_append (ps qs : List Piece) : newText (ps ++ qs) = newText ps ++ newText qs :=
  List.flatMap_append

lemma edits_append (place : Nat) (ps qs : List Piece) :
    edits place (ps ++ qs) = edits place ps ++ edits (place + width (oldText ps)) qs := by
  induction ps generalizing place with
  | nil => rfl
  | cons p ps ih =>
    cases p <;> simp [edits, ih, Piece.old, Nat.add_assoc]

lemma swaps_append (place : Nat) (ps qs : List Piece) :
    swaps place (ps ++ qs) = swaps place ps ++ swaps (place + width (oldText ps)) qs := by
  induction ps generalizing place with
  | nil => rfl
  | cons p ps ih =>
    cases p <;> simp [swaps, ih, Piece.old, Nat.add_assoc]

lemma added_append (ps qs : List Piece) : added (ps ++ qs) = added ps ++ added qs :=
  List.filterMap_append

/-- Where nothing is added, all replacements are of texts that were there. -/
lemma edits_eq_swaps {ps : List Piece} (h : added ps = []) (place : Nat) :
    edits place ps = swaps place ps := by
  induction ps generalizing place with
  | nil => rfl
  | cons p ps ih =>
    cases p with
    | kept t => exact ih h _
    | swapped old new => exact congrArg _ (ih h _)
    | added new => cases h

/-- Replacements lie within the pieces. -/
lemma edits_within {place : Nat} {ps : List Piece} {e : Extent × List Char}
    (h : e ∈ edits place ps) :
    place ≤ e.1.first ∧ e.1.first ≤ e.1.last ∧ e.1.last ≤ place + width (oldText ps) := by
  induction ps generalizing place with
  | nil => cases h
  | cons p ps ih =>
    rw [oldText_cons, width_append]
    cases p with
    | kept t =>
      have := ih h
      simp only [Piece.old]
      omega
    | swapped old new =>
      rcases List.mem_cons.1 h with rfl | h
      · simp only [Piece.old]
        omega
      · have := ih h
        simp only [Piece.old] at this ⊢
        omega
    | added new =>
      rcases List.mem_cons.1 h with rfl | h
      · simp only [Piece.old, width_nil]
        omega
      · have := ih h
        simp only [Piece.old, width_nil] at this ⊢
        omega

/-- What stands before the first replacement is copied. -/
lemma splice_copy (a m b : List Char) {es : List (Extent × List Char)}
    (h : ∀ e ∈ es, width a + width m ≤ e.1.first) :
    splice (a ++ (m ++ b)) (width a) es = m ++ splice (a ++ (m ++ b)) (width a + width m) es := by
  cases es with
  | nil => rw [splice, splice, dropWidth_width, dropWidth_width_add, dropWidth_width]
  | cons e es =>
    rw [splice, splice, slice_start a m b (h e List.mem_cons_self)]
    simp only [List.append_assoc]

/-- A text in front moves all places. -/
lemma splice_shift (a x : List Char) (place : Nat) (es : List (Extent × List Char)) :
    splice (a ++ x) (width a + place)
        (es.map fun e => (⟨width a + e.1.first, width a + e.1.last⟩, e.2)) = splice x place es := by
  induction es generalizing place with
  | nil => exact dropWidth_width_add a x place
  | cons e es ih =>
    rw [List.map_cons, splice, splice, ih, slice, slice, dropWidth_width_add, Nat.add_sub_add_left]

/-- **Splicing the replacements of some pieces** gives the edited text. -/
theorem splice_edits (a : List Char) (ps : List Piece) :
    splice (a ++ oldText ps) (width a) (edits (width a) ps) = newText ps := by
  induction ps generalizing a with
  | nil =>
    rw [edits, splice, dropWidth_width]
    rfl
  | cons p ps ih =>
    have hnext := ih (a ++ p.old)
    rw [List.append_assoc, width_append] at hnext
    rw [oldText_cons, newText_cons]
    cases p with
    | kept t =>
      have hwithin : ∀ e ∈ edits (width a + width t) ps, width a + width t ≤ e.1.first :=
        fun e he => (edits_within he).1
      exact (splice_copy a t (oldText ps) hwithin).trans (congrArg _ hnext)
    | swapped old new =>
      rw [edits, splice, slice_self, List.nil_append]
      · exact congrArg _ hnext
      · exact fun _ h => nomatch h
    | added new =>
      rw [edits, splice, slice_self, List.nil_append]
      · exact congrArg _ hnext
      · exact fun _ h => nomatch h

end Mender.Module
