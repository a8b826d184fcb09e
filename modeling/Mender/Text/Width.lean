/-!
UTF-8 widths and cuts counted in characters.

Places in a text are given as the number of UTF-8 bytes before them.
-/

namespace Mender.Text

/-- The number of bytes of a text's UTF-8 form. -/
def width : List Char → Nat
  | [] => 0
  | c :: t => c.utf8Size + width t

/-- The place after `t`, for a `t` that starts at place `n`. -/
def advance (n : Nat) (t : List Char) : Nat := n + width t

/-- The text from byte `n` on; a place inside a character counts as the one after it. -/
def dropWidth : Nat → List Char → List Char
  | 0, t => t
  | _ + 1, [] => []
  | n + 1, c :: r => dropWidth (n + 1 - c.utf8Size) r

/-- The part of a text before byte `n`. -/
def takeWidth : Nat → List Char → List Char
  | 0, _ => []
  | _ + 1, [] => []
  | n + 1, c :: r => c :: takeWidth (n + 1 - c.utf8Size) r

/-- The part of a text between two places. -/
def slice (first last : Nat) (t : List Char) : List Char :=
  takeWidth (last - first) (dropWidth first t)

/-- Line and column after the first `n` bytes; the column counts bytes of the line. -/
def lineColumn : (n line column : Nat) → List Char → Nat × Nat
  | 0, line, column, _ => (line, column)
  | _ + 1, line, column, [] => (line, column)
  | n + 1, line, column, c :: r =>
    if c = '\n' then lineColumn n (line + 1) 0 r
    else if n + 1 < c.utf8Size then (line, column + n + 1)
    else lineColumn (n + 1 - c.utf8Size) line (column + c.utf8Size) r

@[simp] theorem width_nil : width [] = 0 := rfl

@[simp] theorem width_cons (c : Char) (t : List Char) :
    width (c :: t) = c.utf8Size + width t := rfl

@[simp] theorem width_append (s t : List Char) : width (s ++ t) = width s + width t := by
  induction s with
  | nil => simp
  | cons c s ih => simp [ih, Nat.add_assoc]

theorem dropWidth_width_append (s t : List Char) : dropWidth (width s) (s ++ t) = t := by
  induction s with
  | nil => simp [dropWidth]
  | cons c r ih =>
    have h : c.utf8Size + width r = (c.utf8Size - 1 + width r) + 1 := by
      have := c.utf8Size_pos; omega
    simp only [width_cons, List.cons_append]
    rw [h, dropWidth, ← h]
    simpa using ih

end Mender.Text
