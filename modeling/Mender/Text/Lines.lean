import Mender.Text.Blank

/-!
Lines.

A line ends at a line feed; a carriage return directly before that line feed belongs to
the line's end. Text after the last line feed is a line of its own unless it is empty.
-/

namespace Mender.Text

/-- The pieces of a text, each but perhaps the last closed by its line feed. -/
def lineRuns : List Char → List (List Char)
  | [] => []
  | c :: r =>
    if c = '\n' then [c] :: lineRuns r
    else match lineRuns r with
      | [] => [[c]]
      | l :: ls => (c :: l) :: ls

/-- A piece without its line feed, and without a carriage return before it. -/
def dropLineEnd (l : List Char) : List Char :=
  match l.reverse with
  | '\n' :: '\r' :: r => r.reverse
  | '\n' :: r => r.reverse
  | _ => l

def lines (t : List Char) : List (List Char) := (lineRuns t).map dropLineEnd

/-- Lines with a line feed between each two. -/
def unlines (ls : List (List Char)) : List Char := ['\n'].intercalate ls

/-- The pieces put together again are the text. -/
theorem flatten_lineRuns (t : List Char) : (lineRuns t).flatten = t := by
  induction t with
  | nil => rfl
  | cons c r ih =>
    simp only [lineRuns]
    split
    · simp [ih]
    · split
      · next h => simp [h] at ih; simp [← ih]
      · next h => simp [h] at ih; simp [← ih]

end Mender.Text
