/-!
Blank characters, trimming and words.

A character is blank when it has the Unicode property White_Space. Texts are lists of
characters throughout the library's scanners; records keep strings.
-/

namespace Mender.Text

/-- The characters of the Unicode property White_Space. -/
def isBlank (c : Char) : Bool :=
  let n := c.toNat
  (9 ≤ n && n ≤ 13) || n == 0x20 || n == 0x85 || n == 0xA0 || n == 0x1680 ||
    (0x2000 ≤ n && n ≤ 0x200A) || n == 0x2028 || n == 0x2029 || n == 0x202F ||
    n == 0x205F || n == 0x3000

def trimStart (t : List Char) : List Char := t.dropWhile isBlank

/-- The text without its trailing run of characters that satisfy `p`. -/
def dropTail (p : Char → Bool) : List Char → List Char
  | [] => []
  | c :: r =>
    match dropTail p r with
    | [] => if p c then [] else [c]
    | d :: s => c :: d :: s

def trimEnd (t : List Char) : List Char := dropTail isBlank t

def trim (t : List Char) : List Char := trimEnd (trimStart t)

/-- The characters up to the first blank, and what follows that blank. -/
def firstWord : List Char → List Char × List Char
  | [] => ([], [])
  | c :: r => if isBlank c then ([], r) else ((firstWord r).1.cons c, (firstWord r).2)

/-- The pieces between single characters that satisfy `p`; never empty. -/
def splitWhen (p : Char → Bool) : List Char → List (List Char)
  | [] => [[]]
  | c :: r =>
    if p c then [] :: splitWhen p r
    else match splitWhen p r with
      | [] => [[c]]
      | w :: ws => (c :: w) :: ws

/-- The maximal runs of characters that are not blank. -/
def words (t : List Char) : List (List Char) :=
  (splitWhen isBlank t).filter fun w => !w.isEmpty

/-- The words of a text with one space between each two. -/
def collapse (t : List Char) : List Char := [' '].intercalate (words t)

theorem dropTail_append_blank (p : Char → Bool) (t : List Char) {c : Char} (h : p c = true) :
    dropTail p (t ++ [c]) = dropTail p t := by
  induction t with
  | nil => simp [dropTail, h]
  | cons d r ih => simp [dropTail, ih]

theorem splitWhen_ne_nil (p : Char → Bool) (t : List Char) : splitWhen p t ≠ [] := by
  cases t with
  | nil => simp [splitWhen]
  | cons c r =>
    simp only [splitWhen]
    split
    · simp
    · split <;> simp


end Mender.Text
