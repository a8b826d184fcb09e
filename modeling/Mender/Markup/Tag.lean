import Mender.Text.Quote
import Mender.Text.Width

/-!
Where a tag ends.

A `>` closes a tag unless it stands in quotes or in braces. The three quotes are the double,
the single and the back quote; quotes nest in nothing, braces nest in braces.
-/

namespace Mender.Markup

open Mender.Text

/-- A text up to and with the `>` that closes its first tag, and the rest. `quote` is the
open quote, `depth` the number of open braces. -/
def splitTag : (quote : Option Char) → (depth : Nat) → List Char →
    Option (List Char × List Char)
  | _, _, [] => none
  | some q, depth, c :: r => (splitTag (if c = q then none else some q) depth r).map (put c)
  | none, depth, c :: r =>
    if isQuote c then (splitTag (some c) depth r).map (put c)
    else if c = '{' then (splitTag none (depth + 1) r).map (put c)
    else if c = '}' then (splitTag none (depth - 1) r).map (put c)
    else if c = '>' ∧ depth = 0 then some ([c], r)
    else (splitTag none depth r).map (put c)
where
  put (c : Char) (p : List Char × List Char) : List Char × List Char := (c :: p.1, p.2)

/-- The place after the tag that starts at a place. -/
def tagEnd? (source : List Char) (start : Nat) : Option Nat :=
  (splitTag none 0 (dropWidth start source)).map fun p => width source - width p.2

theorem append_of_splitTag {q : Option Char} {d : Nat} {t a b : List Char}
    (h : splitTag q d t = some (a, b)) : t = a ++ b := by
  induction t generalizing q d a b with
  | nil => simp [splitTag] at h
  | cons c r ih =>
    have step {q' : Option Char} {d' : Nat}
        (h : (splitTag q' d' r).map (splitTag.put c) = some (a, b)) : c :: r = a ++ b := by
      obtain ⟨p, hp, he⟩ := Option.map_eq_some_iff.1 h
      simp only [splitTag.put, Prod.mk.injEq] at he
      simp [← he.1, ← he.2, ← ih (a := p.1) (b := p.2) hp]
    cases q with
    | some q => exact step h
    | none =>
      simp only [splitTag] at h
      split at h
      · exact step h
      · split at h
        · exact step h
        · split at h
          · exact step h
          · split at h
            · simp at h; simp [← h.1, ← h.2]
            · exact step h

end Mender.Markup
