/-!
Searching and cutting.

Every search is for the first occurrence, and a cut gives the text before it and the text
after it.
-/

namespace Mender.Text

/-- What follows `needle`, when the text begins with it. -/
def after? : List Char → List Char → Option (List Char)
  | [], t => some t
  | _ :: _, [] => none
  | n :: ns, c :: r => if n = c then after? ns r else none

def startsWith (needle t : List Char) : Bool := (after? needle t).isSome

def endsWith (needle t : List Char) : Bool := startsWith needle.reverse t.reverse

/-- The text before and after the first occurrence of `needle`. -/
def cut? (needle : List Char) : List Char → Option (List Char × List Char)
  | [] => if needle.isEmpty then some ([], []) else none
  | c :: r =>
    match after? needle (c :: r) with
    | some rest => some ([], rest)
    | none => (cut? needle r).map fun p => (c :: p.1, p.2)

def contains (needle t : List Char) : Bool := (cut? needle t).isSome

/-- The text before and after the last character that satisfies `p`. -/
def cutLast? (p : Char → Bool) (t : List Char) : Option (List Char × List Char) :=
  match t.reverse.span fun c => !p c with
  | (_, []) => none
  | (after, _ :: before) => some (before.reverse, after.reverse)

/-- Copies the text, skipping `skip` characters first, with `new` in place of each
occurrence of `old`. -/
def replaceFrom (old new : List Char) : Nat → List Char → List Char
  | _, [] => []
  | n + 1, _ :: r => replaceFrom old new n r
  | 0, c :: r =>
    if startsWith old (c :: r) then new ++ replaceFrom old new (old.length - 1) r
    else c :: replaceFrom old new 0 r

/-- Every occurrence of a non-empty `old` replaced, from left to right. -/
def replaceAll (old new t : List Char) : List Char := replaceFrom old new 0 t

theorem after?_eq_some_iff {needle t rest : List Char} :
    after? needle t = some rest ↔ t = needle ++ rest := by
  induction needle generalizing t with
  | nil => simp [after?, eq_comm]
  | cons n ns ih =>
    cases t with
    | nil => simp [after?]
    | cons c r =>
      simp only [after?, List.cons_append, List.cons.injEq]
      split
      · next h => simp [ih, h]
      · next h => simp [Ne.symm h]

theorem cut?_eq_some {needle t a b : List Char} (h : cut? needle t = some (a, b)) :
    t = a ++ needle ++ b := by
  induction t generalizing a b with
  | nil =>
    simp only [cut?] at h
    split at h
    · next hn => simp at h; simp [h, List.isEmpty_iff.1 hn]
    · simp at h
  | cons c r ih =>
    simp only [cut?] at h
    split at h
    · next hr =>
      simp at h
      have := after?_eq_some_iff.1 hr
      simp [← h.1, ← h.2, this]
    · obtain ⟨p, hp, he⟩ := Option.map_eq_some_iff.1 h
      simp at he
      have := ih (a := p.1) (b := p.2) hp
      simp [← he.1, ← he.2, this]

end Mender.Text
