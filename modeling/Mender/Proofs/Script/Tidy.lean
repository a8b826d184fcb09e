import Mender.Proofs.Script.Brought
import Mender.Proofs.Text.Blank

/-!
Imports with one text up to blanks.

Collapsed blanks do not tell where a line ended, and they are collapsed in strings as well. In a tidy row
neither matters: it has no comment that ends with its line, and no string with other blanks than single
spaces. Tidy rows with one text up to blanks are alike, so such imports bring the same.
-/

namespace Mender.Script

open Mender.Text TwoPlaces

variable {u : List Char} {v v' : List Cell} {x : List Char}

/-! ### Literals -/

lemma isLiteral_of_mem {n : Nat} {s : Scan} {t : List Char} (h : .literal u ∈ cellsFrom n s t) :
    IsLiteral u := by
  induction t generalizing n s with
  | nil => cases n <;> cases h
  | cons c t ih =>
    cases n with
    | succ n => exact ih h
    | zero =>
      rw [cellsFrom] at h
      split at h
      · next hstart =>
        split at h
        · next rest hend =>
          obtain ⟨body, rfl, hb⟩ := exists_of_stringEnd hend
          have hlength : (body ++ rest).length - rest.length = body.length := by simp
          rcases List.mem_cons.1 h with h | h
          · simp only [hlength, List.take_left] at h
            cases h
            exact ⟨c, body, rfl, (startsLiteral_iff.1 hstart).2, hb⟩
          · exact ih h
        · exact ih ((List.mem_cons.1 h).resolve_left (by simp))
      · exact ih ((List.mem_cons.1 h).resolve_left (by simp))

/-- A literal ends with its quote. -/
lemma getLast?_of_stringEnd {q : Char} {e : Bool} {t : List Char} (h : stringEnd? q e t = some []) :
    t.getLast? = some q := by
  induction t generalizing e with
  | nil => cases e <;> cases h
  | cons c t ih =>
    have hmore {e : Bool} (h : stringEnd? q e t = some []) : (c :: t).getLast? = some q := by
      rw [List.getLast?_cons, ih h]
      rfl
    cases e with
    | true =>
      rw [stringEnd?] at h
      split at h <;> exact hmore h
    | false =>
      rw [stringEnd?] at h
      split at h
      · next hc =>
        cases h
        rw [hc]
        rfl
      · split at h
        · cases h
        · exact hmore h

/-- No literal begins another one. -/
lemma IsLiteral.append_inj {u' y y' : List Char} (h : IsLiteral u) (h' : IsLiteral u')
    (heq : u ++ y = u' ++ y') : u = u' ∧ y = y' := by
  obtain ⟨q, body, rfl, -, hend⟩ := h
  obtain ⟨q', body', rfl, -, hend'⟩ := h'
  rw [List.cons_append, List.cons_append] at heq
  obtain ⟨rfl, hrest⟩ := List.cons.inj heq
  have hy := stringEnd_append hend y
  have hy' := stringEnd_append hend' y'
  rw [hrest, hy', Option.some.injEq] at hy
  obtain rfl : y' = y := hy
  exact ⟨congrArg _ (List.append_cancel_right hrest), rfl⟩

lemma isBlank_quote {q : Char} (h : q = '"' ∨ q = '\'') : isBlank q = false := by
  rcases h with rfl | rfl <;> rfl

/-- A literal whose blanks are collapsed stays in its text. -/
lemma IsLiteral.spaced_append (h : IsLiteral u) (hu : collapse u = u) (y : List Char) :
    spaced (u ++ y) = u ++ spaced y := by
  obtain ⟨q, body, rfl, hq, hend⟩ := h
  rw [collapse_cons (isBlank_quote hq)] at hu
  have hlast : ∀ d ∈ body.getLast?, isBlank d = false := by
    rw [getLast?_of_stringEnd hend]
    rintro d ⟨⟩
    exact isBlank_quote hq
  rw [List.cons_append, spaced_cons (isBlank_quote hq), Text.spaced_append (List.cons.inj hu).2 y hlast,
    List.cons_append]

/-! ### Tidy rows -/

/-- A literal with no other blanks than single spaces, or no quote. -/
def Cell.IsTidy : Cell → Prop
  | .literal u => collapse u = u
  | .unclosed _ => False
  | .plain c => c ≠ '"' ∧ c ≠ '\''

instance : DecidablePred Cell.IsTidy
  | .literal u => inferInstanceAs (Decidable (collapse u = u))
  | .unclosed _ => inferInstanceAs (Decidable False)
  | .plain c => inferInstanceAs (Decidable (c ≠ '"' ∧ c ≠ '\''))

/-- The text up to blanks tells the row up to blanks. -/
def Tidy (v : List Cell) : Prop := (∀ c ∈ v, c.IsTidy) ∧ NoLine v

instance : DecidablePred Tidy := fun v =>
  inferInstanceAs (Decidable ((∀ c ∈ v, c.IsTidy) ∧ ¬ ['/', '/'] <:+: signs v))

/-- The row has this text once its blanks are collapsed. -/
inductive Spells : List Cell → List Char → Prop
  | nil : Spells [] []
  | literal {u x : List Char} {v : List Cell} (hu : IsLiteral u) (h : Spells v x) :
      Spells (.literal u :: v) (u ++ x)
  | sign {d : Char} {x : List Char} {v : List Cell} (hd : isBlank d = false) (hq : d ≠ '"' ∧ d ≠ '\'')
      (h : Spells v x) : Spells (.plain d :: v) (d :: x)
  | blanks {x : List Char} {g v : List Cell} (hg : IsBlanks g) (hx : ∀ d ∈ x.head?, isBlank d = false)
      (h : Spells v x) : Spells (g ++ v) (withSpace x)

lemma spells_blank {b : Char} (hb : isBlank b = true) (h : Spells v x) :
    Spells (.plain b :: v) (withSpace x) := by
  have hone : IsBlanks [.plain b] := ⟨List.cons_ne_nil _ _, by simpa using hb⟩
  cases h with
  | nil => exact .blanks hone (by simp) .nil
  | literal hu h =>
    refine .blanks hone ?_ (.literal hu h)
    obtain ⟨q, body, rfl, hq, -⟩ := hu
    simpa using isBlank_quote hq
  | sign hd hq h => exact .blanks hone (by simpa using hd) (.sign hd hq h)
  | @blanks x g v hg hx h =>
    rw [withSpace_withSpace]
    exact .blanks (g := .plain b :: g)
      ⟨List.cons_ne_nil _ _, List.forall_mem_cons.2 ⟨⟨b, rfl, hb⟩, hg.2⟩⟩ hx h

lemma spells_spaced (hv : ∀ c ∈ v, c.IsTidy) (hl : ∀ u, .literal u ∈ v → IsLiteral u) :
    Spells v (spaced (joined v)) := by
  induction v with
  | nil => exact .nil
  | cons c v ih =>
    obtain ⟨hc, hv⟩ := List.forall_mem_cons.1 hv
    have hrest := ih hv fun u hu => hl u (List.mem_cons_of_mem _ hu)
    rw [joined_cons]
    cases c with
    | literal u =>
      have hu := hl u List.mem_cons_self
      rw [Cell.text, hu.spaced_append hc]
      exact .literal hu hrest
    | unclosed q => exact hc.elim
    | plain d =>
      rw [Cell.text, List.singleton_append]
      cases hd : isBlank d with
      | true =>
        rw [spaced_of_blank hd]
        exact spells_blank hd hrest
      | false =>
        rw [spaced_cons hd]
        exact .sign hd hc hrest

lemma withSpace_of_head (hx : ∀ d ∈ x.head?, isBlank d = false) :
    withSpace x = if x = [] then [] else ' ' :: x := by
  cases x with
  | nil => rfl
  | cons d x => rw [withSpace_cons (hx d rfl), if_neg (List.cons_ne_nil _ _)]

lemma head?_withSpace (hx : ∀ d ∈ x.head?, isBlank d = false) : ∀ d ∈ (withSpace x).head?, d = ' ' := by
  rw [withSpace_of_head hx]
  split
  · simp
  · simp

lemma Spells.of_literal (h : Spells v (u ++ x)) (hu : IsLiteral u) :
    ∃ w, v = .literal u :: w ∧ Spells w x := by
  have hu' := hu
  obtain ⟨q, body, rfl, hq, -⟩ := hu'
  generalize hz : q :: body ++ x = z at h
  cases h with
  | nil => cases hz
  | literal hu' h =>
    obtain ⟨rfl, rfl⟩ := hu.append_inj hu' hz
    exact ⟨_, rfl, h⟩
  | sign hd hquote h =>
    cases hz
    exact (hq.elim hquote.1 hquote.2).elim
  | blanks hg hx h =>
    have hspace : q = ' ' := head?_withSpace hx q (hz ▸ rfl)
    rw [hspace] at hq
    exact absurd hq (by decide)

lemma Spells.of_sign {d : Char} (h : Spells v (d :: x)) (hd : isBlank d = false)
    (hquote : d ≠ '"' ∧ d ≠ '\'') : ∃ w, v = .plain d :: w ∧ Spells w x := by
  generalize hz : d :: x = z at h
  cases h with
  | nil => cases hz
  | literal hu h =>
    obtain ⟨q, body, rfl, hq, -⟩ := hu
    cases hz
    exact (hq.elim hquote.1 hquote.2).elim
  | sign _ _ h =>
    cases hz
    exact ⟨_, rfl, h⟩
  | blanks hg hx h =>
    rw [head?_withSpace hx d (hz ▸ rfl)] at hd
    cases hd

lemma Spells.of_space (h : Spells v (' ' :: x)) :
    ∃ g w, v = g ++ w ∧ IsBlanks g ∧ Spells w x := by
  generalize hz : ' ' :: x = z at h
  cases h with
  | nil => cases hz
  | literal hu h =>
    obtain ⟨q, body, rfl, hq, -⟩ := hu
    cases hz
    exact absurd hq (by decide)
  | sign hd _ h =>
    cases hz
    cases hd
  | blanks hg hx h =>
    rw [withSpace_of_head hx] at hz
    split at hz
    · cases hz
    · cases hz
      exact ⟨_, _, rfl, hg, h⟩

lemma Spells.ne_nil (h : Spells v x) (hu : .literal u ∈ v) : x ≠ [] := by
  induction h with
  | nil => cases hu
  | literal hlit _ =>
    obtain ⟨q, body, rfl, -, -⟩ := hlit
    exact List.cons_ne_nil _ _
  | sign => exact List.cons_ne_nil _ _
  | blanks hg hx h ih =>
    rcases List.mem_append.1 hu with hin | hin
    · obtain ⟨b, hb, -⟩ := hg.2 _ hin
      cases hb
    · rw [withSpace_of_head hx, if_neg (ih hin)]
      exact List.cons_ne_nil _ _

/-- Rows with one text up to blanks have the same literals, behind cells that are alike. -/
lemma Spells.exists_alike (h : Spells v x) (h' : Spells v' x) {y w : List Cell}
    (hv : v = y ++ .literal u :: w) :
    ∃ y' w', v' = y' ++ .literal u :: w' ∧ Alike true y y' := by
  induction h generalizing v' y with
  | nil => exact absurd hv.symm (List.append_ne_nil_of_right_ne_nil _ (List.cons_ne_nil _ _))
  | literal hu h ih =>
    obtain ⟨v', rfl, hrest⟩ := h'.of_literal hu
    cases y with
    | nil =>
      cases hv
      exact ⟨[], v', rfl, .nil⟩
    | cons c y =>
      obtain ⟨rfl, hmore⟩ := List.cons.inj hv
      obtain ⟨y', w', rfl, halike⟩ := ih hrest hmore
      exact ⟨_ :: y', w', rfl, .same _ halike⟩
  | sign hd hquote h ih =>
    obtain ⟨v', rfl, hrest⟩ := h'.of_sign hd hquote
    cases y with
    | nil => cases hv
    | cons c y =>
      obtain ⟨rfl, hmore⟩ := List.cons.inj hv
      obtain ⟨y', w', rfl, halike⟩ := ih hrest hmore
      exact ⟨_ :: y', w', rfl, .same _ halike⟩
  | @blanks x g v hg hx h ih =>
    -- the literal is not among the blanks
    obtain ⟨y, rfl, rfl⟩ : ∃ z, y = g ++ z ∧ v = z ++ .literal u :: w := by
      rcases List.append_eq_append_iff.1 hv with ⟨z, rfl, hz⟩ | ⟨z, rfl, hz⟩
      · exact ⟨z, rfl, hz⟩
      · cases z with
        | nil => exact ⟨[], by simp, hz.symm⟩
        | cons c z =>
          obtain ⟨rfl, -⟩ := List.cons.inj hz
          obtain ⟨b, hb, -⟩ := hg.2 _ (List.mem_append_right y List.mem_cons_self)
          cases hb
    have hne : x ≠ [] := h.ne_nil (List.mem_append_right y List.mem_cons_self)
    rw [withSpace_of_head hx, if_neg hne] at h'
    obtain ⟨g', v', rfl, hg', hrest⟩ := h'.of_space
    obtain ⟨y', w', rfl, halike⟩ := ih hrest rfl
    exact ⟨g' ++ y', w', (List.append_assoc _ _ _).symm, .blanks rfl hg hg' halike⟩

/-- **Tidy rows with one text up to blanks** tell the same. -/
theorem tells_of_tidy (hv : Tidy v) (hv' : Tidy v') (hl : ∀ u, .literal u ∈ v → IsLiteral u)
    (hl' : ∀ u, .literal u ∈ v' → IsLiteral u) (h : spaced (joined v) = spaced (joined v')) :
    Tells true v v' := by
  intro y u w hy
  have hspells := spells_spaced hv.1 hl
  rw [h] at hspells
  exact ⟨fun _ => hv.2.of_front ⟨_, hy.symm⟩, hspells.exists_alike (spells_spaced hv'.1 hl') hy⟩

end Mender.Script
