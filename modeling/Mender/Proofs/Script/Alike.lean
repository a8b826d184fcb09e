import Mender.Proofs.Script.Swap

/-!
Scripts that are alike up to a literal.

Two rows of cells are alike if they differ in the runs of blanks between the same other cells. Of
two scripts that are alike up to one literal, a reader that has not come to the literal yet sees the
same lexemes: a blank is in no name, and where a comment ends does not depend on the blanks in it,
unless it is one that ends with its line.
-/

namespace Mender.Script

open Mender.Text

lemma signs_cons (c : Cell) (cs : List Cell) : signs (c :: cs) = c.sign :: signs cs := rfl

/-! ### Rows that are alike -/

/-- Some blanks. -/
def IsBlanks (g : List Cell) : Prop := g ≠ [] ∧ ∀ c ∈ g, ∃ b, c = .plain b ∧ isBlank b = true

/-- The same cells, but for the blanks between them if the likeness is `loose`. -/
inductive Alike (loose : Bool) : List Cell → List Cell → Prop
  | nil : Alike loose [] []
  | same (c : Cell) {as bs : List Cell} (h : Alike loose as bs) : Alike loose (c :: as) (c :: bs)
  | blanks {g g' as bs : List Cell} (hl : loose = true) (hg : IsBlanks g) (hg' : IsBlanks g')
      (h : Alike loose as bs) : Alike loose (g ++ as) (g' ++ bs)

lemma Alike.symm {loose : Bool} {as bs : List Cell} (h : Alike loose as bs) : Alike loose bs as := by
  induction h with
  | nil => exact .nil
  | same c _ ih => exact .same c ih
  | blanks hl hg hg' _ ih => exact .blanks hl hg' hg ih

lemma Alike.refl (loose : Bool) (as : List Cell) : Alike loose as as := by
  induction as with
  | nil => exact .nil
  | cons c as ih => exact .same c ih

/-- No comment that ends with its line starts in the cells. -/
def NoLine (y : List Cell) : Prop := ¬ ['/', '/'] <:+: signs y

lemma NoLine.of_suffix {y z : List Cell} (h : NoLine y) (hz : z <:+ y) : NoLine z :=
  fun hin => h (hin.trans (hz.map Cell.sign).isInfix)

lemma NoLine.of_front {y z : List Cell} (h : NoLine y) (hz : z <+: y) : NoLine z :=
  fun hin => h (hin.trans (hz.map Cell.sign).isInfix)

/-! ### Blanks -/

lemma sign_of_blank {b : Char} (h : isBlank b = true) : (Cell.plain b).sign = b := by
  rw [Cell.sign, if_neg]
  rintro rfl
  cases h

lemma isGap_of_isBlank {b : Char} (h : isBlank b = true) : isGap b = true := by
  simp [isGap, h]

lemma notSlash_of_isBlank {b : Char} (h : isBlank b = true) : b ≠ '/' ∧ b ≠ '*' := by
  constructor <;>
  · rintro rfl
    cases h

/-- Behind blanks the passing over goes on as before, but no end of a comment has begun. -/
def Gap.pastBlanks : Gap → Gap
  | .star => .block
  | g => g

/-- A blank is passed over, and nothing of the end of a comment lies in it. -/
lemma past?_of_isBlank {g : Gap} (hopening : g ≠ .opening) (hline : g ≠ .line) {b : Char}
    (hb : isBlank b = true) (following : Option Char) : g.past? b following = some g.pastBlanks := by
  obtain ⟨hslash, hstar⟩ := notSlash_of_isBlank hb
  cases g with
  | opening => exact absurd rfl hopening
  | line => exact absurd rfl hline
  | blank =>
    rw [Gap.past?, if_pos rfl, if_pos (isGap_of_isBlank hb)]
    rfl
  | block =>
    rw [Gap.past?_of_ne (by decide), Gap.next, if_neg hstar]
    rfl
  | star =>
    rw [Gap.past?_of_ne (by decide), Gap.next, if_neg hslash, if_neg hstar]
    rfl

lemma skipGap_blanks {g : Gap} (hopening : g ≠ .opening) (hline : g ≠ .line) {bs : List Cell}
    (hb : IsBlanks bs) (e e' : Bool) (r : List Char) :
    (skipGap g e (signs bs ++ r)).1 = (skipGap g.pastBlanks e' r).1 := by
  obtain ⟨hne, hb⟩ := hb
  induction bs generalizing g e with
  | nil => exact absurd rfl hne
  | cons c bs ih =>
    obtain ⟨⟨b, rfl, hblank⟩, hbs⟩ := List.forall_mem_cons.1 hb
    obtain ⟨e₁, -, hstep⟩ := skipGap_cons g e b (signs bs ++ r)
    rw [signs_cons, sign_of_blank hblank, List.cons_append, hstep,
      past?_of_isBlank hopening hline hblank]
    show (skipGap g.pastBlanks e₁ (signs bs ++ r)).1 = _
    by_cases hnil : bs = []
    · rw [hnil]
      exact skipGap_fst _ _ _ _
    · have hpast : g.pastBlanks ≠ .opening ∧ g.pastBlanks ≠ .line ∧
          g.pastBlanks.pastBlanks = g.pastBlanks := by
        cases g <;> simp_all [Gap.pastBlanks]
      rw [ih hpast.1 hpast.2.1 e₁ hnil hbs, hpast.2.2]

/-! ### The next lexeme -/

variable {loose : Bool} {u : List Char} {Q R : List Cell}

/-- The passing over blanks may stand in front of these cells: the slash of a comment has its second
sign behind it, and where the likeness is loose no comment ends with its line. -/
def Gap.Fits (loose : Bool) (y : List Cell) : Gap → Prop
  | .opening => ∃ c as, y = c :: as ∧ (c.sign = '*' ∨ c.sign = '/' ∧ loose = false)
  | .line => loose = false
  | _ => True

lemma head?_alike {y y' : List Cell} (h : Alike loose y y') {d : Char} (hblank : isBlank d = false) :
    (signs (y ++ .literal u :: Q)).head? = some d ↔ (signs (y' ++ .literal u :: R)).head? = some d := by
  cases h with
  | nil => simp [signs, Cell.sign]
  | same c => simp [signs]
  | @blanks g g' as bs hl hg hg' h =>
    have hnot {g as : List Cell} (hg : IsBlanks g) : (signs (g ++ as)).head? ≠ some d := by
      obtain ⟨hne, hg⟩ := hg
      cases g with
      | nil => exact absurd rfl hne
      | cons c g =>
        obtain ⟨b, rfl, hb⟩ := hg c List.mem_cons_self
        intro hhead
        rw [List.cons_append, signs_cons, sign_of_blank hb, List.head?_cons, Option.some.injEq] at hhead
        rw [hhead, hblank] at hb
        cases hb
    rw [List.append_assoc, List.append_assoc]
    exact iff_of_false (hnot hg) (hnot hg')

/-- Where the passing over goes on it may stand in front of the cells that follow. -/
lemma Gap.Fits.past {g g' : Gap} {c : Cell} {as : List Cell} (h : g.Fits loose (c :: as))
    (hy : loose = true → NoLine (c :: as))
    (hg : g.past? c.sign (signs (as ++ .literal u :: Q)).head? = some g') : g'.Fits loose as := by
  have hblock : (if c.sign = '*' then Gap.star else .block).Fits loose as := by split <;> trivial
  cases g with
  | opening =>
    obtain ⟨d, ds, hd, hsign⟩ := h
    cases hd
    cases hg
    rcases hsign with hstar | ⟨-, hloose⟩
    · rw [hstar]
      trivial
    · rw [Gap.next]
      split
      · exact hloose
      · trivial
  | line =>
    cases hg
    rw [Gap.next]
    split
    · trivial
    · exact h
  | star =>
    cases hg
    rw [Gap.next]
    split
    · trivial
    · exact hblock
  | block =>
    cases hg
    exact hblock
  | blank =>
    rw [Gap.past?, if_pos rfl] at hg
    split at hg
    · cases hg
      trivial
    · split at hg
      · next hopen =>
        cases hg
        obtain ⟨hslash, hhead⟩ := hopen
        cases as with
        | nil => exact absurd hhead (by simp [signs, Cell.sign])
        | cons d as =>
          refine ⟨d, as, rfl, ?_⟩
          have hd : d.sign = '/' ∨ d.sign = '*' := by simpa [signs] using hhead
          refine hd.symm.imp_right fun hd => ⟨hd, Bool.eq_false_iff.2 fun hl => hy hl ?_⟩
          have hfront : ['/', '/'] <+: signs (c :: d :: as) :=
            ⟨signs as, by rw [signs_cons, signs_cons, hslash, hd]; rfl⟩
          exact hfront.isInfix
      · cases hg

/-- The passing over does the same in front of cells that are alike. -/
lemma past?_alike {y y' : List Cell} (h : Alike loose y y') (g : Gap) (c : Char) :
    g.past? c (signs (y ++ .literal u :: Q)).head? =
      g.past? c (signs (y' ++ .literal u :: R)).head? := by
  have hhead {d : Char} (hd : isBlank d = false) :
      ((signs (y ++ .literal u :: Q)).head? = some d) =
        ((signs (y' ++ .literal u :: R)).head? = some d) := propext (head?_alike h hd)
  rw [Gap.past?, Gap.past?]
  simp only [hhead (d := '/') (by decide), hhead (d := '*') (by decide)]

/-- If the next lexeme does not lie behind the literal, no comment goes on in front of it. -/
lemma skipGap_literal {g : Gap} {e : Bool}
    (hbound : Q.length < (skipGap g e (signs (.literal u :: Q))).1.length) : g = .blank := by
  obtain ⟨e', -, hstep⟩ := skipGap_cons g e '"' (signs Q)
  cases hpast : g.past? '"' (signs Q).head? with
  | none => exact Gap.past?_eq_none hpast
  | some g' =>
    have hlength := (skipGap_suffix g' e' (signs Q)).length_le
    rw [length_signs] at hlength
    have hcons : skipGap g e (signs (.literal u :: Q)) = skipGap g' e' (signs Q) := by
      rw [signs_cons]
      exact hstep.trans (by rw [hpast]; rfl)
    rw [hcons] at hbound
    omega

/-- Blanks in front of which the passing over may stand are in no comment that ends with its line. -/
lemma Gap.Fits.of_blanks {g : Gap} {bs as : List Cell} (h : g.Fits true (bs ++ as))
    (hbs : IsBlanks bs) : g ≠ .opening ∧ g ≠ .line ∧ g.pastBlanks.Fits true as := by
  have hopening : g ≠ .opening := by
    rintro rfl
    obtain ⟨c, as', hc, hsign⟩ := h
    obtain ⟨d, ds, rfl⟩ := List.exists_cons_of_ne_nil hbs.1
    obtain ⟨b, rfl, hb⟩ := hbs.2 d List.mem_cons_self
    obtain ⟨rfl, -⟩ := List.cons.inj hc
    rw [sign_of_blank hb] at hsign
    have hno := notSlash_of_isBlank hb
    exact hsign.elim hno.2 fun hslash => hno.1 hslash.1
  have hline : g ≠ .line := by
    rintro rfl
    cases h
  refine ⟨hopening, hline, ?_⟩
  cases g with
  | opening => exact absurd rfl hopening
  | line => exact absurd rfl hline
  | _ => trivial

/-- **The next lexeme of two scripts that are alike up to a literal** is the same, if it does not
lie behind the literal. -/
theorem skipGap_alike {y y' : List Cell} (h : Alike loose y y') (hy : loose = true → NoLine y)
    {g : Gap} (hg : g.Fits loose y) (e e' : Bool)
    (hbound : Q.length < (skipGap g e (signs (y ++ .literal u :: Q))).1.length) :
    ∃ z z', z <:+ y ∧ z' <:+ y' ∧ Alike loose z z' ∧
      (skipGap g e (signs (y ++ .literal u :: Q))).1 = signs (z ++ .literal u :: Q) ∧
      (skipGap g e' (signs (y' ++ .literal u :: R))).1 = signs (z' ++ .literal u :: R) := by
  induction h generalizing g e e' with
  | nil =>
    obtain rfl := skipGap_literal hbound
    exact ⟨[], [], List.suffix_refl _, List.suffix_refl _, .nil, rfl, rfl⟩
  | @same c as bs h ih =>
    obtain ⟨e₁, -, hstep⟩ := skipGap_cons g e c.sign (signs (as ++ .literal u :: Q))
    obtain ⟨e₂, -, hstep'⟩ := skipGap_cons g e' c.sign (signs (bs ++ .literal u :: R))
    rw [← past?_alike h] at hstep'
    rw [List.cons_append, signs_cons, hstep] at hbound ⊢
    rw [List.cons_append, signs_cons, hstep']
    cases hpast : g.past? c.sign (signs (as ++ .literal u :: Q)).head? with
    | none => exact ⟨c :: as, c :: bs, List.suffix_refl _, List.suffix_refl _, .same c h, rfl, rfl⟩
    | some g' =>
      rw [hpast] at hbound
      have hlater (hl : loose = true) : NoLine as := (hy hl).of_suffix (List.suffix_cons _ _)
      obtain ⟨z, z', hz, hz', halike, h₁, h₂⟩ := ih hlater (hg.past hy hpast) e₁ e₂ hbound
      exact ⟨z, z', hz.trans (List.suffix_cons _ _), hz'.trans (List.suffix_cons _ _), halike, h₁, h₂⟩
  | @blanks g₁ g₂ as bs hl hg₁ hg₂ h ih =>
    obtain rfl := hl
    obtain ⟨hopening, hline, hfits⟩ := hg.of_blanks hg₁
    have hpast {g' as : List Cell} (hg' : IsBlanks g') (Q : List Cell) (e : Bool) :
        (skipGap g e (signs (g' ++ as ++ .literal u :: Q))).1 =
          (skipGap g.pastBlanks e (signs (as ++ .literal u :: Q))).1 := by
      rw [List.append_assoc, signs_append]
      exact skipGap_blanks hopening hline hg' e e _
    rw [hpast hg₁] at hbound ⊢
    rw [hpast hg₂]
    obtain ⟨z, z', hz, hz', halike, h₁, h₂⟩ :=
      ih (fun hl => (hy hl).of_suffix (List.suffix_append _ _)) hfits e e' hbound
    exact ⟨z, z', hz.trans (List.suffix_append _ _), hz'.trans (List.suffix_append _ _), halike, h₁, h₂⟩

/-! ### Names -/

/-- A sign in which no name goes on: a blank or the sign of a literal. -/
def IsStop (c : Char) : Prop := isBlank c = true ∨ c = '"'

lemma isHex_of_isBlank {c : Char} (h : isBlank c = true) : isHex c = false ∧ c.isDigit = false := by
  have hplace : (9 ≤ c.toNat ∧ c.toNat ≤ 13) ∨ c.toNat = 32 ∨ 133 ≤ c.toNat := by
    simp only [isBlank, Bool.or_eq_true, Bool.and_eq_true, decide_eq_true_eq, beq_iff_eq] at h
    omega
  have hdigit : c.isDigit = false := by
    simp only [Char.isDigit, Bool.and_eq_false_iff, decide_eq_false_iff_not, ge_iff_le,
      UInt32.le_iff_toNat_le]
    change ¬ 48 ≤ c.toNat ∨ ¬ c.toNat ≤ 57
    omega
  refine ⟨?_, hdigit⟩
  simp only [isHex, hdigit, Bool.false_or, Bool.or_eq_false_iff, Bool.and_eq_false_iff,
    decide_eq_false_iff_not, Char.le_def, UInt32.le_iff_toNat_le]
  change (¬ 97 ≤ c.toNat ∨ ¬ c.toNat ≤ 102) ∧ (¬ 65 ≤ c.toNat ∨ ¬ c.toNat ≤ 70)
  omega

lemma IsStop.endsWord {c : Char} (h : IsStop c) : EndsWord c := by
  rcases h with h | rfl
  · refine ⟨?_, ?_⟩
    · simp [isNameChar, isNameStart, isGap_of_isBlank h, (isHex_of_isBlank h).2]
    · rintro rfl
      cases h
  · exact ⟨by decide, by decide⟩

lemma IsStop.isHex {c : Char} (h : IsStop c) : isHex c = false := by
  rcases h with h | rfl
  · exact (isHex_of_isBlank h).1
  · rfl

lemma IsStop.ne {c d : Char} (h : IsStop c) (hd : isBlank d = false) (hq : d ≠ '"') : c ≠ d := by
  rintro rfl
  rcases h with h | h
  · rw [hd] at h
    cases h
  · exact hq h

/-- An escape without braces has four digits. -/
lemma nameEscape?_four {y : List Char} (h : y.head? ≠ some '{') : nameEscape? ('u' :: y) =
    if 4 ≤ y.length ∧ (y.take 4).all isHex = true then some (y.drop 4) else none := by
  rcases y with _ | ⟨a, _ | ⟨b, _ | ⟨c, _ | ⟨d, y⟩⟩⟩⟩
  · rfl
  all_goals
    have ha : a ≠ '{' := fun ha => h (congrArg some ha)
    simp [nameEscape?, ha]

lemma nameEscape?_braces (y : List Char) : nameEscape? ('u' :: '{' :: y) =
    if (y.dropWhile isHex).head? = some '}' ∧ (y.dropWhile isHex).length < y.length then
      some (y.dropWhile isHex).tail else none := by
  rw [nameEscape?]
  split
  · next r hr => simp [hr]
  · next hr =>
    rw [if_neg]
    rintro ⟨hhead, -⟩
    obtain ⟨r, hr'⟩ := List.head?_eq_some_iff.1 hhead
    exact hr r hr'

lemma dropWhile_append_stop {p : Char → Bool} (x : List Char) {s : Char} (hs : p s = false)
    (r : List Char) : (x ++ s :: r).dropWhile p = x.dropWhile p ++ s :: r := by
  induction x with
  | nil => simp [hs]
  | cons c x ih =>
    rw [List.cons_append, List.dropWhile_cons, List.dropWhile_cons]
    split
    · exact ih
    · rfl

lemma IsStop.head?_append {s : Char} (hs : IsStop s) {d : Char} (hd : isBlank d = false) (hq : d ≠ '"')
    (x r : List Char) : (x ++ s :: r).head? = some d ↔ x.head? = some d := by
  cases x with
  | nil => simp [hs.ne hd hq]
  | cons c x => rfl

/-- An escape does not go on behind a stop. -/
lemma nameEscape?_stop {s : Char} (hs : IsStop s) (x r : List Char) :
    nameEscape? (x ++ s :: r) = (nameEscape? x).map (· ++ s :: r) := by
  cases x with
  | nil => simp [nameEscape?, hs.ne (d := 'u') (by decide) (by decide)]
  | cons c x =>
    by_cases hc : c = 'u'
    · rw [hc, List.cons_append]
      by_cases hbrace : x.head? = some '{'
      · obtain ⟨x, rfl⟩ := List.head?_eq_some_iff.1 hbrace
        have hlength : (x.dropWhile isHex ++ s :: r).length < (x ++ s :: r).length ↔
            (x.dropWhile isHex).length < x.length := by simp
        have hhead : (x.dropWhile isHex ++ s :: r).head? = some '}' ↔ (x.dropWhile isHex).head? = some '}' :=
          hs.head?_append (by decide) (by decide) _ _
        rw [List.cons_append, nameEscape?_braces, nameEscape?_braces, dropWhile_append_stop x hs.isHex r]
        by_cases h : (x.dropWhile isHex).head? = some '}' ∧ (x.dropWhile isHex).length < x.length
        · obtain ⟨y, hy⟩ := List.head?_eq_some_iff.1 h.1
          rw [if_pos h, if_pos ⟨hhead.2 h.1, hlength.2 h.2⟩, hy]
          rfl
        · rw [if_neg h, if_neg fun h' => h ⟨hhead.1 h'.1, hlength.1 h'.2⟩]
          rfl
      · have hhead : (x ++ s :: r).head? ≠ some '{' :=
          mt (hs.head?_append (by decide) (by decide) x r).1 hbrace
        rw [nameEscape?_four hbrace, nameEscape?_four hhead]
        by_cases hx : 4 ≤ x.length
        · have hlength : 4 ≤ (x ++ s :: r).length := by
            rw [List.length_append]
            omega
          simp only [List.take_append_of_le_length hx, List.drop_append_of_le_length hx, hlength, hx,
            true_and]
          split <;> rfl
        · have hin : s ∈ (x ++ s :: r).take 4 := by
            obtain ⟨n, hn⟩ : ∃ n, 4 - x.length = n + 1 := ⟨3 - x.length, by omega⟩
            rw [List.take_append, hn, List.take_succ_cons]
            exact List.mem_append_right _ List.mem_cons_self
          have hnot : ¬ ((x ++ s :: r).take 4).all isHex = true := fun hall => by
            have hhex := List.all_eq_true.1 hall s hin
            rw [hs.isHex] at hhex
            cases hhex
          rw [if_neg fun h => hnot h.2, if_neg fun h => hx h.1]
          rfl
    · simp [nameEscape?, hc]

lemma splitName_stop {s : Char} (hs : IsStop s) {n : Nat} {x : List Char} (hn : n ≤ x.length)
    (r : List Char) : splitName n (x ++ s :: r) = ((splitName n x).1, (splitName n x).2 ++ s :: r) := by
  induction x generalizing n with
  | nil =>
    obtain rfl : n = 0 := Nat.le_zero.1 hn
    have hends : splitName 0 (s :: r) = ([], s :: r) := by
      rw [splitName, hs.endsWord.1, if_neg (by simp), if_neg hs.endsWord.2]
    exact hends
  | cons c x ih =>
    cases n with
    | succ n =>
      rw [List.cons_append, splitName, splitName, ih (Nat.le_of_succ_le_succ hn)]
      rfl
    | zero =>
      rw [List.cons_append, splitName, splitName, nameEscape?_stop hs]
      split
      · rw [ih (Nat.zero_le _)]
        rfl
      · split
        · cases hescape : nameEscape? x with
          | none => rfl
          | some b =>
            have hlength : (x ++ s :: r).length - (b ++ s :: r).length = x.length - b.length := by
              simp only [List.length_append]
              omega
            simp only [Option.map_some, hlength]
            rw [ih (Nat.sub_le _ _)]
            rfl
        · rfl

/-- **A name does not go on behind a stop.** -/
lemma name?_stop {s : Char} (hs : IsStop s) (x r : List Char) :
    name? (x ++ s :: r) = (name? x).map fun p => (p.1, p.2 ++ s :: r) := by
  cases x with
  | nil =>
    have hstart : isNameStart s = false := by
      have := hs.endsWord.1
      rw [isNameChar, Bool.or_eq_false_iff] at this
      exact this.1
    rw [List.nil_append, name?, hstart, if_neg (by simpa using hs.endsWord.2)]
    rfl
  | cons c x =>
    have hsplit := splitName_stop hs (Nat.zero_le (c :: x).length) r
    rw [List.cons_append] at hsplit
    rw [List.cons_append, name?, name?, hsplit]
    split
    · generalize splitName 0 (c :: x) = p
      obtain ⟨a, b⟩ := p
      cases a <;> rfl
    · rfl

/-- A name with what is left behind it makes up the text. -/
lemma append_name? {t n r : List Char} (h : name? t = some (n, r)) : n ++ r = t ∧ n ≠ [] := by
  unfold name? at h
  split at h
  · next c s =>
    have happ := append_splitName 0 (c :: s)
    generalize splitName 0 (c :: s) = p at h happ
    obtain ⟨a, b⟩ := p
    split at h
    · cases a with
      | nil => cases h
      | cons d a =>
        cases h
        exact ⟨happ, List.cons_ne_nil _ _⟩
    · cases h
  · cases h

lemma Alike.append_left {y y' : List Cell} (h : Alike loose y y') (v : List Cell) :
    Alike loose (v ++ y) (v ++ y') := by
  induction v with
  | nil => exact h
  | cons c v ih => exact .same c ih

/-- The next stop of two rows that are alike. -/
lemma Alike.exists_stop {y y' : List Cell} (h : Alike loose y y') :
    ∃ v z z', y = v ++ z ∧ y' = v ++ z' ∧ Alike loose z z' ∧
      (∀ Q, ∃ s r, IsStop s ∧ signs (z ++ .literal u :: Q) = s :: r) ∧
      ∀ Q, ∃ s r, IsStop s ∧ signs (z' ++ .literal u :: Q) = s :: r := by
  have hblanks {g : List Cell} (hg : IsBlanks g) (as Q : List Cell) :
      ∃ s r, IsStop s ∧ signs (g ++ as ++ .literal u :: Q) = s :: r := by
    obtain ⟨c, g, rfl⟩ := List.exists_cons_of_ne_nil hg.1
    obtain ⟨b, rfl, hb⟩ := hg.2 c List.mem_cons_self
    exact ⟨b, _, .inl hb, by rw [List.cons_append, List.cons_append, signs_cons, sign_of_blank hb]⟩
  induction h with
  | nil => exact ⟨[], [], [], rfl, rfl, .nil, fun Q => ⟨'"', _, .inr rfl, rfl⟩, fun Q => ⟨'"', _, .inr rfl, rfl⟩⟩
  | same c h ih =>
    obtain ⟨v, z, z', rfl, rfl, halike, hz, hz'⟩ := ih
    exact ⟨c :: v, z, z', rfl, rfl, halike, hz, hz'⟩
  | blanks hl hg hg' h _ =>
    exact ⟨[], _, _, rfl, rfl, .blanks hl hg hg' h, hblanks hg _, hblanks hg' _⟩

/-- **The next name of two scripts that are alike up to a literal** is the same. -/
theorem name?_alike {y y' : List Cell} (h : Alike loose y y') {n r : List Char}
    (hn : name? (signs (y ++ .literal u :: Q)) = some (n, r)) :
    ∃ v z z', v ≠ [] ∧ y = v ++ z ∧ y' = v ++ z' ∧ Alike loose z z' ∧ n = signs v ∧
      r = signs (z ++ .literal u :: Q) ∧
      name? (signs (y' ++ .literal u :: R)) = some (n, signs (z' ++ .literal u :: R)) := by
  obtain ⟨v, z, z', rfl, rfl, halike, hz, hz'⟩ := h.exists_stop (u := u)
  obtain ⟨s, t, hs, ht⟩ := hz Q
  obtain ⟨s', t', hs', ht'⟩ := hz' R
  rw [List.append_assoc, signs_append, ht, name?_stop hs] at hn
  obtain ⟨⟨a, b⟩, hab, heq⟩ := Option.map_eq_some_iff.1 hn
  obtain ⟨happ, hne⟩ := append_name? hab
  obtain ⟨v₁, v₂, rfl, rfl, rfl⟩ := List.map_eq_append_iff.1 happ.symm
  cases heq
  refine ⟨v₁, v₂ ++ z, v₂ ++ z', fun hnil => hne (by rw [hnil]; rfl), List.append_assoc _ _ _,
    List.append_assoc _ _ _, halike.append_left v₂, rfl, ?_, ?_⟩
  · rw [List.append_assoc, signs_append, ht]
    rfl
  · rw [List.append_assoc, signs_append, ht', name?_stop hs', hab, List.append_assoc, signs_append, ht']
    rfl

lemma name?_alike_none {y y' : List Cell} (h : Alike loose y y')
    (hn : name? (signs (y ++ .literal u :: Q)) = none) : name? (signs (y' ++ .literal u :: R)) = none := by
  cases hn' : name? (signs (y' ++ .literal u :: R)) with
  | none => rfl
  | some p =>
    obtain ⟨v, z, z', -, -, -, -, -, -, hname⟩ := name?_alike (R := Q) h.symm hn'
    rw [hn] at hname
    cases hname

end Mender.Script
