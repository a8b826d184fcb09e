import Mender.Proofs.Script.Alike
import Mender.Proofs.Script.Ended

/-!
Readers on two scripts with a literal in common.

Where two scripts are alike up to a literal, a reader that does not come past the literal in the one
reads the same in the other. How far a reader comes is told by the lexeme that it leaves next: none
goes back behind the next lexeme.
-/

namespace Mender.Script

open Mender.Text Reader

variable {α β : Type}

/-! ### How far a reader comes -/

/-- The reader does not go back behind the next lexeme. -/
def Steady (p : Reader α) : Prop := ∀ c, p.Post c fun _ d => d.next.length ≤ c.next.length

section

variable {p : Reader α} {f : α → Reader β}

lemma Still.steady (h : Still p) : Steady p := fun c => (h c).mono fun _ _ _ hd => hd ▸ Nat.le_refl _

lemma Steady.bind (hp : Steady p) (hf : ∀ a, Steady (f a)) : Steady (p >>= f) :=
  fun c => post_bind ((hp c).mono fun a d _ hd => (hf a d).mono fun _ _ _ he => he.trans hd)

lemma steady_ite {c : Prop} [Decidable c] {q : Reader α} (hp : Steady p) (hq : Steady q) :
    Steady (if c then p else q) := by
  split
  · exact hp
  · exact hq

lemma steady_pure (a : α) : Steady (pure a : Reader α) := still_pure.steady

lemma steady_failLast : Steady (failLast : Reader α) := fun _ => post_failLast

lemma steady_failNext : Steady (failNext : Reader α) := fun _ => post_failNext

lemma steady_partSince (s : List Char) : Steady (partSince s) := still_partSince.steady

/-- What the reader answers from a text to come holds of whatever it answers. -/
lemma post_of_takes {c : Cursor} {a : α} {r : List Char} {Q : α → Cursor → Prop} (h : Takes p c.rest a r)
    (hQ : ∀ d : Cursor, d.rest = r → Q a d) : p.Post c Q := by
  intro b d hread
  obtain ⟨e, he, hr⟩ := h c rfl
  rw [hread] at he
  cases he
  exact hQ d hr

/-- From a text to come the reader comes to where `q` reads the rest. -/
def Comes {γ : Type} (p : Reader γ) (t : List Char) (q : Reader γ) (rest : List Char) : Prop :=
  ∀ c : Cursor, c.rest = t → ∃ d, p.read c = q.read d ∧ d.rest = rest

lemma Takes.comes {t r : List Char} {a : α} (h : Takes p t a r) : Comes (p >>= f) t (f a) r := by
  intro c hc
  obtain ⟨d, hd, hr⟩ := h c hc
  refine ⟨d, ?_, hr⟩
  show (andThen p f).read c = _
  simp only [andThen, hd]

lemma Comes.trans {q s : Reader α} {t r u : List Char} (h : Comes p t q r) (h' : Comes q r s u) :
    Comes p t s u := by
  intro c hc
  obtain ⟨d, hd, hr⟩ := h c hc
  obtain ⟨e, he, hu⟩ := h' d hr
  exact ⟨e, hd.trans he, hu⟩

lemma Comes.takes {q : Reader α} {t r s : List Char} {a : α} (h : Comes p t q r) (hq : Takes q r a s) :
    Takes p t a s := by
  intro c hc
  obtain ⟨d, hd, hr⟩ := h c hc
  obtain ⟨e, he, hs⟩ := hq d hr
  exact ⟨e, hd.trans he, hs⟩

lemma post_of_comes {q : Reader α} {c : Cursor} {r : List Char} {Q : α → Cursor → Prop}
    (h : Comes p c.rest q r) (hq : ∀ d : Cursor, d.rest = r → q.Post d Q) : p.Post c Q := by
  intro a e hread
  obtain ⟨d, hd, hr⟩ := h c rfl
  exact hq d hr a e (hd ▸ hread)

/-- The reader only looks at what is to come. -/
def Looks (p : Reader α) (g : List Char → α) : Prop := ∀ t, Takes p t (g t) t

lemma Looks.bind {g : List Char → α} {g' : α → List Char → β} (h : Looks p g)
    (hf : ∀ a, Looks (f a) (g' a)) : Looks (p >>= f) fun t => g' (g t) t :=
  fun t => (h t).bind (hf _ t)

lemma looks_pure (a : α) : Looks (pure a) fun _ => a := fun _ => takes_pure

lemma looks_next : Looks next fun t => (skipGap .blank false t).1 := fun _ => takes_next

lemma Looks.steady {g : List Char → α} (h : Looks p g) : Steady p := fun c =>
  post_of_takes (h c.rest) fun d hd => by
    rw [Cursor.next, Cursor.next, hd]

lemma next_take_le {c : Cursor} {r : List Char} (hr : r <:+ c.next) :
    (c.take c.next r).next.length ≤ c.next.length := by
  have hnext := (c.take c.next r).next_suffix.length_le
  rw [rest_take c.next_suffix hr] at hnext
  exact hnext.trans hr.length_le

end

lemma steady_eat (s : String) : Steady (eat s) := by
  refine fun c => post_bind (post_next ?_)
  split
  · next r hr =>
    have hsuffix : r <:+ c.next := by
      rw [Cursor.next, after?_eq_some_iff.1 hr]
      exact List.suffix_append _ _
    exact post_bind (post_take (post_pure (next_take_le hsuffix)))
  · exact post_pure (Nat.le_refl _)

lemma steady_expect (s : String) : Steady (expect s) :=
  (steady_eat s).bind fun _ => steady_ite (steady_pure _) steady_failLast

lemma steady_eatWord (w : String) : Steady (eatWord w) := by
  refine fun c => post_bind (post_next ?_)
  split
  · next n r hname =>
    split
    · exact post_bind (post_take (post_pure (next_take_le (name?_lt hname).1)))
    · exact post_pure (Nat.le_refl _)
  · exact post_pure (Nat.le_refl _)

lemma steady_expectWord (w : String) : Steady (expectWord w) :=
  (steady_eatWord w).bind fun _ => steady_ite (steady_pure _) steady_failLast

/-- The next word. -/
def wordOf (t : List Char) : String := firstWord (skipGap .blank false t).1

lemma looks_nextWord : Looks nextWord wordOf := by
  refine fun t => takes_next.bind ?_
  unfold wordOf firstWord
  split <;> next hname =>
    rw [hname]
    exact takes_pure

/-- What comes behind the next word. -/
def past (t : List Char) : List Char × Bool :=
  (name? (skipGap .blank false t).1).elim ([], true) fun p => skipGap .blank false p.2

lemma takes_of_name {t n r : List Char} (h : name? (skipGap .blank false t).1 = some (n, r)) :
    Takes name t (String.ofList n) r := by
  refine takes_next.bind ?_
  rw [h]
  exact (takes_take (skipGap_suffix _ _ _) (name?_lt h).1).bind takes_pure

lemma looks_pastWord : Looks pastWord past := by
  intro t
  unfold past
  cases hname : name? (skipGap .blank false t).1 with
  | none => exact takes_pastWord_none hname
  | some p =>
    obtain ⟨n, r⟩ := p
    exact (takes_lookPast (takes_of_name hname)).bind takes_pure

/-- A name is taken up to what comes behind it. -/
lemma post_name_past (c : Cursor) : name.Post c fun _ d => d.next = (past c.rest).1 := by
  refine post_bind (post_next ?_)
  split
  · next n r hname =>
    have hrest : (c.take c.next r).rest = r := rest_take c.next_suffix (name?_lt hname).1
    refine post_bind (post_take (post_pure ?_))
    show (c.take c.next r).next = _
    rw [past, hname, Cursor.next, hrest]
    rfl
  · exact post_failLast

lemma past_length_le (c : Cursor) : (past c.rest).1.length ≤ c.next.length := by
  rw [past]
  cases hname : name? (skipGap .blank false c.rest).1 with
  | none => exact Nat.zero_le _
  | some p =>
    obtain ⟨n, r⟩ := p
    exact (skipGap_suffix _ _ _).length_le.trans (name?_lt hname).1.length_le

lemma steady_name : Steady name :=
  fun c => (post_name_past c).mono fun _ _ _ hd => hd ▸ past_length_le c

lemma steady_optionalName : Steady optionalName :=
  looks_next.steady.bind fun _ => steady_ite (steady_name.bind fun _ => steady_pure _) (steady_pure _)

lemma steady_inBracket {p : Reader α} (hp : Steady p) (n : Nat) : Steady (inBracket n p) :=
  fun c => post_inBracket (hp c)

lemma steady_cursor : Steady cursor := fun _ => post_cursor (Nat.le_refl _)

lemma steady_bracketed {p : Reader α} (hp : Steady p) (s : String) : Steady (bracketed s p) :=
  steady_cursor.bind fun _ => (steady_expect s).bind fun _ => steady_inBracket hp _

/-- The end of a list, where no comma comes next. -/
def listEnd (close : Char) : Reader Bool := do
  match ← next with
  | c :: _ => if c = close then return false else failNext
  | [] => return false

lemma comma_eq (close : Char) :
    comma close = eat "," >>= fun b => if b then pure true else listEnd close := rfl

lemma steady_listEnd (close : Char) : Steady (listEnd close) := by
  refine looks_next.steady.bind fun t => ?_
  split
  · exact steady_ite (steady_pure _) steady_failNext
  · exact steady_pure _

lemma steady_comma (close : Char) : Steady (comma close) :=
  (steady_eat ",").bind fun _ => steady_ite (steady_pure _) (steady_listEnd close)

/-! ### Two scripts -/

/-- A literal in two scripts, with what stands behind it in each; `loose` is whether the blanks in front
of it may differ. -/
structure TwoPlaces where
  loose : Bool
  literal : List Char
  script : List Cell
  rest : List Cell
  script' : List Cell
  rest' : List Cell

namespace TwoPlaces

/-- What is to come in the two scripts: rows that are alike, and then the literal. In front of it the
second script has fewer than `k` cells. -/
inductive Ahead (m : TwoPlaces) (k : Nat) : List Char → List Char → Prop
  | mk {y y' : List Cell} (h : Alike m.loose y y') (hy : m.loose = true → NoLine y) (hk : y'.length < k)
      (hs : y ++ .literal m.literal :: m.rest <:+ m.script)
      (hs' : y' ++ .literal m.literal :: m.rest' <:+ m.script') :
      Ahead m k (signs (y ++ .literal m.literal :: m.rest)) (signs (y' ++ .literal m.literal :: m.rest'))

/-- The same cells stand between two ends of what is to come, in the one script and in the other. -/
inductive Between (m : TwoPlaces) : (t r t' r' : List Char) → Prop
  | mk {v w w' : List Cell} (hs : v ++ w <:+ m.script) (hs' : v ++ w' <:+ m.script') :
      Between m (signs (v ++ w)) (signs w) (signs (v ++ w')) (signs w')

/-- The parts have one text. -/
def SamePart (m : TwoPlaces) (p p' : Part) : Prop :=
  (p.restore m.script).text = (p'.restore m.script').text

variable {m : TwoPlaces} {k : Nat} {t t' r : List Char}

/-- The text of the cells between two ends of what is to come. -/
lemma text_restore {cs v w : List Cell} (h : v ++ w <:+ cs) (text : String) :
    (Part.restore cs ⟨⟨(v ++ w).length, w.length⟩, text⟩).text = String.ofList (joined v) := by
  have htake : (v ++ w).length - w.length = v.length := by
    rw [List.length_append]
    omega
  simp only [Part.restore, lastCells_suffix h, htake, List.take_left]

lemma Between.samePart {r' : List Char} (h : m.Between t r t' r') (text text' : String) :
    m.SamePart ⟨⟨t.length, r.length⟩, text⟩ ⟨⟨t'.length, r'.length⟩, text'⟩ := by
  obtain ⟨hs, hs'⟩ := h
  simp only [SamePart, length_signs, text_restore hs, text_restore hs']

namespace Ahead

lemma mono {k' : Nat} (h : m.Ahead k t t') (hk : k ≤ k') : m.Ahead k' t t' := by
  obtain ⟨h, hy, hlength, hs, hs'⟩ := h
  exact ⟨h, hy, hlength.trans_le hk, hs, hs'⟩

lemma not_zero : ¬ m.Ahead 0 t t' := by
  rintro ⟨-, -, hk, -, -⟩
  exact Nat.not_lt_zero _ hk

/-- The next lexeme on, if it does not lie behind the literal. -/
lemma gap (h : m.Ahead k t t') {e : Bool} (hlt : m.rest.length < (skipGap .blank e t).1.length)
    (e' : Bool) : m.Ahead k (skipGap .blank e t).1 (skipGap .blank e' t').1 := by
  obtain ⟨h, hy, hk, hs, hs'⟩ := h
  obtain ⟨z, z', hz, hz', halike, h₁, h₂⟩ :=
    skipGap_alike (R := m.rest') h hy (g := .blank) trivial e e' hlt
  have hsuffix {a b : List Cell} (hab : a <:+ b) (Q : List Cell) :
      a ++ .literal m.literal :: Q <:+ b ++ .literal m.literal :: Q := by
    obtain ⟨x, rfl⟩ := hab
    exact ⟨x, (List.append_assoc _ _ _).symm⟩
  rw [h₁, h₂]
  exact ⟨halike, fun hl => (hy hl).of_suffix hz, hz'.length_le.trans_lt hk, (hsuffix hz _).trans hs,
    (hsuffix hz' _).trans hs'⟩

lemma head (h : m.Ahead k t t') {d : Char} (hd : isBlank d = false) :
    t.head? = some d ↔ t'.head? = some d := by
  obtain ⟨h, -, -, -, -⟩ := h
  exact head?_alike h hd

/-- A sign in front of the literal. -/
lemma cons {d : Char} (h : m.Ahead k (d :: r) t') (hd : isBlank d = false)
    (hlt : m.rest.length < r.length) :
    ∃ r' j, t' = d :: r' ∧ k = j + 1 ∧ m.Ahead j r r' ∧ m.Between (d :: r) r t' r' := by
  generalize ht : d :: r = t at h
  obtain ⟨h, hy, hk, hs, hs'⟩ := h
  cases h with
  | nil =>
    cases ht
    rw [List.length_map] at hlt
    exact absurd hlt (Nat.lt_irrefl _)
  | @same c as bs h =>
    cases ht
    have htail {as : List Cell} (Q : List Cell) :
        as ++ .literal m.literal :: Q <:+ c :: as ++ .literal m.literal :: Q := List.suffix_cons _ _
    rw [List.length_cons] at hk
    exact ⟨_, k - 1, rfl, by omega, ⟨h, fun hl => (hy hl).of_suffix (List.suffix_cons _ _), by omega,
      (htail _).trans hs, (htail _).trans hs'⟩, .mk (v := [c]) hs hs'⟩
  | blanks hl hg hg' h =>
    obtain ⟨c, g, rfl⟩ := List.exists_cons_of_ne_nil hg.1
    obtain ⟨b, rfl, hb⟩ := hg.2 c List.mem_cons_self
    rw [List.cons_append, List.cons_append, signs_cons, sign_of_blank hb] at ht
    cases ht
    rw [hd] at hb
    cases hb

/-- The literal itself. -/
lemma atLiteral {d : Char} (h : m.Ahead k (d :: r) t') (hr : r.length = m.rest.length) :
    t' = '"' :: signs m.rest' ∧ m.Between (d :: r) r t' (signs m.rest') := by
  generalize ht : d :: r = t at h
  have hlength : t.length = m.rest.length + 1 := by rw [← ht, List.length_cons, hr]
  obtain ⟨h, -, -, hs, hs'⟩ := h
  rename_i y y'
  obtain rfl : y = [] := by
    rw [length_signs, List.length_append, List.length_cons] at hlength
    exact List.length_eq_zero_iff.1 (by omega)
  obtain rfl : y' = [] := by
    generalize hy : ([] : List Cell) = y at h
    cases h with
    | nil => rfl
    | same => cases hy
    | blanks _ hg => exact absurd (List.append_eq_nil_iff.1 hy.symm).1 hg.1
  cases ht
  exact ⟨rfl, .mk (v := [.literal m.literal]) hs hs'⟩

/-- A name in front of the literal. -/
lemma name (h : m.Ahead k t t') {n : List Char} (hn : name? t = some (n, r)) :
    ∃ r' j, name? t' = some (n, r') ∧ k = j + 1 ∧ m.Ahead j r r' ∧ m.Between t r t' r' := by
  obtain ⟨h, hy, hk, hs, hs'⟩ := h
  obtain ⟨v, z, z', hv, rfl, rfl, halike, rfl, rfl, hname⟩ := name?_alike (R := m.rest') h hn
  have hpos := List.length_pos_iff.2 hv
  rw [List.length_append] at hk
  have hbehind {z Q cs : List Cell} (hs : v ++ z ++ .literal m.literal :: Q <:+ cs) :
      z ++ .literal m.literal :: Q <:+ cs :=
    (List.suffix_append v _).trans (List.append_assoc v z _ ▸ hs)
  refine ⟨_, k - 1, hname, by omega, ⟨halike, fun hl => (hy hl).of_suffix (List.suffix_append _ _),
    by omega, hbehind hs, hbehind hs'⟩, ?_⟩
  rw [List.append_assoc, List.append_assoc]
  exact .mk (List.append_assoc v z _ ▸ hs) (List.append_assoc v z' _ ▸ hs')

lemma noName (h : m.Ahead k t t') (hn : name? t = none) : name? t' = none := by
  obtain ⟨h, -, -, -, -⟩ := h
  exact name?_alike_none h hn

lemma firstWord (h : m.Ahead k t t') : Script.firstWord t' = Script.firstWord t := by
  unfold Script.firstWord
  cases hn : name? t with
  | none => rw [h.noName hn]
  | some p =>
    obtain ⟨n, r⟩ := p
    obtain ⟨r', j, hn', -, -, -⟩ := h.name hn
    rw [hn']
    rfl

/-- What comes behind the next word. -/
lemma past (h : m.Ahead k t t') (hlt : m.rest.length < (Script.past t).1.length) :
    m.Ahead k (Script.past t).1 (Script.past t').1 := by
  have hnext := hlt.trans_le (past_length_le (.atStart t))
  have hgap := h.gap (e := false) hnext false
  unfold Script.past at hlt ⊢
  cases hn : name? (skipGap .blank false t).1 with
  | none =>
    rw [hn] at hlt
    exact absurd hlt (Nat.not_lt_zero _)
  | some p =>
    obtain ⟨n, r⟩ := p
    obtain ⟨r', j, hn', rfl, hr, -⟩ := hgap.name hn
    rw [hn] at hlt
    rw [hn']
    exact (hr.gap hlt false).mono (Nat.le_succ _)

end Ahead

lemma after?_sign_eq_none {d : Char} {t : List Char} : after? [d] t = none ↔ t.head? ≠ some d := by
  cases t with
  | nil => simp [after?]
  | cons c t => simp [after?, eq_comm]

/-! ### Readers -/

/-- The second reader answers as the first one does, from what is to come in the one script and in the
other, as long as the first one does not come past the literal. -/
def Follows (m : TwoPlaces) (k k' : Nat) (p p' : Reader α) (R : α → α → Prop) : Prop :=
  ∀ c t', m.Ahead k c.rest t' → p.Post c fun a d => m.rest.length < d.next.length →
    ∃ a' r', Takes p' t' a' r' ∧ R a a' ∧ m.Ahead k' d.rest r'

section

variable {k k' j : Nat} {p p' : Reader α} {f f' : α → Reader β} {R R' : α → α → Prop}
  {S : β → β → Prop}

lemma Follows.bind (hp : m.Follows k j p p' R) (hf : ∀ a a', R a a' → m.Follows j k' (f a) (f' a') S)
    (hs : ∀ a, Steady (f a)) : m.Follows k k' (p >>= f) (p' >>= f') S := by
  refine fun c t' ht => post_bind fun a d had b e hbe hlt => ?_
  obtain ⟨a', r', htakes, ha, hr⟩ := hp c t' ht a d had (hlt.trans_le (hs a d b e hbe))
  obtain ⟨b', s', htakes', hb, hs'⟩ := hf a a' ha d r' hr b e hbe hlt
  exact ⟨b', s', htakes.bind htakes', hb, hs'⟩

lemma Follows.mono (hp : m.Follows k k' p p' R) (hk : j ≤ k) {j' : Nat} (hk' : k' ≤ j')
    (hR : ∀ a a', R a a' → R' a a') : m.Follows j j' p p' R' := by
  intro c t' ht a d had hlt
  obtain ⟨a', r', htakes, ha, hr⟩ := hp c t' (ht.mono hk) a d had hlt
  exact ⟨a', r', htakes, hR _ _ ha, hr.mono hk'⟩

lemma follows_zero : m.Follows 0 k' p p' R := fun _ _ ht => absurd ht Ahead.not_zero

lemma follows_pure {a a' : α} (ha : R a a') : m.Follows k k (pure a) (pure a') R :=
  fun _ _ ht => post_pure fun _ => ⟨a', _, takes_pure, ha, ht⟩

lemma follows_failLast : m.Follows k k' (failLast : Reader α) p' R := fun _ _ _ => post_failLast

lemma follows_failNext : m.Follows k k' (failNext : Reader α) p' R := fun _ _ _ => post_failNext

lemma follows_ite {c c' : Prop} [Decidable c] [Decidable c'] (hc : c ↔ c') {q q' : Reader α}
    (hp : m.Follows k k' p p' R) (hq : m.Follows k k' q q' R) :
    m.Follows k k' (if c then p else q) (if c' then p' else q') R := by
  by_cases h : c
  · rw [if_pos h, if_pos (hc.1 h)]
    exact hp
  · rw [if_neg h, if_neg (mt hc.2 h)]
    exact hq

lemma follows_eat {s : String} {d : Char} (hs : s.toList = [d]) (hd : isBlank d = false) :
    m.Follows k k (eat s) (eat s) Eq := by
  refine fun c t' ht => post_bind (post_next ?_)
  split
  · next r hr =>
    have hnext : c.next = d :: r := by
      rw [Cursor.next, after?_eq_some_iff.1 hr, hs]
      rfl
    refine post_bind (post_take (post_pure fun hlt => ?_))
    have hrest : (c.take c.next r).rest = r := rest_take c.next_suffix (hnext ▸ List.suffix_cons _ _)
    have hle : m.rest.length < r.length := by
      have := (c.take c.next r).next_suffix.length_le
      rw [hrest] at this
      exact hlt.trans_le this
    have hgap := ht.gap (e := false) (hlt.trans_le (next_take_le (hnext ▸ List.suffix_cons _ _))) false
    rw [show (skipGap .blank false c.rest).1 = d :: r from hnext] at hgap
    obtain ⟨r', j, hr', rfl, hahead, -⟩ := hgap.cons hd hle
    refine ⟨true, r', takes_eat (by rw [hr', hs]; rfl), rfl, ?_⟩
    show m.Ahead (j + 1) (c.take c.next r).rest r'
    rw [hrest]
    exact hahead.mono (Nat.le_succ _)
  · next hr =>
    refine post_pure fun hlt => ⟨false, t', takes_eat_not ?_, rfl, ht⟩
    have hhead := (ht.gap (e := false) hlt false).head hd
    rw [hs, after?_sign_eq_none] at hr ⊢
    exact mt hhead.2 hr

/-- What two readers look at. -/
lemma follows_looks {g g' : List Char → α} (h : Looks p g) (h' : Looks p' g')
    (hR : ∀ t t', m.Ahead k t t' → m.rest.length < (skipGap .blank false t).1.length →
      R (g t) (g' t')) : m.Follows k k p p' R := by
  refine fun c t' ht => post_of_takes (h c.rest) fun d hd hlt => ⟨g' t', t', h' t', hR _ _ ht ?_, hd ▸ ht⟩
  rwa [Cursor.next, hd] at hlt

lemma follows_next : m.Follows k k next next (m.Ahead k) :=
  follows_looks looks_next looks_next fun _ _ ht hlt => ht.gap hlt false

lemma follows_expect {s : String} {d : Char} (hs : s.toList = [d]) (hd : isBlank d = false) :
    m.Follows k k (expect s) (expect s) Eq := by
  refine (follows_eat hs hd).bind (fun b b' hb => ?_) fun _ => steady_ite (steady_pure _) steady_failLast
  subst hb
  exact follows_ite Iff.rfl (follows_pure rfl) follows_failLast

/-- A name is taken in both scripts. -/
lemma post_name_ahead {c : Cursor} (ht : m.Ahead (k + 1) c.rest t') :
    name.Post c fun n d => m.rest.length < d.next.length →
      ∃ r', Takes name t' n r' ∧ m.Ahead k d.rest r' ∧
        m.Between c.next d.rest (skipGap .blank false t').1 r' := by
  refine post_bind (post_next ?_)
  split
  · next n r hname =>
    have hsuffix := (name?_lt hname).1
    have hrest : (c.take c.next r).rest = r := rest_take c.next_suffix hsuffix
    refine post_bind (post_take (post_pure fun hlt => ?_))
    have hgap := ht.gap (e := false) (hlt.trans_le (next_take_le hsuffix)) false
    obtain ⟨r', j, hname', hj, hahead, hbetween⟩ := hgap.name hname
    obtain rfl : k = j := Nat.succ_injective hj
    refine ⟨r', takes_of_name hname', ?_⟩
    show m.Ahead k (c.take c.next r).rest r' ∧ m.Between c.next (c.take c.next r).rest _ r'
    rw [hrest]
    exact ⟨hahead, hbetween⟩
  · exact post_failLast

lemma follows_name : m.Follows (k + 1) k name name Eq := by
  refine fun c t' ht => (post_name_ahead ht).mono fun n d _ h hlt => ?_
  obtain ⟨r', htakes, hahead, -⟩ := h hlt
  exact ⟨n, r', htakes, rfl, hahead⟩

lemma follows_optionalName : m.Follows k k optionalName optionalName Eq := by
  refine follows_next.bind (fun t t' ht => ?_) fun _ =>
    steady_ite (steady_name.bind fun _ => steady_pure _) (steady_pure _)
  have hname : (name? t).isSome = true ↔ (name? t').isSome = true := by
    cases hn : name? t with
    | none => rw [ht.noName hn]
    | some p =>
      obtain ⟨r', j, hn', -⟩ := ht.name (n := p.1) (r := p.2) hn
      rw [hn']
      exact Iff.rfl
  refine follows_ite hname ?_ (follows_pure rfl)
  have htaken : m.Follows k k name name Eq :=
    follows_name.mono (Nat.le_succ k) (Nat.le_refl k) fun _ _ => id
  exact htaken.bind (fun n n' hn => follows_pure (congrArg some hn)) fun _ => steady_pure _

lemma takes_eatWord_of {w : String} {t n r : List Char}
    (h : name? (skipGap .blank false t).1 = some (n, r)) :
    if n = w.toList then Takes (eatWord w) t true r else Takes (eatWord w) t false t := by
  split
  · next hn =>
    refine takes_next.bind ?_
    rw [h]
    simp only [hn, if_true]
    exact (takes_take (skipGap_suffix _ _ _) (name?_lt h).1).bind takes_pure
  · next hn =>
    refine takes_next.bind ?_
    rw [h]
    simp only [hn, if_false]
    exact takes_pure

lemma follows_eatWord (w : String) : m.Follows k k (eatWord w) (eatWord w) Eq := by
  intro c t' ht
  have hgap (hlt : m.rest.length < c.next.length) := ht.gap (e := false) hlt false
  cases hname : name? c.next with
  | none =>
    refine post_of_takes (takes_eatWord_not hname) fun d hd hlt => ?_
    rw [Cursor.next, hd] at hlt
    exact ⟨false, t', takes_eatWord_not ((hgap hlt).noName hname), rfl, hd ▸ ht⟩
  | some p =>
    obtain ⟨n, r⟩ := p
    have htakes := takes_eatWord_of (w := w) hname
    have hle : (skipGap .blank false r).1.length ≤ c.next.length :=
      (skipGap_suffix _ _ _).length_le.trans (name?_lt hname).1.length_le
    split at htakes
    · next hw =>
      refine post_of_takes htakes fun d hd hlt => ?_
      rw [Cursor.next, hd] at hlt
      obtain ⟨r', j, hname', rfl, hahead, -⟩ := (hgap (hlt.trans_le hle)).name hname
      have htakes' := takes_eatWord_of (w := w) hname'
      rw [if_pos hw] at htakes'
      exact ⟨true, r', htakes', rfl, hd ▸ hahead.mono (Nat.le_succ j)⟩
    · next hw =>
      refine post_of_takes htakes fun d hd hlt => ?_
      rw [Cursor.next, hd] at hlt
      obtain ⟨r', j, hname', -⟩ := (hgap hlt).name hname
      have htakes' := takes_eatWord_of (w := w) hname'
      rw [if_neg hw] at htakes'
      exact ⟨false, t', htakes', rfl, hd ▸ ht⟩

lemma follows_expectWord (w : String) : m.Follows k k (expectWord w) (expectWord w) Eq := by
  refine (follows_eatWord w).bind (fun b b' hb => ?_) fun _ => steady_ite (steady_pure _) steady_failLast
  subst hb
  exact follows_ite Iff.rfl (follows_pure rfl) follows_failLast

/-- There is always something to come. -/
lemma Ahead.ne_nil (h : m.Ahead k t t') : t ≠ [] := by
  obtain ⟨-, -, -, -, -⟩ := h
  rw [signs_append]
  exact List.append_ne_nil_of_right_ne_nil _ (List.cons_ne_nil _ _)

lemma follows_comma {close : Char} (hclose : isBlank close = false) :
    m.Follows k k (comma close) (comma close) Eq := by
  rw [comma_eq]
  refine (follows_eat rfl (by decide)).bind (fun b b' hb => ?_) fun _ =>
    steady_ite (steady_pure _) (steady_listEnd close)
  subst hb
  refine follows_ite Iff.rfl (follows_pure rfl) (follows_next.bind (fun t t' ht => ?_) fun t => ?_)
  · split
    · next c r =>
      by_cases hc : c = close
      · obtain ⟨r', rfl⟩ := List.head?_eq_some_iff.1 ((ht.head (hc ▸ hclose)).1 rfl)
        rw [if_pos hc]
        dsimp only
        rw [if_pos hc]
        exact follows_pure rfl
      · rw [if_neg hc]
        exact follows_failNext
    · exact absurd rfl ht.ne_nil
  · split
    · exact steady_ite (steady_pure _) steady_failNext
    · exact steady_pure _

lemma follows_bracketed {s : String} {d : Char} (hs : s.toList = [d]) (hd : isBlank d = false)
    (hp : m.Follows k k' p p' R) (hsteady : Steady p) :
    m.Follows k k' (bracketed s p) (bracketed s p') R := by
  intro c t' ht
  refine post_bind (post_cursor (post_bind fun u e hu => post_inBracket fun a g hag hlt => ?_))
  obtain ⟨_, r', hopen, -, hr⟩ := follows_expect hs hd c t' ht u e hu (hlt.trans_le (hsteady e a g hag))
  obtain ⟨a', s', hinner, ha, hs'⟩ := hp e r' hr a g hag hlt
  refine ⟨a', s', fun c' hc' => ?_, ha, hs'⟩
  exact (hopen.bind (takes_inBracket (n := c'.lately.length) hinner)) c' hc'

end

end TwoPlaces

end Mender.Script
