import Mathlib.Tactic.FinCases
import Mender.Proofs.Json.Shape
import Mender.Reply.Escapes

/-!
The defects that mending is for.

A text is marred by line ends and tabs that stand in its strings as they are, by backslashes
that start no escape, by curly quotes around strings, and by a comma behind the last part of a
list or an object. A marred string literal is mended into a literal of the same string: the
reading of strings and the pass go through it side by side.
-/

namespace Mender.Reply

open Json

def curlyDoubles : List Char := ['\u201C', '\u201D', '\u201E', '\u201F']

def curlyQuotes : List Char := curlyDoubles ++ ['\u2018', '\u2019']

/-- The text has no curly quote. -/
def Straight (t : List Char) : Prop := ∀ c ∈ t, c ∉ curlyQuotes

-- by a walk through the text, not through all characters there are
instance : DecidablePred Straight := fun t => List.decidableBAll _ t

/-- The escapes of the characters that may come to stand in a string as they are. -/
def lineEscapes : List (Char × List Char) :=
  [('\n', ['\\', 'n']), ('\n', ['\\', 'u', '0', '0', '0', 'a']),
    ('\n', ['\\', 'u', '0', '0', '0', 'A']), ('\r', ['\\', 'r']),
    ('\r', ['\\', 'u', '0', '0', '0', 'd']), ('\r', ['\\', 'u', '0', '0', '0', 'D']),
    ('\t', ['\\', 't']), ('\t', ['\\', 'u', '0', '0', '0', '9'])]

/-- What a character of a literal, or an escape, comes to be. -/
inductive Drawn : List Char → List Char → Prop
  | plain {c} (hquote : c ≠ '"') (hback : c ≠ '\\') : Drawn [c] [c]
  | escape (c) : Drawn ['\\', c] ['\\', c]
  | raw {p} (hp : p ∈ lineEscapes) : Drawn p.2 [p.1]
  | stray {e c} (hc : isEscape c = false) (h : Drawn e [c]) : Drawn e ['\\', c]

/-- A place in a JSON text; outside of strings, whether a value has just ended there. -/
inductive Place
  | inside
  | outside (ended : Bool)

/-- Whether a value has just ended behind `c`, which stands outside of strings. -/
def endsBehind (ended : Bool) (c : Char) : Bool :=
  if isSpace c then ended else !(c == ',' || c == ':' || c == '[' || c == '{')

/-- The text goes on with a closing bracket, blanks apart. -/
def Closes (t : List Char) : Prop := ∃ c ∈ (skipSpace t).head?, isCloser c = true

/-- From a place on, the second text is the first one with defects. -/
inductive Marred : Place → List Char → List Char → Prop
  | done {ended} : Marred (.outside ended) [] []
  | keep {ended c t t'} (hc : c ≠ '"') (h : Marred (.outside (endsBehind ended c)) t t') :
      Marred (.outside ended) (c :: t) (c :: t')
  | comma {b b' t t'} (hb : Spaces b) (hb' : Spaces b') (ht : Closes t)
      (h : Marred (.outside false) t t') :
      Marred (.outside true) t (b ++ ',' :: (b' ++ t'))
  | opening {ended q t t'} (hq : q ∈ '"' :: curlyDoubles) (h : Marred .inside t t') :
      Marred (.outside ended) ('"' :: t) (q :: t')
  | draw {e d t t'} (hd : Drawn e d) (h : Marred .inside t t') :
      Marred .inside (e ++ t) (d ++ t')
  | closing {q t t'} (hq : q ∈ '"' :: curlyDoubles) (h : Marred (.outside true) t t') :
      Marred .inside ('"' :: t) (q :: t')

/-! ### Curly quotes -/

lemma straighten_of_notMem {c : Char} (h : c ∉ curlyQuotes) : straighten c = c := by
  unfold straighten
  split
  case h_7 => rfl
  all_goals exact absurd (by decide) h

lemma straighten_quote {q : Char} (h : q ∈ '"' :: curlyDoubles) : straighten q = '"' := by
  have hall : (('"' :: curlyDoubles).all fun q => straighten q == '"') = true := by decide
  exact beq_iff_eq.1 (List.all_eq_true.1 hall q h)

lemma Straight.of_append {a b : List Char} (h : Straight (a ++ b)) : Straight a ∧ Straight b :=
  List.forall_mem_append.1 h

lemma Straight.append {a b : List Char} (ha : Straight a) (hb : Straight b) :
    Straight (a ++ b) := List.forall_mem_append.2 ⟨ha, hb⟩

lemma Straight.cons {c : Char} {t : List Char} (hc : c ∉ curlyQuotes) (ht : Straight t) :
    Straight (c :: t) := List.forall_mem_cons.2 ⟨hc, ht⟩

lemma Straight.of_cons {c : Char} {t : List Char} (h : Straight (c :: t)) :
    c ∉ curlyQuotes ∧ Straight t := List.forall_mem_cons.1 h

lemma Straight.map_straighten {t : List Char} (h : Straight t) : t.map straighten = t :=
  (List.map_congr_left fun c hc => straighten_of_notMem (h c hc)).trans (List.map_id t)

lemma Drawn.straight {e d : List Char} (h : Drawn e d) (he : Straight e) : Straight d := by
  induction h with
  | plain | escape => exact he
  | raw hp =>
    have hall : (lineEscapes.all fun p => p.1 ∉ curlyQuotes) = true := by decide
    exact List.forall_mem_singleton.2 (by simpa using List.all_eq_true.1 hall _ hp)
  | stray _ _ ih => exact List.forall_mem_cons.2 ⟨by decide, ih he⟩

/-! ### One step of the reading of a string -/

lemma hexValue?_curly {c : Char} (hc : c ∈ curlyQuotes) : hexValue? c = none := by
  have hall : (curlyQuotes.all fun c => (hexValue? c).isNone) = true := by decide
  exact Option.isNone_iff_eq_none.1 (List.all_eq_true.1 hall c hc)

lemma shortEscape?_curly {c : Char} (hc : c ∈ curlyQuotes) : shortEscape? c = none := by
  have hall : (curlyQuotes.all fun c => (shortEscape? c).isNone) = true := by decide
  exact Option.isNone_iff_eq_none.1 (List.all_eq_true.1 hall c hc)

/-- Behind `c` the reading goes on in the state `next`; `c` gives `p`. -/
structure StepsTo (state : StringState) (c : Char) (next : StringState) (p : List Char) :
    Prop where
  reads : ∀ t, stringTail state (c :: t) = (stringTail next t).map fun q => (p ++ q.1, q.2)
  escaped : next.escaped = true ↔ state.escaped = false ∧ c = '\\'
  curly : c ∈ curlyQuotes → p = [c]

lemma map_ok_iff {x : Reading (List Char)} {p cs r : List Char} :
    (x.map fun q => (p ++ q.1, q.2)) = .ok (cs, r) ↔ ∃ ds, x = .ok (ds, r) ∧ p ++ ds = cs := by
  constructor
  · intro h
    obtain ⟨q, hq, he⟩ := exists_of_map_eq_ok h
    cases he
    exact ⟨q.1, hq, rfl⟩
  · rintro ⟨ds, rfl, rfl⟩
    rfl

/-- Nothing read from one character leaves the reading of the rest as it is. -/
lemma map_nil_append (x : Reading (List Char)) : (x.map fun q => ([] ++ q.1, q.2)) = x := by
  cases x <;> rfl

lemma exists_stepsTo_plain {c : Char} {t cs r : List Char}
    (h : stringTail .plain (c :: t) = .ok (cs, r)) (hquote : c ≠ '"') :
    ∃ next p, StepsTo .plain c next p := by
  by_cases hback : c = '\\'
  · subst hback
    exact ⟨.escape, [], fun t => (map_nil_append _).symm, by decide,
      fun hc => absurd hc (by decide)⟩
  · have hlow : ¬ c.toNat < 32 := fun hlow => by
      simp [stringTail, hquote, hback, hlow, failHere] at h
    exact ⟨.plain, [c], fun t => by simp [stringTail, hquote, hback, hlow, stringTail.push],
      by simp [StringState.escaped, hback], fun _ => rfl⟩

lemma exists_stepsTo_escape {c : Char} {t cs r : List Char}
    (h : stringTail .escape (c :: t) = .ok (cs, r)) : ∃ next p, StepsTo .escape c next p := by
  by_cases hu : c = 'u'
  · subst hu
    exact ⟨.hex none 0 0, [], fun t => (map_nil_append _).symm, by decide,
      fun hc => absurd hc (by decide)⟩
  · cases hd : shortEscape? c with
    | none => simp [stringTail, hu, hd, failNext] at h
    | some d =>
      have hstraight : c ∉ curlyQuotes := fun hc => by
        rw [shortEscape?_curly hc] at hd
        cases hd
      exact ⟨.plain, [d], fun t => by simp [stringTail, hu, hd, stringTail.push],
        by simp [StringState.escaped], fun hc => absurd hc hstraight⟩

lemma exists_stepsTo_hex {lead : Option Nat} {seen value : Nat} {c : Char} {t cs r : List Char}
    (h : stringTail (.hex lead seen value) (c :: t) = .ok (cs, r)) :
    ∃ next p, StepsTo (.hex lead seen value) c next p := by
  cases hd : hexValue? c with
  | none =>
    simp only [stringTail, hd, failHex] at h
    split at h <;> cases h
  | some d =>
    have hback : c ≠ '\\' := (hexValue?_plain hd).2.1
    have hstraight : c ∉ curlyQuotes := fun hc => by
      rw [hexValue?_curly hc] at hd
      cases hd
    by_cases hseen : seen < 3
    · exact ⟨.hex lead (seen + 1) (value * 16 + d), [],
        fun t => by rw [map_nil_append]; simp [stringTail, hd, hseen],
        by simp [StringState.escaped, hback], fun hc => absurd hc hstraight⟩
    · cases hx : finishHex lead (value * 16 + d) with
      | error f => simp [stringTail, hd, hseen, hx, failHere] at h
      | ok q =>
        obtain ⟨next, e⟩ := q
        have hnext := finishHex_escaped hx
        -- The first half of a pair of surrogates gives no character yet.
        cases e with
        | none =>
          exact ⟨next, [], fun t => by rw [map_nil_append]; simp [stringTail, hd, hseen, hx],
            by simp [hnext, hback], fun hc => absurd hc hstraight⟩
        | some e =>
          exact ⟨next, [e], fun t => by simp [stringTail, hd, hseen, hx, stringTail.push],
            by simp [hnext, hback], fun hc => absurd hc hstraight⟩

/-- What is read from a character that does not close the string. -/
lemma exists_stepsTo {state : StringState} {c : Char} {t cs r : List Char}
    (h : stringTail state (c :: t) = .ok (cs, r)) (hc : state.escaped = true ∨ c ≠ '"') :
    ∃ next p, StepsTo state c next p := by
  cases state with
  | plain => exact exists_stepsTo_plain h (hc.resolve_left (by decide))
  | escape => exact exists_stepsTo_escape h
  | hex => exact exists_stepsTo_hex h
  | pairBackslash lead =>
    have hback : c = '\\' := by
      by_contra hback
      simp [stringTail, hback, failNext] at h
    subst hback
    exact ⟨.pairU lead, [], fun t => (map_nil_append _).symm, by simp [StringState.escaped],
      fun hc => absurd hc (by decide)⟩
  | pairU lead =>
    have hu : c = 'u' := by
      by_contra hu
      simp [stringTail, hu, failNext] at h
    subst hu
    exact ⟨.hex (some lead) 0 0, [], fun t => (map_nil_append _).symm,
      by simp [StringState.escaped], fun hc => absurd hc (by decide)⟩

/-- A quote that belongs to no escape closes the string. -/
lemma closes_of_stringTail {state : StringState} {t cs r : List Char}
    (h : stringTail state ('"' :: t) = .ok (cs, r)) (hs : state.escaped = false) :
    state = .plain ∧ cs = [] ∧ r = t := by
  cases state with
  | plain =>
    cases h
    exact ⟨rfl, rfl, rfl⟩
  | escape | pairU => cases hs
  | hex =>
    have hd : hexValue? '"' = none := rfl
    simp only [stringTail, hd, failHex] at h
    split at h <;> cases h
  | pairBackslash => cases h

/-! ### Mending a literal -/

/-- Mending puts `m` where `d` stands in a string. -/
def MendsTo (d m : List Char) : Prop :=
  ∀ t, mendFrom true (d ++ t) = mendFrom.put m (mendFrom true t)

lemma mendsTo_plain {c : Char} (hquote : c ≠ '"') (hback : c ≠ '\\') (hlow : ¬ c.toNat < 32) :
    MendsTo [c] [c] := by
  have hne {d : Char} (hd : d.toNat < 32) : c ≠ d := fun he => hlow (he ▸ hd)
  intro t
  simp [mendFrom, hquote, hback, hne (show '\n'.toNat < 32 by decide),
    hne (show '\r'.toNat < 32 by decide), hne (show '\t'.toNat < 32 by decide)]

lemma mendsTo_escape {c : Char} (hc : isEscape c = true) : MendsTo ['\\', c] ['\\', c] := by
  intro t
  simp [mendFrom, hc]

lemma MendsTo.stray {c : Char} {m : List Char} (h : MendsTo [c] m) (hc : isEscape c = false) :
    MendsTo ['\\', c] m := by
  intro t
  rw [← h t]
  simp [mendFrom, hc]

/-- A reading in `state` goes on in `next` behind `e`, and behind `m` as well. -/
structure Exchanges (state : StringState) (e m : List Char) (next : StringState)
    (p : List Char) : Prop where
  before : ∀ t, stringTail state (e ++ t) = (stringTail next t).map fun q => (p ++ q.1, q.2)
  after : ∀ t, stringTail state (m ++ t) = (stringTail next t).map fun q => (p ++ q.1, q.2)
  escaped : next.escaped = false

lemma visible_of_stringTail {state : StringState} {c : Char} {t cs r : List Char}
    (h : stringTail state (c :: t) = .ok (cs, r)) : ¬ c.toNat < 32 := by
  obtain ⟨u, hu, hl, -⟩ := reads_stringTail h
  have hne : u ≠ [] := by
    rintro rfl
    generalize state.escaped = escaped at hl
    cases hl
  obtain ⟨d, u, rfl⟩ := List.exists_cons_of_ne_nil hne
  exact (List.cons.inj hu).1 ▸ hl.visible d List.mem_cons_self

lemma isEscape_of_stringTail {state : StringState} {c : Char} {t cs r : List Char}
    (hs : state.escaped = true) (h : stringTail state (c :: t) = .ok (cs, r)) :
    isEscape c = true := by
  cases state with
  | plain | hex | pairBackslash => cases hs
  | escape =>
    by_contra hc
    simp only [isEscape, Bool.not_eq_true, Bool.or_eq_false_iff, beq_eq_false_iff_ne] at hc
    have hnone : shortEscape? c = none := by
      unfold shortEscape?
      split <;> simp_all
    simp [stringTail, hc, hnone, failNext] at h
  | pairU =>
    by_contra hc
    have hu : c ≠ 'u' := by
      rintro rfl
      exact hc rfl
    simp [stringTail, hu, failNext] at h

lemma stringTail_lineEscape {p : Char × List Char} (hp : p ∈ lineEscapes) (t : List Char) :
    stringTail .plain (p.2 ++ t) = stringTail.push p.1 (stringTail .plain t) := by
  fin_cases hp <;> rfl

/-- A line end or a tab is mended into one of its escapes. -/
lemma exists_mendsTo_raw {p : Char × List Char} (hp : p ∈ lineEscapes) :
    ∃ m, (p.1, m) ∈ lineEscapes ∧ MendsTo [p.1] m := by
  fin_cases hp
  all_goals first
    | exact ⟨['\\', 'n'], by decide, fun _ => rfl⟩
    | exact ⟨['\\', 'r'], by decide, fun _ => rfl⟩
    | exact ⟨['\\', 't'], by decide, fun _ => rfl⟩

/-- Only a reading that is in no escape takes one of a line end or a tab. -/
lemma eq_plain_of_lineEscape {state : StringState} {p : Char × List Char} {t cs r : List Char}
    (hs : state.escaped = false) (hp : p ∈ lineEscapes)
    (h : stringTail state (p.2 ++ t) = .ok (cs, r)) : state = .plain := by
  cases state with
  | plain => rfl
  | escape | pairU => cases hs
  | hex =>
    have hback : ∃ e, p.2 = '\\' :: e := by fin_cases hp <;> exact ⟨_, rfl⟩
    obtain ⟨e, he⟩ := hback
    have hd : hexValue? '\\' = none := rfl
    simp only [he, List.cons_append, stringTail, hd, failHex] at h
    split at h <;> cases h
  | pairBackslash => fin_cases hp <;> cases h

/-- What a drawn character is mended into is read as the character was. -/
lemma Drawn.exists_exchanges {state : StringState} {e d t cs r : List Char} (hd : Drawn e d)
    (he : Straight e) (hs : state.escaped = false)
    (h : stringTail state (e ++ t) = .ok (cs, r)) :
    ∃ m next p, Exchanges state e m next p ∧ MendsTo d m := by
  induction hd with
  | @plain c hquote hback =>
    obtain ⟨next, p, hstep⟩ := exists_stepsTo h (.inr hquote)
    refine ⟨[c], next, p, ⟨hstep.reads, hstep.reads, ?_⟩,
      mendsTo_plain hquote hback (visible_of_stringTail h)⟩
    rw [← Bool.not_eq_true, hstep.escaped]
    exact fun hc => hback hc.2
  | escape c =>
    obtain ⟨next, p, hstep⟩ := exists_stepsTo h (.inr (by decide))
    have hnext : next.escaped = true := hstep.escaped.2 ⟨hs, rfl⟩
    obtain ⟨ds, hds, -⟩ := map_ok_iff.1 ((hstep.reads _).symm.trans h)
    obtain ⟨next', p', hstep'⟩ := exists_stepsTo hds (.inl hnext)
    have hreads (t : List Char) : stringTail state (['\\', c] ++ t) =
        (stringTail next' t).map fun q => (p ++ p' ++ q.1, q.2) := by
      rw [List.cons_append, hstep.reads, List.singleton_append, hstep'.reads]
      cases stringTail next' t with
      | error => rfl
      | ok q => simp [Except.map]
    refine ⟨['\\', c], next', p ++ p', ⟨hreads, hreads, ?_⟩,
      mendsTo_escape (isEscape_of_stringTail hnext hds)⟩
    rw [← Bool.not_eq_true, hstep'.escaped, hnext]
    exact fun hc => absurd hc.1 (by decide)
  | @raw p hp =>
    obtain rfl := eq_plain_of_lineEscape hs hp h
    obtain ⟨m, hm, hmends⟩ := exists_mendsTo_raw hp
    exact ⟨m, .plain, [p.1], ⟨stringTail_lineEscape hp, stringTail_lineEscape hm, rfl⟩, hmends⟩
  | stray hc _ ih =>
    obtain ⟨m, next, p, hm, hmends⟩ := ih he h
    exact ⟨m, next, p, hm, hmends.stray hc⟩

/-- **A marred literal is mended into a literal that is read the same**, up to its closing
quote. -/
theorem Marred.exists_mended {t t' : List Char} (h : Marred .inside t t') (ht : Straight t)
    {state : StringState} (hs : state.escaped = false) {cs r : List Char}
    (hr : stringTail state t = .ok (cs, r)) :
    ∃ m r', Marred (.outside true) r r' ∧
      mendFrom true (t'.map straighten) = mendFrom.put m (mendFrom false (r'.map straighten)) ∧
      ∀ x, stringTail state (m ++ x) = .ok (cs, x) := by
  generalize hplace : Place.inside = place at h
  induction h generalizing state cs with
  | done | keep | comma | opening => cases hplace
  | @draw e d t t' hd h ih =>
    obtain ⟨he, ht⟩ := ht.of_append
    obtain ⟨m, next, p, hm, hmends⟩ := hd.exists_exchanges he hs hr
    obtain ⟨ds, hds, rfl⟩ := map_ok_iff.1 ((hm.before t).symm.trans hr)
    obtain ⟨m', r', hr', hmend, hread⟩ := ih ht hm.escaped hds rfl
    refine ⟨m ++ m', r', hr', ?_, fun x => ?_⟩
    · rw [List.map_append, (hd.straight he).map_straighten, hmends, hmend, mendFrom.put,
        mendFrom.put, mendFrom.put, List.append_assoc]
    · rw [List.append_assoc, hm.after, hread]
      rfl
  | @closing q t t' hq h =>
    obtain ⟨rfl, rfl, rfl⟩ := closes_of_stringTail hr hs
    refine ⟨['"'], t', h, ?_, fun x => rfl⟩
    rw [List.map_cons, straighten_quote hq]
    rfl

/-- The same of a string with its opening quote. -/
theorem Marred.exists_quoted {ended : Bool} {s : String} {u r t' : List Char} (hu : Quoted s u)
    (ht : Straight (u ++ r)) (h : Marred (.outside ended) ('"' :: (u ++ r)) t') :
    ∃ m r', Quoted s m ∧ Marred (.outside true) r r' ∧ mendFrom false (t'.map straighten) =
      mendFrom.put ('"' :: m) (mendFrom false (r'.map straighten)) := by
  cases h with
  | keep hc => exact absurd rfl hc
  | comma _ _ hcloses =>
    obtain ⟨c, hc, hcloser⟩ := hcloses
    rw [skipSpace_cons (by decide), List.head?_cons, Option.mem_some] at hc
    subst hc
    cases hcloser
  | @opening _ q _ t' hq h =>
    obtain ⟨p, hp, he⟩ := exists_of_map_eq_ok (hu.reads r)
    cases he
    obtain ⟨m, r', hr', hmend, hread⟩ := h.exists_mended ht rfl hp
    have hm : string (m ++ []) = .ok (String.ofList p.1, []) := by
      rw [string, hread]
      rfl
    obtain ⟨w, hw, hquoted⟩ := Json.exists_quoted hm
    rw [List.append_nil, List.append_nil] at hw
    refine ⟨m, r', hw ▸ hquoted, hr', ?_⟩
    rw [List.map_cons, straighten_quote hq]
    exact congrArg (mendFrom.put ['"']) hmend

end Mender.Reply
