import Mender.Proofs.Script.SameImport
import Mender.Proofs.Script.Starts
import Mender.Proofs.Text.Search

/-!
An import is read the same wherever its text stands.

Of two imports whose texts are alike up to the module of the first one, the second one says what the
first one does, whatever stands behind them. A word that may mark an import makes the grammar look two
words ahead, but no import ends before it has taken those words.
-/

namespace Mender.Script

open Mender.Text Reader TwoPlaces

variable {m : TwoPlaces} {k : Nat} {t t' r : List Char} {go go' : Rules}

/-! ### Words that mark an import -/

/-- Whether the word in front marks an import of types, from what comes behind it. -/
def marksFrom (r : List Char) : Bool :=
  match r with
  | ',' :: _ | '=' :: _ => false
  | _ => if firstWord r = "from" then (string? (past r).1).isNone else true

lemma marksFrom_eq {r : List Char} (hcomma : ∀ s, r ≠ ',' :: s) (hequals : ∀ s, r ≠ '=' :: s) :
    marksFrom r = if firstWord r = "from" then (string? (past r).1).isNone else true := by
  unfold marksFrom
  split
  · next s => exact absurd rfl (hcomma s)
  · next s => exact absurd rfl (hequals s)
  · rfl

/-- Whether the next word marks an import of types. -/
def marked (t : List Char) : Bool :=
  (wordOf t == "type" || wordOf t == "typeof") && marksFrom (past t).1

lemma past_skipGap (t : List Char) : past (skipGap .blank false t).1 = past t := by
  rw [past, past, skipGap_skipGap]

/-- What comes behind the next two words. -/
lemma takes_lookPast_two {n r : List Char} (h : name? (skipGap .blank false t).1 = some (n, r))
    (h' : name? (past t).1 ≠ none) :
    Takes (lookPast (do let _ ← name; let _ ← name)) t (some (past (past t).1)) t := by
  have hpast : (past t).1 = (skipGap .blank false r).1 := by
    rw [past, h]
    rfl
  rw [hpast] at h' ⊢
  obtain ⟨⟨n', r'⟩, hname⟩ := Option.ne_none_iff_exists'.1 h'
  have hbehind : past (skipGap .blank false r).1 = skipGap .blank false r' := by
    rw [past_skipGap, past, hname]
    rfl
  rw [hbehind]
  exact takes_lookPast ((takes_of_name h).bind ((takes_of_name hname).bind takes_pure))

lemma looks_marksTypes : Looks marksTypes marked := by
  intro t
  refine (looks_nextWord t).bind ?_
  unfold marked
  dsimp only
  split
  · next hw =>
    rw [hw, Bool.true_and]
    refine (looks_pastWord t).bind ?_
    have hname : name? (skipGap .blank false t).1 ≠ none := fun hnone => by
      rw [wordOf_eq_empty hnone] at hw
      exact absurd hw (by decide)
    obtain ⟨⟨n, r⟩, hn⟩ := Option.ne_none_iff_exists'.1 hname
    have htwo := takes_lookPast_two hn
    generalize (past t).1 = r at htwo ⊢
    split
    · exact takes_pure
    · exact takes_pure
    · next hcomma hequals =>
      rw [marksFrom_eq hcomma hequals]
      split
      · next hfrom =>
        have hnext : name? r ≠ none := fun hnone => by
          rw [firstWord, hnone] at hfrom
          exact absurd hfrom (by decide)
        exact (htwo hnext).bind takes_pure
      · exact takes_pure
  · next hw =>
    rw [Bool.eq_false_iff.2 hw, Bool.false_and]
    exact takes_pure

/-- An import behind what tells whether its first word marks it. -/
def behindMark (go : Rules) (mark : Bool) (w : String) : Reader Form := do
  if mark then
    let _ ← name
  importClause go (mark && w == "type")

lemma comes_importStatement (h : (string? (skipGap .blank false t).1).isSome = false) :
    Comes (importStatement go) t (behindMark go (marked t) (wordOf t)) t := by
  refine takes_next.comes.trans ?_
  rw [if_neg (Bool.eq_false_iff.1 h)]
  exact (looks_marksTypes t).comes.trans (looks_nextWord t).comes

lemma comes_importStatement_literal (h : (string? (skipGap .blank false t).1).isSome = true) :
    Comes (importStatement go) t (fromModule go { typeOnly := false, source := none }) t := by
  refine takes_next.comes.trans ?_
  rw [if_pos h]
  exact fun c hc => ⟨c, rfl, hc⟩

/-! ### Whole imports -/

/-- The module of an import is not behind the next lexeme but one, if that is a word. -/
def ReachesPast (f : Reader Form) : Prop :=
  ∀ c : Cursor, name? c.next ≠ none → f.Post c fun a _ => ∀ i p, a = .imports i → i.source = some p →
    p.extent.last < (past c.rest).1.length

lemma reachesPast_name {f : Reader Form} (hf : Reaches f) : ReachesPast (name >>= fun _ => f) :=
  fun c _ => post_bind ((post_name_past c).mono fun _ d _ hd => hd ▸ hf d)

lemma post_optionalName_past {c : Cursor} (hc : name? c.next ≠ none) :
    optionalName.Post c fun first d => first.isSome = true ∧ d.next = (past c.rest).1 := by
  have hsome : (name? (skipGap .blank false c.rest).1).isSome = true := Option.isSome_iff_ne_none.2 hc
  refine post_bind (post_next ?_)
  rw [if_pos hsome]
  exact post_bind ((post_name_past c).mono fun _ _ _ hd => post_pure ⟨rfl, hd⟩)

lemma post_expectWord_past (w : String) (c : Cursor) :
    (expectWord w).Post c fun _ d => d.next = (past c.rest).1 := by
  refine post_bind (post_bind (post_next ?_))
  split
  · next n r hname =>
    split
    · refine post_bind (post_take (post_pure (post_pure ?_)))
      have hrest : (c.take c.next r).rest = r := rest_take c.next_suffix (name?_lt hname).1
      show (c.take c.next r).next = _
      rw [past, hname, Cursor.next, hrest]
      rfl
    · exact post_pure post_failLast
  · exact post_pure post_failLast

/-- A sign is not taken where a word comes next. -/
lemma takes_eat_word {s w : String} (hw : wordOf t = w) (hs : after? s.toList w.toList = none)
    (hne : s.toList.length ≤ w.toList.length) : Takes (eat s) t false t := by
  refine takes_eat_not ?_
  rw [after?_eq_none_iff] at hs ⊢
  exact fun hp => hs (List.prefix_of_prefix_length_le hp (prefix_of_firstWord hw) hne)

section

variable (hgo : Steady (go .importNames))

include hgo

lemma reachesPast_importClause (typeOnly : Bool) : ReachesPast (importClause go typeOnly) :=
  fun _ hc => post_bind ((post_optionalName_past hc).mono fun first d _ hd =>
    hd.2 ▸ reaches_behindFirst hgo typeOnly first d)

lemma reaches_behindMark (mark : Bool) (w : String) : Reaches (behindMark go mark w) := by
  unfold behindMark
  dsimp only
  split
  · exact .bind steady_name fun _ => reaches_importClause hgo _
  · exact reaches_importClause hgo _

lemma reachesPast_behindMark (mark : Bool) (w : String) : ReachesPast (behindMark go mark w) := by
  unfold behindMark
  dsimp only
  split
  · exact reachesPast_name (reaches_importClause hgo _)
  · exact reachesPast_importClause hgo _

omit hgo in
/-- A default without a comma behind it is followed by the word `from`. -/
lemma post_behindFirst_from (typeOnly : Bool) {first : Option String} (hfirst : first.isSome = true)
    {c : Cursor} (hfrom : wordOf c.rest = "from") : (behindFirst go typeOnly first).Post c fun a _ =>
      ∀ i p, a = .imports i → i.source = some p → p.extent.last < (past c.rest).1.length := by
  refine post_bind (post_of_takes (takes_eat_word hfrom (by decide) (by decide)) fun d hd => ?_)
  rw [Bool.and_false, if_neg Bool.false_ne_true]
  unfold behindDefault
  rw [if_pos hfirst]
  refine post_bind (post_of_takes (takes_eat_word (hd ▸ hfrom) (by decide) (by decide)) fun e he => ?_)
  dsimp only
  rw [if_neg Bool.false_ne_true]
  refine post_bind ((post_expectWord_past "from" e).mono fun _ g _ hg => ?_)
  rw [← hd, ← he, ← hg]
  exact reaches_fromModule _ g

/-- Where the word `from` comes second, it is taken too. -/
lemma post_behindMark_from (mark : Bool) (w : String) {c : Cursor} (hc : name? c.next ≠ none)
    (hfrom : firstWord (past c.rest).1 = "from") : (behindMark go mark w).Post c fun a _ =>
      ∀ i p, a = .imports i → i.source = some p → p.extent.last < (past (past c.rest).1).1.length := by
  have hname : name? (past c.rest).1 ≠ none := fun hnone => by
    rw [firstWord, hnone] at hfrom
    exact absurd hfrom (by decide)
  have hpast {d : Cursor} (hd : d.next = (past c.rest).1) : past d.rest = past (past c.rest).1 := by
    rw [← hd, Cursor.next, past_skipGap]
  unfold behindMark
  dsimp only
  split
  · refine post_bind ((post_name_past c).mono fun _ d _ hd => ?_)
    rw [← hpast hd]
    exact reachesPast_importClause hgo _ d (hd ▸ hname)
  · refine post_bind ((post_optionalName_past hc).mono fun first d _ hd => ?_)
    rw [← hpast hd.2]
    exact post_behindFirst_from _ hd.1 (by rw [wordOf, show (skipGap .blank false d.rest).1 = _ from hd.2, hfrom])

end

lemma marksFrom_alike {r' : List Char} (h : m.Ahead k r r')
    (hfrom : firstWord r = "from" → m.rest.length < (past r).1.length) : marksFrom r' = marksFrom r := by
  have hsign {d : Char} (hd : isBlank d = false) : (∃ s, r = d :: s) ↔ ∃ s, r' = d :: s := by
    rw [← List.head?_eq_some_iff, ← List.head?_eq_some_iff]
    exact h.head hd
  have hsigns := or_congr (hsign (d := ',') (by decide)) (hsign (d := '=') (by decide))
  by_cases hstops : (∃ s, r = ',' :: s) ∨ ∃ s, r = '=' :: s
  · have hfalse {r : List Char} (hr : (∃ s, r = ',' :: s) ∨ ∃ s, r = '=' :: s) : marksFrom r = false := by
      rcases hr with ⟨s, rfl⟩ | ⟨s, rfl⟩ <;> rfl
    rw [hfalse hstops, hfalse (hsigns.1 hstops)]
  · have hstops' := mt hsigns.2 hstops
    rw [not_or, not_exists, not_exists] at hstops hstops'
    rw [marksFrom_eq hstops.1 hstops.2, marksFrom_eq hstops'.1 hstops'.2, h.firstWord]
    split
    · next hf =>
      have hstring := (h.past (hfrom hf)).string?
      rw [← Option.not_isSome, ← Option.not_isSome, hstring]
    · rfl

/-- Whether an import of types is marked is the same in both scripts. -/
lemma marked_alike (h : m.Ahead k t t') (hnext : m.rest.length < (skipGap .blank false t).1.length)
    (hpast : name? (skipGap .blank false t).1 ≠ none → m.rest.length < (past t).1.length)
    (hfrom : name? (skipGap .blank false t).1 ≠ none → firstWord (past t).1 = "from" →
      m.rest.length < (past (past t).1).1.length) : marked t' = marked t := by
  have hword : wordOf t' = wordOf t := (h.gap hnext false).firstWord
  rw [marked, marked, hword]
  by_cases hname : name? (skipGap .blank false t).1 = none
  · rw [wordOf_eq_empty hname]
    rfl
  · rw [marksFrom_alike (h.past (hpast hname)) (hfrom hname)]

section

variable (hgo : Steady (go .importNames))
  (hnames : m.Follows k k (go .importNames) (go' .importNames) (List.Forall₂ m.SameName))

include hgo hnames

lemma ends_behindMark (mark : Bool) (w : String) :
    m.Ends k (behindMark go mark w) go' (behindMark go' mark w) := by
  unfold behindMark
  dsimp only
  split
  · exact follows_name_within.ends (fun _ _ _ => ends_importClause hgo hnames _) fun _ =>
      reaches_importClause hgo _
  · exact ends_importClause hgo hnames _

/-- **An import behind its first word** says the same in both scripts. -/
lemma ends_importStatement : m.Ends k (importStatement go) go' (importStatement go') := by
  intro c t' ht
  have hstring (hlt : m.rest.length < c.next.length) :
      (string? (skipGap .blank false t').1).isSome = (string? c.next).isSome :=
    (ht.gap hlt false).string?
  cases h : (string? c.next).isSome with
  | true =>
    refine post_of_comes (comes_importStatement_literal h) fun d hd a e hread i p hi hp hlast => ?_
    have hlt := reaches_fromModule _ d a e hread i p hi hp
    rw [hlast, Cursor.next, hd] at hlt
    have hends : m.Ends k (fromModule go { typeOnly := false, source := none }) go'
        (fromModule go' { typeOnly := false, source := none }) :=
      ends_fromModule ⟨rfl, rfl, rfl, .nil, .none⟩
    obtain ⟨i', q, hsame, hcomes⟩ := hends d t' (hd ▸ ht) a e hread i p hi hp hlast
    exact ⟨i', q, hsame, (comes_importStatement_literal ((hstring hlt).trans h)).trans hcomes⟩
  | false =>
    refine post_of_comes (comes_importStatement h) fun d hd a e hread i p hi hp hlast => ?_
    have hlt := reaches_behindMark hgo _ _ d a e hread i p hi hp
    rw [hlast, Cursor.next, hd] at hlt
    have hmarked : marked t' = marked c.rest := by
      refine marked_alike ht hlt (fun hname => ?_) fun hname hfrom => ?_
      · rw [← hlast, ← hd]
        exact reachesPast_behindMark hgo _ _ d (by rwa [Cursor.next, hd]) a e hread i p hi hp
      · rw [← hlast, ← hd]
        exact post_behindMark_from hgo _ _ (by rwa [Cursor.next, hd]) (by rwa [hd]) a e hread i p hi hp
    have hword : wordOf t' = wordOf c.rest := (ht.gap hlt false).firstWord
    obtain ⟨i', q, hsame, hcomes⟩ := ends_behindMark hgo hnames _ _ d t' (hd ▸ ht) a e hread i p hi hp hlast
    rw [← hmarked, ← hword] at hcomes
    exact ⟨i', q, hsame, (comes_importStatement ((hstring hlt).trans h)).trans hcomes⟩

end

/-! ### Statements -/

/-- A statement is an import that starts with its word, or it is none. -/
lemma post_statement_word {c : Cursor} {Q : Form → Cursor → Prop} (hno : ∀ f d, NoImport f → Q f d)
    (himport : wordOf c.rest = "import" → OpensImport (past c.rest).1 → ∀ d : Cursor, d.rest = c.rest →
      (importFromWord go).Post d Q) : (statementRule go).Post c Q := by
  refine post_statement_ahead hno (post_of_takes (looks_nextWord c.rest) fun d hd => ?_)
  refine post_of_takes (looks_pastWord d.rest) fun e he hword hopens => ?_
  rw [hd] at he hopens
  exact himport hword hopens e he

lemma comes_statementRule (hword : wordOf t = "import") (hpast : OpensImport (past t).1) :
    Comes (statementRule go) t (importFromWord go) t := by
  obtain ⟨r, hr⟩ := prefix_of_firstWord hword
  have hnext : (skipGap .blank false t).1 = 'i' :: ("mport".toList ++ r) := hr.symm
  refine takes_next.comes.trans ?_
  rw [hnext]
  refine (looks_nextWord t).comes.trans ((looks_pastWord t).comes.trans ?_)
  dsimp only
  rw [if_pos ⟨hword, hpast⟩]
  exact fun c hc => ⟨c, rfl, hc⟩

section

variable (hgo : Steady (go .importNames))

include hgo

lemma reaches_importStatement : Reaches (importStatement go) := by
  intro c
  have hnext {d : Cursor} (hd : d.rest = c.rest) : d.next = c.next := by
    rw [Cursor.next, Cursor.next, hd]
  cases h : (string? c.next).isSome with
  | true =>
    refine post_of_comes (comes_importStatement_literal h) fun d hd => ?_
    exact hnext hd ▸ reaches_fromModule _ d
  | false =>
    refine post_of_comes (comes_importStatement h) fun d hd => ?_
    exact hnext hd ▸ reaches_behindMark hgo _ _ d

lemma ends_statementRule
    (hnames : m.Follows k k (go .importNames) (go' .importNames) (List.Forall₂ m.SameName)) :
    m.Ends k (statementRule go) go' (statementRule go') := by
  intro c t' ht
  refine post_statement_word (fun f _ hf i p hi => absurd hi (hf i)) fun hword hopens d hd => ?_
  intro a e hread i p hi hp hlast
  have hname : name? d.next ≠ none := fun hnone => by
    rw [Cursor.next, hd] at hnone
    rw [wordOf_eq_empty hnone] at hword
    exact absurd hword (by decide)
  have hpast := reachesPast_name (reaches_importStatement hgo) d hname a e hread i p hi hp
  rw [hlast, hd] at hpast
  have hahead := ht.past hpast
  have hnext := hpast.trans_le (past_length_le c)
  have hword' : wordOf t' = "import" := ((ht.gap hnext false).firstWord).trans hword
  have hopens' : OpensImport (past t').1 :=
    ⟨mt (hahead.head (by decide)).2 hopens.1, mt (hahead.head (by decide)).2 hopens.2⟩
  have hends : m.Ends k (importFromWord go) go' (importFromWord go') :=
    follows_name_within.ends (fun _ _ _ => ends_importStatement hgo hnames) fun _ =>
      reaches_importStatement hgo
  obtain ⟨i', q, hsame, hcomes⟩ := hends d t' (hd ▸ ht) a e hread i p hi hp hlast
  exact ⟨i', q, hsame, (comes_statementRule hword' hopens').trans hcomes⟩

end

lemma TwoPlaces.Ahead.tight (h : m.Ahead k t t') : m.Ahead t'.length t t' := by
  obtain ⟨h, hy, -, hs, hs'⟩ := h
  refine ⟨h, hy, ?_, hs, hs'⟩
  rw [length_signs, List.length_append, List.length_cons]
  omega

lemma read_of_readStatement {s : Statement} (h : (readStatement t).1 = some s) :
    ∃ c, (run (fuelFor t) .statement).read (.atStart t) = .ok (s.form, c) := by
  unfold readStatement at h
  split at h
  · next form c hread =>
    cases h
    exact ⟨c, hread⟩
  · cases h

/-- Where the first place has an import, the second one has an import that says the same, up to what
stands behind its module. -/
lemma comes_finish (h : m.Ahead k t t') {s : Statement} (hs : (readStatement t).1 = some s) {i : Import}
    {p : Part} (hi : s.form = .imports i) (hp : i.source = some p) (hlast : p.extent.last = m.rest.length) :
    ∃ (go : Rules) (i' : Import) (q : Part), m.SameImport i { i' with source := some q } ∧
      Comes (run (fuelFor t') .statement) t' (finish go i' q) (signs m.rest') := by
  obtain ⟨c, hc⟩ := read_of_readStatement hs
  rw [fuelFor_eq] at hc ⊢
  have hends := ends_statementRule (m := m) (steady_importNames _)
    (follows_importNames (k := t'.length) (32 * (t.length + 4) - 1) (32 * (t'.length + 4) - 1) (by omega))
  exact ⟨_, hends (.atStart t) t' h.tight s.form c hc i p hi hp hlast⟩

/-- **Imports with one text say the same**, whatever stands behind them: what is read from the second
place is an import that says what the first one does. -/
theorem sameImport_readStatement (h : m.Ahead k t t') {s s' : Statement}
    (hs : (readStatement t).1 = some s) (hs' : (readStatement t').1 = some s') {i : Import} {p : Part}
    (hi : s.form = .imports i) (hp : i.source = some p) (hlast : p.extent.last = m.rest.length) :
    ∃ i', s'.form = .imports i' ∧ m.SameImport i i' := by
  obtain ⟨go, i', q, hsame, hcomes⟩ := comes_finish h hs hi hp hlast
  obtain ⟨c', hc'⟩ := read_of_readStatement hs'
  obtain ⟨d, hd, -⟩ := hcomes (.atStart t') rfl
  have hfinish : (finish go i' q).Post d fun a _ => a = .imports { i' with source := some q } := by
    refine post_bind ((post_attributes q d).mono fun q' e _ hq' => post_then fun _ _ _ => post_pure ?_)
    rw [hq']
  exact ⟨_, hfinish _ _ (hd.symm.trans hc'), hsame⟩

end Mender.Script
