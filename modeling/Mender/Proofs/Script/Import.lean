import Mender.Proofs.Script.Reader

/-!
Where the parts of an import stand.

The module of an import is one literal of its statement, and the names that the import takes stand
before it. Statements follow one another, so no name of an import is the module of any.
-/

namespace Mender.Script

open Mender.Text Reader

/-- A part is one literal between two ends of what is to come. -/
def IsModulePart (t : List Char) (p : Part) (rest : List Char) : Prop :=
  ∃ r, '"' :: r <:+ t ∧ rest <:+ r ∧ p.extent = ⟨r.length + 1, r.length⟩

/-- A part lies between two ends of what is to come. -/
structure Between (t : List Char) (p : Part) (rest : List Char) : Prop where
  first : p.extent.first ≤ t.length
  last : rest.length ≤ p.extent.last

lemma Between.mono {t t' rest rest' : List Char} {p : Part} (h : Between t p rest) (ht : t <:+ t')
    (hr : rest' <:+ rest) : Between t' p rest' :=
  ⟨h.first.trans ht.length_le, hr.length_le.trans h.last⟩

lemma IsModulePart.mono {t t' rest rest' : List Char} {p : Part} (h : IsModulePart t p rest)
    (ht : t <:+ t') (hr : rest' <:+ rest) : IsModulePart t' p rest' := by
  obtain ⟨r, hr', hrest, hp⟩ := h
  exact ⟨r, hr'.trans ht, hr.trans hrest, hp⟩

lemma IsModulePart.between {t rest : List Char} {p : Part} (h : IsModulePart t p rest) :
    Between t p rest := by
  obtain ⟨r, hr, hrest, hp⟩ := h
  have := hr.length_le
  have := hrest.length_le
  constructor <;> simp only [hp, List.length_cons] at * <;> omega

lemma string?_eq_some {t r : List Char} (h : string? t = some r) : t = '"' :: r := by
  unfold string? at h
  split at h
  · cases h
    rfl
  · cases h

/-- The module is the next lexeme. -/
lemma post_moduleText_next (c : Cursor) : moduleText.Post c fun q d =>
    ∃ r text, c.next = '"' :: r ∧ d.rest = r ∧ q = ⟨⟨c.next.length, r.length⟩, text⟩ := by
  refine post_bind (post_next ?_)
  split
  · next r hr =>
    have hnext : c.next = '"' :: r := string?_eq_some hr
    have hrest : (c.take c.next r).rest = r :=
      rest_take c.next_suffix (hnext ▸ List.suffix_cons _ _)
    refine post_bind (post_take (post_partSince fun text => ⟨r, text, hnext, hrest, ?_⟩))
    show (⟨⟨c.next.length, (c.take c.next r).rest.length⟩, text⟩ : Part) = _
    rw [hrest]
  · exact post_failLast

lemma post_moduleText (c : Cursor) :
    moduleText.Post c fun p d => IsModulePart c.rest p d.rest := by
  refine (post_moduleText_next c).mono fun p d _ hp => ?_
  obtain ⟨r, text, hnext, rfl, rfl⟩ := hp
  exact ⟨_, hnext ▸ c.next_suffix, List.suffix_refl _, by rw [hnext]; rfl⟩

lemma post_offeredName (c : Cursor) : offeredName.Post c fun p d => Between c.rest p d.rest := by
  refine post_bind (post_next ?_)
  split
  · exact (post_moduleText c).mono fun p d _ hp => hp.between
  · refine post_then fun _ d hd => post_partSince fun text => ?_
    exact ⟨c.next_suffix.length_le, Nat.le_refl _⟩

lemma post_namedImport (typeOnly : Bool) (c : Cursor) :
    (namedImport typeOnly).Post c fun n d => Between c.rest n.name d.rest := by
  refine post_bind ((post_offeredName c).mono fun p d _ hp => post_then fun b e he => ?_)
  split
  · exact post_then fun _ f hf => post_pure (hp.mono (List.suffix_refl _) (he.trans hf).rest)
  · exact post_pure (hp.mono (List.suffix_refl _) he.rest)

lemma post_importedName (c : Cursor) :
    importedName.Post c fun n d => Between c.rest n.name d.rest := by
  have hnamed (typeOnly : Bool) (d : Cursor) (hd : c.Leads d) :
      (namedImport typeOnly).Post d fun n e => Between c.rest n.name e.rest :=
    (post_namedImport typeOnly d).mono fun n e _ hn => hn.mono hd.rest (List.suffix_refl _)
  refine post_then fun w d hd => ?_
  dsimp only
  split <;> refine post_then fun typeOnly e he => ?_ <;> split
  · exact post_then fun _ f hf => hnamed _ f (hd.trans (he.trans hf))
  · exact hnamed _ e (hd.trans he)
  · exact post_then fun _ f hf => hnamed _ f (hd.trans (he.trans hf))
  · exact hnamed _ e (hd.trans he)

/-- The names of a list stand between its ends. -/
def NamesBetween (t : List Char) (ns : List ImportedName) (rest : List Char) : Prop :=
  ∀ n ∈ ns, Between t n.name rest

lemma post_importNamesRule {go : Rules}
    (hgo : ∀ c, (go .importNames).Post c fun ns d => NamesBetween c.rest ns d.rest) (c : Cursor) :
    (importNamesRule go).Post c fun ns d => NamesBetween c.rest ns d.rest := by
  refine post_then fun b d hd => ?_
  split
  · exact post_pure fun _ h => nomatch h
  · refine post_bind ((post_importedName d).mono fun n e he hn => post_then fun b f hf => ?_)
    split
    · refine post_bind ((hgo f).mono fun ns g hg hns => post_pure fun m hm => ?_)
      rcases List.mem_cons.1 hm with rfl | hm
      · exact hn.mono hd.rest (hf.trans hg).rest
      · exact (hns m hm).mono (hd.trans (he.trans hf)).rest (List.suffix_refl _)
    · refine post_then fun _ g hg => post_pure fun m hm => ?_
      rw [List.mem_singleton.1 hm]
      exact hn.mono hd.rest (hf.trans hg).rest

/-- **The names of an import list** stand where the list does. -/
lemma post_importNames (n : Nat) (c : Cursor) :
    (run n .importNames).Post c fun ns d => NamesBetween c.rest ns d.rest := by
  induction n generalizing c with
  | zero => exact post_failNext
  | succ n ih => exact post_importNamesRule ih c

/-! ### Statements -/

/-- The module of an import stands in the statement and behind the names. -/
def ImportBetween (t : List Char) (i : Import) (rest : List Char) : Prop :=
  ∀ p, i.source = some p → ∃ mid, mid <:+ t ∧ IsModulePart mid p rest ∧ NamesBetween t i.names mid

/-- If a statement is an import, its parts stand in it. -/
def FormBetween (t : List Char) (f : Form) (rest : List Char) : Prop :=
  ∀ i, f = .imports i → ImportBetween t i rest

lemma NamesBetween.mono {t t' rest rest' : List Char} {ns : List ImportedName}
    (h : NamesBetween t ns rest) (ht : t <:+ t') (hr : rest' <:+ rest) : NamesBetween t' ns rest' :=
  fun n hn => (h n hn).mono ht hr

lemma FormBetween.mono {t t' rest : List Char} {f : Form} (h : FormBetween t f rest)
    (ht : t <:+ t') : FormBetween t' f rest := by
  intro i hi p hp
  obtain ⟨mid, hmid, hpart, hnames⟩ := h i hi p hp
  exact ⟨mid, hmid.trans ht, hpart, hnames.mono ht (List.suffix_refl _)⟩

lemma post_origin (go : Rules) (c : Cursor) :
    (origin go).Post c fun p d => IsModulePart c.rest p d.rest := by
  refine post_bind ((post_moduleText c).mono fun p d _ hp => ?_)
  have hret (e : Cursor) (he : d.Leads e) :
      (pure p : Reader Part).Post e fun p e => IsModulePart c.rest p e.rest :=
    post_pure (hp.mono (List.suffix_refl _) he.rest)
  refine post_then fun b e he => post_then fun b' f hf => ?_
  split
  · exact post_then fun _ g hg => hret g (he.trans (hf.trans hg))
  · exact hret f (he.trans hf)

lemma post_importOrigin (go : Rules) {t : List Char} {i : Import} (c : Cursor) (hc : c.rest <:+ t)
    (hns : NamesBetween t i.names c.rest) :
    (importOrigin go i).Post c fun f d => FormBetween t f d.rest := by
  refine post_then fun _ d hd => post_bind ((post_origin go d).mono fun p e _ hp => ?_)
  refine post_then fun _ f hf => post_pure fun j hj q hq => ?_
  cases hj
  cases hq
  exact ⟨d.rest, hd.rest.trans hc, hp.mono (List.suffix_refl _) hf.rest,
    hns.mono (List.suffix_refl _) hd.rest⟩

variable {go : Rules}

lemma post_importBindings {t : List Char} {i : Import} (c : Cursor) (hc : c.rest <:+ t)
    (hgo : ∀ c, (go .importNames).Post c fun ns d => NamesBetween c.rest ns d.rest)
    (hi : i.names = []) : (importBindings go i).Post c fun f d => FormBetween t f d.rest := by
  refine post_then fun b d hd => ?_
  split
  · refine post_then fun _ e he => post_then fun n f hf => ?_
    refine post_importOrigin go f ((hd.trans (he.trans hf)).rest.trans hc) ?_
    exact fun n hn => absurd hn (by simp [hi])
  · refine post_bind (post_bracketed fun e he => (hgo e).mono fun ns f hf hns => ?_)
    have he' : e.rest <:+ t := (hd.trans he).rest.trans hc
    exact post_importOrigin go f (hf.rest.trans he') (hns.mono he' (List.suffix_refl _))

lemma post_importEquals {t : List Char} (typeOnly : Bool) (c : Cursor) :
    (importEquals typeOnly).Post c fun f d => FormBetween t f d.rest := by
  refine post_then fun b d hd => ?_
  split
  · refine post_then fun _ e he => post_then fun _ f hf => post_pure fun i hi p hp => ?_
    cases hi
    cases hp
  · refine post_then fun _ e he => post_then fun _ f hf => post_pure ?_
    exact fun i hi => nomatch hi

lemma post_importClause {t : List Char} (typeOnly : Bool) (c : Cursor) (hc : c.rest <:+ t)
    (hgo : ∀ c, (go .importNames).Post c fun ns d => NamesBetween c.rest ns d.rest) :
    (importClause go typeOnly).Post c fun f d => FormBetween t f d.rest := by
  refine post_then fun first d hd => post_then fun b e he => ?_
  have hclause (more : Bool) (f : Cursor) (hf : f.rest <:+ t) :
      (if more then importBindings go { typeOnly, source := none, default := first }
        else importOrigin go { typeOnly, source := none, default := first }).Post f
        fun f d => FormBetween t f d.rest := by
    split
    · exact post_importBindings f hf hgo rfl
    · exact post_importOrigin go f hf fun n hn => nomatch hn
  have hrest {f : Cursor} (hf : e.Leads f) : f.rest <:+ t :=
    (hd.trans (he.trans hf)).rest.trans hc
  split
  · exact post_importEquals typeOnly e
  · dsimp only
    split <;> exact post_then fun more f hf => hclause more f (hrest hf)

/-- The parts of an import stand in the order in which it is written. -/
lemma post_importStatement
    (hgo : ∀ c, (go .importNames).Post c fun ns d => NamesBetween c.rest ns d.rest) (c : Cursor) :
    (importStatement go).Post c fun f d => FormBetween c.rest f d.rest := by
  refine post_bind (post_next ?_)
  split
  · refine post_bind ((post_origin go c).mono fun p d _ hp => post_then fun _ e he => post_pure ?_)
    intro i hi q hq
    cases hi
    cases hq
    exact ⟨c.rest, List.suffix_refl _, hp.mono (List.suffix_refl _) he.rest, fun n hn => nomatch hn⟩
  · refine post_then fun marked d hd => post_then fun w e he => ?_
    dsimp only
    split
    · exact post_then fun _ f hf => post_importClause _ f (hd.trans (he.trans hf)).rest hgo
    · exact post_importClause _ e (hd.trans he).rest hgo

/-! ### Statements -/

/-- No other statement is an import. -/
def NoImport (f : Form) : Prop := ∀ i, f ≠ .imports i

lemma noImport_exports (e : Export) : NoImport (.exports e) := fun _ h => nomatch h

lemma noImport_declares (d : Declaration) : NoImport (.declares d) := fun _ h => nomatch h

lemma noImport_other : NoImport .other := fun _ h => nomatch h

lemma FormBetween.of_noImport {t rest : List Char} {f : Form} (h : NoImport f) :
    FormBetween t f rest :=
  fun i hi => absurd hi (h i)

lemma post_nextWord (c : Cursor) : nextWord.Post c fun w _ => firstWord c.next = w := by
  refine post_bind (post_next ?_)
  unfold firstWord
  split <;> next hname =>
    exact post_pure (congrArg (fun o => String.ofList (o.elim [] Prod.fst)) hname)

lemma append_splitName (n : Nat) (t : List Char) : (splitName n t).1 ++ (splitName n t).2 = t := by
  induction t generalizing n with
  | nil => cases n <;> rfl
  | cons c t ih =>
    cases n with
    | succ n => exact congrArg (c :: ·) (ih n)
    | zero =>
      rw [splitName]
      split
      · exact congrArg (c :: ·) (ih 0)
      · split
        · split
          · exact congrArg (c :: ·) (ih _)
          · rfl
        · rfl

/-- A name has a sign. -/
lemma name?_lt {t n r : List Char} (h : name? t = some (n, r)) : r <:+ t ∧ r.length < t.length := by
  cases t with
  | nil => cases h
  | cons c t =>
    have happ := append_splitName 0 (c :: t)
    rw [name?] at h
    split at h
    · generalize splitName 0 (c :: t) = p at h happ
      obtain ⟨a, b⟩ := p
      cases a with
      | nil => cases h
      | cons d a =>
        cases h
        refine ⟨⟨_, happ⟩, ?_⟩
        rw [← happ]
        simp only [List.length_append, List.length_cons]
        omega
    · cases h

lemma post_name_lt (c : Cursor) : name.Post c fun _ d => d.rest.length < c.rest.length := by
  refine post_bind (post_next ?_)
  split
  · next n r hname =>
    obtain ⟨hsuffix, hlt⟩ := name?_lt (t := c.next) hname
    have hrest : (c.take c.next r).rest = r := rest_take c.next_suffix hsuffix
    refine post_bind (post_take (post_pure ?_))
    show (c.take c.next r).rest.length < c.rest.length
    rw [hrest]
    exact Nat.lt_of_lt_of_le hlt c.next_suffix.length_le
  · exact post_failLast

/-- What follows the word `import` in an import. -/
def OpensImport (r : List Char) : Prop := r.head? ≠ some '(' ∧ r.head? ≠ some '.'

/-- An import from its word on. -/
def importFromWord (go : Rules) : Reader Form := do
  let _ ← name
  importStatement go

/-- The two looks ahead tell of a statement whether it is an import, and what is read then is one from its
word on; else it is none. -/
lemma post_statement_ahead {c : Cursor} {Q : Form → Cursor → Prop} (hno : ∀ f d, NoImport f → Q f d)
    (himport : nextWord.Post c fun w d => pastWord.Post d fun p e =>
      w = "import" → OpensImport p.1 → (importFromWord go).Post e Q) :
    (statementRule go).Post c Q := by
  refine post_bind (post_next ?_)
  split
  · exact post_failNext
  · exact post_failNext
  · exact post_then fun _ _ _ => post_pure (hno _ _ noImport_other)
  · exact post_then fun _ _ _ => post_pure (hno _ _ noImport_other)
  · refine post_then fun _ _ _ => post_then fun b _ _ => ?_
    split
    · exact post_then fun x _ _ => post_pure (hno _ _ (noImport_exports x))
    · refine post_then fun o _ _ => ?_
      split
      · exact post_pure (hno _ _ (noImport_declares _))
      · exact post_failLast
  · refine post_bind (himport.mono fun w d _ hpast => post_bind (hpast.mono fun p e _ hword => ?_))
    obtain ⟨r, lineEnd⟩ := p
    dsimp only
    split
    · next hcond => exact hword hcond.1 hcond.2
    · split
      · exact post_then fun _ _ _ => post_then fun x _ _ => post_pure (hno _ _ (noImport_exports x))
      · refine post_then fun o _ _ => ?_
        split
        · exact post_pure (hno _ _ noImport_other)
        · refine post_then fun o _ _ => ?_
          split
          · exact post_pure (hno _ _ (noImport_declares _))
          · exact post_then fun _ _ _ => post_pure (hno _ _ noImport_other)

/-- A statement is an import behind its word, or it is none. -/
lemma post_statement {c : Cursor} {Q : Form → Cursor → Prop} (hno : ∀ f d, NoImport f → Q f d)
    (himport : firstWord c.next = "import" → ∀ d, c.Leads d → d.rest.length < c.rest.length →
      (importStatement go).Post d Q) :
    (statementRule go).Post c Q := by
  refine post_statement_ahead hno ((post_nextWord c).mono fun w d hd hw => ?_)
  refine Post.of_leads fun p e he hword _ => ?_
  refine post_bind ((post_name_lt e).mono fun _ f hf hlt => ?_)
  have hle := (hd.trans he).rest.length_le
  exact himport (hw.trans hword) f (hd.trans (he.trans hf)) (by omega)

/-- The parts of an import stand in its statement. -/
lemma post_statementRule
    (hgo : ∀ c, (go .importNames).Post c fun ns d => NamesBetween c.rest ns d.rest) (c : Cursor) :
    (statementRule go).Post c fun f d => FormBetween c.rest f d.rest :=
  post_statement (fun _ _ hf => .of_noImport hf) fun _ d hd _ =>
    (post_importStatement hgo d).mono fun _ _ _ hx => hx.mono hd.rest

/-! ### Rows of statements -/

/-- The statements stand one behind the other. -/
inductive InRow : List Char → List Statement → Prop
  | nil (t : List Char) : InRow t []
  | cons {t rest : List Char} {s : Statement} {ss : List Statement} (hs : FormBetween t s.form rest)
      (hrest : rest <:+ t) (h : InRow rest ss) : InRow t (s :: ss)

lemma InRow.mono {t t' : List Char} {ss : List Statement} (h : InRow t ss) (ht : t <:+ t') :
    InRow t' ss := by
  cases h with
  | nil => exact .nil _
  | cons hs hrest h => exact .cons (hs.mono ht) (hrest.trans ht) h

lemma statementStart_suffix (n : Nat) (t : List Char) : statementStart n t <:+ t := by
  induction n generalizing t with
  | zero => exact List.suffix_refl _
  | succ n ih =>
    have hgap := skipGap_suffix .blank false t
    rw [statementStart]
    split
    · exact ((ih _).trans (List.dropWhile_suffix _)).trans hgap
    · exact hgap

lemma giveUp_suffix (t : List Char) : giveUp t <:+ t := by
  unfold giveUp
  dsimp only
  split
  · next r hr => exact (List.suffix_cons _ _).trans (hr ▸ List.dropWhile_suffix _)
  · exact List.nil_suffix

lemma giveUp_lt {t : List Char} (h : t ≠ []) : (giveUp t).length < t.length := by
  unfold giveUp
  dsimp only
  split
  · next c r hr =>
    have := (hr ▸ List.dropWhile_suffix _ : c :: r <:+ t).length_le
    rw [List.length_cons] at this
    omega
  · exact List.length_pos_iff.2 h

/-- An import with a module makes the text shorter. -/
lemma FormBetween.rest_lt {t rest : List Char} {f : Form} (h : FormBetween t f rest) {i : Import}
    (hi : f = .imports i) {p : Part} (hp : i.source = some p) : rest.length < t.length := by
  obtain ⟨mid, hmid, ⟨r, hr, hrest, -⟩, -⟩ := h i hi p hp
  have := hmid.length_le
  have := hr.length_le
  have := hrest.length_le
  rw [List.length_cons] at *
  omega

lemma fuelFor_eq (t : List Char) : fuelFor t = (32 * (t.length + 4) - 1) + 1 := by
  unfold fuelFor
  omega

/-- What is left behind a statement is shorter. -/
lemma readStatement_lt {t : List Char} (h : t ≠ []) : (readStatement t).2.2.length < t.length := by
  unfold readStatement
  split
  · dsimp only
    split
    · assumption
    · exact giveUp_lt h
  · exact giveUp_lt h

/-- One statement of a row. -/
lemma inRow_readStatement (t : List Char) {ss : List Statement} (h : InRow (readStatement t).2.2 ss) :
    InRow t ((readStatement t).1.toList ++ ss) := by
  unfold readStatement at h ⊢
  split
  · next form c hread =>
    rw [hread] at h
    have hform : FormBetween t form c.rest := by
      rw [fuelFor_eq] at hread
      exact post_statementRule (post_importNames _) (.atStart t) form c hread
    dsimp only at h ⊢
    split at h
    · exact .cons hform ((run _ _).forward hread).rest h
    · next hlt =>
      -- a statement that takes nothing is no import of a module
      have hgiveUp : FormBetween t form (giveUp t) := fun i hi p hp =>
        absurd (hform.rest_lt hi hp) hlt
      exact .cons hgiveUp (giveUp_suffix t) h
  · next hread =>
    rw [hread] at h
    exact h.mono (giveUp_suffix t)

/-- **Statements are read one behind the other.** -/
theorem inRow_readStatements (n : Nat) (t : List Char) : InRow t (readStatements n t).1 := by
  induction n generalizing t with
  | zero => exact .nil _
  | succ n ih =>
    have hstart := statementStart_suffix t.length t
    rw [readStatements]
    generalize statementStart t.length t = s at hstart ⊢
    split
    · exact .nil _
    · exact (inRow_readStatement _ (ih _)).mono hstart

end Mender.Script
