import Mender.Proofs.Script.ImportNames

/-!
The clause of an import, in two scripts with a literal in common.

What an import says is over with its module. If the literal is the module of the import that is read in
the one script, then in the other one the reader comes to the literal too, and what it has read by then
says the same.
-/

namespace Mender.Script

open Mender.Text Reader TwoPlaces

variable {m : TwoPlaces} {k k' : Nat} {t t' r : List Char} {go go' : Rules}

/-- The imports say the same. -/
structure TwoPlaces.SameImport (m : TwoPlaces) (i i' : Import) : Prop where
  typeOnly : i.typeOnly = i'.typeOnly
  default : i.default = i'.default
  whole : i.whole = i'.whole
  names : List.Forall₂ m.SameName i.names i'.names
  source : Option.Rel m.SamePart i.source i'.source

/-! ### The module -/

/-- The attributes of a module. -/
def attributes (go : Rules) (q : Part) : Reader Part := do
  if (← eatWord "with") || (← eatWord "assert") then braced (go .properties)
  return q

/-- The end of an import behind its module. -/
def finish (go : Rules) (i : Import) (q : Part) : Reader Form := do
  let q ← attributes go q
  semicolon
  return .imports { i with source := some q }

/-- The end of an import from its module on. -/
def fromModule (go : Rules) (i : Import) : Reader Form := do
  let q ← origin go
  semicolon
  return .imports { i with source := some q }

/-- The module of an import is not behind the next lexeme. -/
def Reaches (f : Reader Form) : Prop :=
  ∀ c, f.Post c fun a _ => ∀ i p, a = .imports i → i.source = some p → p.extent.last < c.next.length

lemma Reaches.bind {α : Type} {p : Reader α} {f : α → Reader Form} (hp : Steady p)
    (hf : ∀ a, Reaches (f a)) : Reaches (p >>= f) :=
  fun c => post_bind ((hp c).mono fun a d _ hd => (hf a d).mono fun _ _ _ h i p hi hs =>
    (h i p hi hs).trans_le hd)

lemma reaches_ite {c : Prop} [Decidable c] {f f' : Reader Form} (hf : Reaches f) (hf' : Reaches f') :
    Reaches (if c then f else f') := by
  split
  · exact hf
  · exact hf'

/-- The first reader finds an import whose module is the literal; then the second one comes to the
literal too, with an import that says the same. -/
def TwoPlaces.Ends (m : TwoPlaces) (k : Nat) (f : Reader Form) (go' : Rules) (f' : Reader Form) : Prop :=
  ∀ c t', m.Ahead k c.rest t' → f.Post c fun a _ => ∀ i p, a = .imports i → i.source = some p →
    p.extent.last = m.rest.length →
      ∃ i' q, m.SameImport i { i' with source := some q } ∧
        Comes f' t' (finish go' i' q) (signs m.rest')

section

variable {α : Type} {p p' : Reader α} {f f' : α → Reader Form} {R : α → α → Prop}

lemma TwoPlaces.Follows.ends (hp : m.Follows k k' p p' R)
    (hf : ∀ a a', R a a' → m.Ends k' (f a) go' (f' a')) (hr : ∀ a, Reaches (f a)) :
    m.Ends k (p >>= f) go' (p' >>= f') := by
  refine fun c t' ht => post_bind fun a d had b e hbe i q hi hq hlast => ?_
  have hlt := hlast ▸ hr a d b e hbe i q hi hq
  obtain ⟨a', r', htakes, ha, hr'⟩ := hp c t' ht a d had hlt
  obtain ⟨i', q', hsame, hcomes⟩ := hf a a' ha d r' hr' b e hbe i q hi hq hlast
  exact ⟨i', q', hsame, htakes.comes.trans hcomes⟩

lemma ends_ite {c c' : Prop} [Decidable c] [Decidable c'] (hc : c ↔ c') {f f' g g' : Reader Form}
    (hf : m.Ends k f go' f') (hg : m.Ends k g go' g') :
    m.Ends k (if c then f else g) go' (if c' then f' else g') := by
  by_cases h : c
  · rw [if_pos h, if_pos (hc.1 h)]
    exact hf
  · rw [if_neg h, if_neg (mt hc.2 h)]
    exact hg

end

lemma Comes.bind {α β : Type} {p q : Reader α} {f : α → Reader β} (h : Comes p t q r) :
    Comes (p >>= f) t (q >>= f) r := by
  intro c hc
  obtain ⟨d, hd, hr⟩ := h c hc
  refine ⟨d, ?_, hr⟩
  show (andThen p f).read c = (andThen q f).read d
  simp only [andThen, hd]

lemma post_attributes (q : Part) (c : Cursor) : (attributes go q).Post c fun q' _ => q' = q := by
  refine post_then fun b d _ => post_then fun b' e _ => ?_
  split
  · exact post_then fun _ _ _ => post_pure rfl
  · exact post_pure rfl

/-- From its module on, an import says what it has said and the module that comes next. -/
lemma post_fromModule (i : Import) (c : Cursor) : (fromModule go i).Post c fun a _ =>
    ∃ r text, c.next = '"' :: r ∧
      a = Form.imports { i with source := some ⟨⟨c.next.length, r.length⟩, text⟩ } := by
  refine post_bind (post_bind ((post_moduleText_next c).mono fun q d _ hq => ?_))
  refine (post_attributes q d).mono fun q' e _ hq' => post_then fun _ _ _ => post_pure ?_
  obtain ⟨r, text, hnext, -, rfl⟩ := hq
  exact ⟨r, text, hnext, by rw [hq']⟩

lemma reaches_fromModule (i : Import) : Reaches (fromModule go i) := by
  refine fun c => (post_fromModule i c).mono fun a _ _ h j p hj hp => ?_
  obtain ⟨r, text, hnext, rfl⟩ := h
  cases hj
  cases hp
  rw [hnext]
  exact Nat.lt_succ_self _

lemma ends_fromModule {i i' : Import} (hi : m.SameImport i i') :
    m.Ends k (fromModule go i) go' (fromModule go' i') := by
  refine fun c t' ht => (post_fromModule i c).mono fun a _ _ h j p hj hp hlast => ?_
  obtain ⟨r, text, hnext, rfl⟩ := h
  cases hj
  cases hp
  have hlt : m.rest.length < c.next.length := by
    rw [hnext, ← hlast]
    exact Nat.lt_succ_self _
  have hgap := ht.gap (e := false) hlt false
  rw [show (skipGap .blank false c.rest).1 = '"' :: r from hnext] at hgap
  obtain ⟨hnext', hbetween⟩ := hgap.atLiteral hlast
  refine ⟨i', partBetween ('"' :: signs m.rest') (signs m.rest'), ?_, ?_⟩
  · rw [hnext'] at hbetween
    rw [hnext]
    exact { hi with source := .some (hbetween.samePart _ _) }
  · exact ((takes_moduleText hnext').comes (f := attributes go')).bind

/-! ### Clauses -/

section

variable {i i' : Import}

lemma reaches_importOrigin (i : Import) : Reaches (importOrigin go i) :=
  .bind (steady_expectWord "from") fun _ => reaches_fromModule i

lemma ends_importOrigin (hi : m.SameImport i i') :
    m.Ends k (importOrigin go i) go' (importOrigin go' i') :=
  (follows_expectWord "from").ends (fun _ _ _ => ends_fromModule hi) fun _ => reaches_fromModule i

lemma reaches_importBindings (hgo : Steady (go .importNames)) (i : Import) :
    Reaches (importBindings go i) :=
  .bind (steady_eat "*") fun _ => reaches_ite
    (.bind (steady_expectWord "as") fun _ => .bind steady_name fun _ => reaches_importOrigin _)
    (.bind (steady_bracketed hgo _) fun _ => reaches_importOrigin _)

lemma ends_importBindings (hgo : Steady (go .importNames))
    (hnames : m.Follows k k (go .importNames) (go' .importNames) (List.Forall₂ m.SameName))
    (hi : m.SameImport i i') : m.Ends k (importBindings go i) go' (importBindings go' i') := by
  have hwhole (w w' : String) (hw : w = w') :
      m.Ends k (importOrigin go { i with whole := some w }) go' (importOrigin go' { i' with whole := some w' }) :=
    ends_importOrigin { hi with whole := congrArg some hw }
  have hlist (ns ns' : List ImportedName) (hns : List.Forall₂ m.SameName ns ns') :
      m.Ends k (importOrigin go { i with names := ns }) go' (importOrigin go' { i' with names := ns' }) :=
    ends_importOrigin { hi with names := hns }
  refine (follows_eat rfl (by decide)).ends (fun b b' hb => ?_) fun _ => reaches_ite
    (.bind (steady_expectWord "as") fun _ => .bind steady_name fun _ => reaches_importOrigin _)
    (.bind (steady_bracketed hgo _) fun _ => reaches_importOrigin _)
  subst hb
  refine ends_ite Iff.rfl ?_ ?_
  · refine (follows_expectWord "as").ends (fun _ _ _ => ?_) fun _ =>
      .bind steady_name fun _ => reaches_importOrigin _
    exact follows_name_within.ends hwhole fun _ => reaches_importOrigin _
  · exact (follows_bracketed rfl (by decide) hnames hgo).ends hlist fun _ => reaches_importOrigin _

/-- An import of this kind has no module. -/
lemma post_importEquals_source (typeOnly : Bool) (c : Cursor) :
    (importEquals typeOnly).Post c fun a _ => ∀ i, a = .imports i → i.source = none := by
  refine post_then fun b d _ => ?_
  split
  · refine post_then fun _ _ _ => post_then fun _ _ _ => post_pure fun i hi => ?_
    cases hi
    rfl
  · exact post_then fun _ _ _ => post_then fun _ _ _ => post_pure fun i hi => nomatch hi

lemma reaches_importEquals (typeOnly : Bool) : Reaches (importEquals typeOnly) :=
  fun c => (post_importEquals_source typeOnly c).mono fun a _ _ h i p hi hp => by
    rw [h i hi] at hp
    cases hp

lemma ends_importEquals (typeOnly : Bool) (f' : Reader Form) :
    m.Ends k (importEquals typeOnly) go' f' :=
  fun c _ _ => (post_importEquals_source typeOnly c).mono fun a _ _ h i p hi hp => by
    rw [h i hi] at hp
    cases hp

/-- A clause behind its first name, which is followed by no equals sign. -/
def behindDefault (go : Rules) (typeOnly : Bool) (first : Option String) : Reader Form := do
  let more ← if first.isSome then eat "," else pure true
  let i : Import := { typeOnly, source := none, default := first }
  if more then importBindings go i else importOrigin go i

/-- A clause behind its first name. -/
def behindFirst (go : Rules) (typeOnly : Bool) (first : Option String) : Reader Form := do
  if first.isSome && (← eat "=") then importEquals typeOnly else behindDefault go typeOnly first

section

variable (hgo : Steady (go .importNames))

include hgo

lemma reaches_more (i : Import) (more : Bool) :
    Reaches (if more then importBindings go i else importOrigin go i) :=
  reaches_ite (reaches_importBindings hgo i) (reaches_importOrigin i)

lemma reaches_behindDefault (typeOnly : Bool) (first : Option String) :
    Reaches (behindDefault go typeOnly first) := by
  unfold behindDefault
  dsimp only
  split
  · exact .bind (steady_eat ",") fun more => reaches_more hgo _ more
  · exact .bind (steady_pure true) fun more => reaches_more hgo _ more

lemma reaches_behindFirst (typeOnly : Bool) (first : Option String) :
    Reaches (behindFirst go typeOnly first) :=
  .bind (steady_eat "=") fun _ => reaches_ite (reaches_importEquals typeOnly)
    (reaches_behindDefault hgo typeOnly first)

lemma reaches_importClause (typeOnly : Bool) : Reaches (importClause go typeOnly) :=
  .bind steady_optionalName fun first => reaches_behindFirst hgo typeOnly first

variable (hnames : m.Follows k k (go .importNames) (go' .importNames) (List.Forall₂ m.SameName))

include hnames

lemma ends_behindDefault (typeOnly : Bool) (first : Option String) :
    m.Ends k (behindDefault go typeOnly first) go' (behindDefault go' typeOnly first) := by
  have hi : m.SameImport { typeOnly, source := none, default := first }
      { typeOnly, source := none, default := first } := ⟨rfl, rfl, rfl, .nil, .none⟩
  have hmore (more more' : Bool) (h : more = more') :
      m.Ends k (if more then importBindings go { typeOnly, source := none, default := first }
          else importOrigin go { typeOnly, source := none, default := first }) go'
        (if more' then importBindings go' { typeOnly, source := none, default := first }
          else importOrigin go' { typeOnly, source := none, default := first }) :=
    ends_ite (h ▸ Iff.rfl) (ends_importBindings hgo hnames hi) (ends_importOrigin hi)
  unfold behindDefault
  dsimp only
  split
  · exact (follows_eat rfl (by decide)).ends hmore fun more => reaches_more hgo _ more
  · exact (follows_pure rfl).ends hmore fun more => reaches_more hgo _ more

lemma ends_behindFirst (typeOnly : Bool) (first : Option String) :
    m.Ends k (behindFirst go typeOnly first) go' (behindFirst go' typeOnly first) := by
  refine (follows_eat rfl (by decide)).ends (fun b b' hb => ?_) fun _ =>
    reaches_ite (reaches_importEquals typeOnly) (reaches_behindDefault hgo typeOnly first)
  subst hb
  exact ends_ite Iff.rfl (ends_importEquals typeOnly _) (ends_behindDefault hgo hnames typeOnly first)

lemma ends_importClause (typeOnly : Bool) :
    m.Ends k (importClause go typeOnly) go' (importClause go' typeOnly) :=
  follows_optionalName.ends (fun _ first h => h ▸ ends_behindFirst hgo hnames typeOnly first)
    fun first => reaches_behindFirst hgo typeOnly first

end

end

end Mender.Script
