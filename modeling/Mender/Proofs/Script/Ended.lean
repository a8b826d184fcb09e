import Mender.Proofs.Script.Reader

/-!
How a statement ends.

The last sign of a statement is a semicolon or a closing bracket, or the statement ends where no
semicolon is needed. No statement ends inside a word or behind an operator, unless a line ends there.
-/

namespace Mender.Script

open Mender.Text Reader

variable {α β : Type}

/-- A place where a statement may end without a semicolon, or where the semicolon stands. -/
def Stops (t : List Char) : Prop :=
  (skipGap .blank false t).2 = true ∨ (skipGap .blank false t).1 = [] ∨
    (skipGap .blank false t).1.head? = some ';' ∨ (skipGap .blank false t).1.head? = some '}'

/-- Behind the end of a statement. -/
def Ended (d : Cursor) : Prop := (∃ c ∈ [';', '}', ')'], d.lately = c :: d.rest) ∨ Stops d.rest

/-- The reader stops at the end of a statement, whatever it reads. -/
def EndsWell (p : Reader α) : Prop := ∀ c, p.Post c fun _ d => Ended d

/-- The reader does not go on into a statement from the end of one. -/
def Keeps (p : Reader α) : Prop := ∀ c, Ended c → p.Post c fun _ d => Ended d

/-- The reader stops at the end of a statement if it finds anything. -/
def EndsIf (p : Reader (Option α)) : Prop := ∀ c, p.Post c fun a d => a.isSome → Ended d

/-- The reader stays where it stands. -/
def Still (p : Reader α) : Prop := ∀ c, p.Post c fun _ d => d = c

/-! ### Readers in a row -/

section

variable {p : Reader α} {f : α → Reader β}

/-- The last reader counts. -/
lemma endsWell_then (h : ∀ a, EndsWell (f a)) : EndsWell (p >>= f) :=
  fun _ => post_then fun a d _ => h a d

lemma EndsWell.keeps (h : EndsWell p) : Keeps p := fun c _ => h c

lemma Still.keeps (h : Still p) : Keeps p := fun c hc => (h c).mono fun _ _ _ hd => hd ▸ hc

lemma EndsWell.bind (h : EndsWell p) (hf : ∀ a, Keeps (f a)) : EndsWell (p >>= f) :=
  fun c => post_bind ((h c).mono fun a d _ hd => hf a d hd)

lemma EndsWell.still (h : EndsWell p) (hf : ∀ a, Still (f a)) : EndsWell (p >>= f) :=
  h.bind fun a => (hf a).keeps

lemma still_pure {a : α} : Still (pure a : Reader α) := fun _ => post_pure rfl

lemma still_partSince {s : List Char} : Still (partSince s) := fun _ => post_partSince fun _ => rfl

lemma Still.bind (h : Still p) (hf : ∀ a, Still (f a)) : Still (p >>= f) :=
  fun c => post_bind ((h c).mono fun a d _ hd => (hf a d).mono fun _ _ _ he => he.trans hd)

/-- What ends well and gives an answer. -/
lemma EndsWell.pure (h : EndsWell p) {g : α → β} : EndsWell (p >>= fun a => Pure.pure (g a)) :=
  h.still fun _ => still_pure

lemma endsWell_ite {c : Prop} [Decidable c] {q : Reader α} (hp : EndsWell p) (hq : EndsWell q) :
    EndsWell (if c then p else q) := by
  split
  · exact hp
  · exact hq

lemma endsIf_ite {c : Prop} [Decidable c] {p q : Reader (Option α)} (hp : EndsIf p) (hq : EndsIf q) :
    EndsIf (if c then p else q) := by
  split
  · exact hp
  · exact hq

/-- Something that may stand in front. -/
lemma endsWell_optional {c : Prop} [Decidable c] {p : Reader Unit} {f : Unit → Reader β}
    (hf : ∀ a, EndsWell (f a)) :
    EndsWell (have rest := f; if c then p >>= fun a => rest a else rest ()) :=
  endsWell_ite (endsWell_then hf) (hf ())

lemma endsWell_failLast : EndsWell (failLast : Reader α) := fun _ => post_failLast

lemma endsWell_failNext : EndsWell (failNext : Reader α) := fun _ => post_failNext

lemma EndsWell.endsIf {p : Reader (Option α)} (h : EndsWell p) : EndsIf p :=
  fun c => (h c).mono fun _ _ _ hd _ => hd

/-- The reader goes on only if something is there. -/
lemma keeps_if {q : Reader Bool} (hq : ∀ c, q.Post c fun b d => b = false → d = c)
    {g : Bool → Reader β} (htrue : EndsWell (g true)) (hfalse : Keeps (g false)) : Keeps (q >>= g) := by
  refine fun c hc => post_bind ((hq c).mono fun b d _ hd => ?_)
  cases b with
  | true => exact htrue d
  | false => exact hfalse d (hd rfl ▸ hc)

lemma EndsWell.some (h : EndsWell p) {g : α → β} :
    EndsIf (p >>= fun a => Pure.pure (Option.some (g a))) :=
  fun c => (h.pure c).mono fun _ _ _ hd _ => hd

lemma endsIf_none : EndsIf (Pure.pure none : Reader (Option α)) := fun _ => post_pure fun h => nomatch h

lemma endsIf_then {f : α → Reader (Option β)} (h : ∀ a, EndsIf (f a)) : EndsIf (p >>= f) :=
  fun _ => post_then fun a d _ => h a d

/-- What is found ends well, and so does what is read otherwise. -/
lemma EndsIf.bind {p : Reader (Option α)} (h : EndsIf p) {f : Option α → Reader β}
    (hsome : ∀ a, Still (f (Option.some a))) (hnone : EndsWell (f none)) : EndsWell (p >>= f) := by
  refine fun c => post_bind ((h c).mono fun a d _ hd => ?_)
  cases a with
  | none => exact hnone d
  | some a => exact (hsome a d).mono fun _ _ _ he => he ▸ hd rfl

end

/-! ### Single signs -/

/-- Behind the next lexeme. -/
lemma lately_take {c : Cursor} {w r : List Char} (h : c.next = w ++ r) :
    (c.take c.next r).lately = w ++ (c.take c.next r).rest := by
  rw [rest_take c.next_suffix (h ▸ List.suffix_append _ _), ← h]
  exact lastOf_of_suffix c.next_suffix

lemma post_eat (s : String) (c : Cursor) : (eat s).Post c fun b d =>
    if b then d.lately = s.toList ++ d.rest else d = c := by
  refine post_bind (post_next ?_)
  split
  · next r hr => exact post_bind (post_take (post_pure (lately_take (after?_eq_some_iff.1 hr))))
  · exact post_pure rfl

lemma post_eatWord (w : String) (c : Cursor) : (eatWord w).Post c fun b d => b = false → d = c := by
  refine post_bind (post_next ?_)
  split
  · split
    · exact post_then fun _ _ _ => post_pure fun h => nomatch h
    · exact post_pure fun _ => rfl
  · exact post_pure fun _ => rfl

/-- The signs that a statement may end with. -/
def IsEnd (s : String) : Prop := ∃ c ∈ [';', '}', ')'], s.toList = [c]

lemma isEnd_semicolon : IsEnd ";" := ⟨';', by decide, rfl⟩

lemma isEnd_closeBrace : IsEnd closeBrace := ⟨'}', by decide, rfl⟩

lemma isEnd_parenthesis : IsEnd ")" := ⟨')', by decide, rfl⟩

/-- Either the sign is there or the rest has to end well. -/
lemma endsWell_eat {s : String} (hs : IsEnd s) {f : Bool → Reader α} (htrue : Still (f true))
    (hfalse : ∀ c, (f false).Post c fun _ d => Ended d) : EndsWell (eat s >>= f) := by
  obtain ⟨x, hx, hs⟩ := hs
  refine fun c => post_bind ((post_eat s c).mono fun b d _ hd => ?_)
  cases b with
  | true =>
    refine (htrue d).mono fun _ e _ he => .inl ⟨x, hx, ?_⟩
    rw [he, hd, hs]
    rfl
  | false => exact hfalse d

lemma keeps_eat {s : String} (hs : IsEnd s) {f : Bool → Reader α} (hf : ∀ b, Still (f b)) :
    Keeps (eat s >>= f) := by
  obtain ⟨x, hx, hs⟩ := hs
  refine fun c hc => post_bind ((post_eat s c).mono fun b d _ hd => ?_)
  refine (hf b d).mono fun _ e _ he => he ▸ ?_
  cases b with
  | true => exact .inl ⟨x, hx, by rw [hd, hs]; rfl⟩
  | false => exact hd ▸ hc

lemma endsWell_semicolon : EndsWell semicolon := by
  refine endsWell_eat isEnd_semicolon still_pure fun c => post_bind (post_ahead ?_)
  generalize hgap : skipGap .blank false c.rest = g
  obtain ⟨t, lineEnd⟩ := g
  have hstop (h : lineEnd = true ∨ t = [] ∨ t.head? = some ';' ∨ t.head? = some '}') : Ended c := by
    refine .inr ?_
    rw [Stops, hgap]
    exact h
  dsimp only
  split
  · exact post_pure (hstop (.inr (.inl rfl)))
  · exact post_pure (hstop (.inr (.inr (.inr rfl))))
  · split
    · next h => exact post_pure (hstop (.inl h))
    · exact post_failNext

/-- A missing bracket is only noted where a statement could end. -/
lemma endsWell_closing {s : String} (hs : IsEnd s) : EndsWell (closing s) := by
  refine endsWell_eat hs still_pure fun c => post_bind (post_ahead ?_)
  generalize hgap : skipGap .blank false c.rest = g
  obtain ⟨t, lineEnd⟩ := g
  have hreport (h : lineEnd = true ∨ t = [] ∨ t.head? = some ';' ∨ t.head? = some '}') :
      (do report (← cursor).rest.length : Reader Unit).Post c fun _ d => Ended d := by
    refine post_bind (post_cursor ?_)
    intro a d hr
    cases hr
    refine .inr ?_
    show Stops c.rest
    rw [Stops, hgap]
    exact h
  dsimp only
  split
  · exact hreport (.inr (.inl rfl))
  · exact hreport (.inr (.inr (.inl rfl)))
  · split
    · next h => exact hreport (.inl h)
    · exact post_failNext

lemma endsWell_bracketed {opening : String} {p : Reader α} (h : EndsWell p) :
    EndsWell (bracketed opening p) :=
  fun _ => post_bracketed fun d _ => h d

/-! ### Statements and their parts -/

/-- What the goals read that a statement may end with. -/
structure GoesWell (go : Rules) : Prop where
  statement : EndsWell (go .statement)
  statements : EndsWell (go .statements)
  cases : EndsWell (go .cases)
  classMembers : EndsWell (go .classMembers)
  enumMembers : EndsWell (go .enumMembers)
  typeMembers : EndsWell (go .typeMembers)

variable {go : Rules}

lemma endsWell_bindings : EndsWell (bindings go) :=
  endsWell_then fun _ => endsWell_semicolon.pure

lemma endsWell_typeAlias : EndsWell (typeAlias go) := by
  have hrest (_ : Unit) :
      EndsWell (do expect "="; go .type; semicolon; return Declaration.typeOnly) :=
    endsWell_then fun _ => endsWell_then fun _ => endsWell_semicolon.pure
  exact endsWell_then fun _ => endsWell_then fun b => endsWell_optional hrest

section

variable (h : GoesWell go)

include h

lemma endsWell_block : EndsWell (block go) := endsWell_bracketed h.statements

lemma endsWell_functionDeclaration : EndsWell (functionDeclaration go) :=
  endsWell_then fun _ => endsWell_then fun _ => endsWell_then fun _ => endsWell_then fun _ =>
    endsWell_ite (endsWell_block h).pure endsWell_semicolon.pure

lemma endsWell_classRest : EndsWell (classRest go) := by
  have hbody (o : Option String) (_ : Unit) : EndsWell (do braced (go .classMembers); return o) :=
    (endsWell_bracketed h.classMembers).pure
  have hinterfaces (o : Option String) (_ : Unit) : EndsWell (do
      if ← eatWord "implements" then classRest.interfaces go 100
      braced (go .classMembers)
      return o) :=
    endsWell_then fun _ => endsWell_optional (hbody o)
  have hbase (o : Option String) (_ : Unit) : EndsWell (do
      if ← eatWord "extends" then
        let _ ← go .operand
        if ← isNext "<" then go .typeSuffixes
      if ← eatWord "implements" then classRest.interfaces go 100
      braced (go .classMembers)
      return o) :=
    endsWell_then fun _ => endsWell_ite
      (endsWell_then fun _ => endsWell_then fun _ => endsWell_optional (hinterfaces o))
      (hinterfaces o ())
  have hname (o : Option String) : EndsWell (do
      if ← isNext "<" then go .typeParameters
      if ← eatWord "extends" then
        let _ ← go .operand
        if ← isNext "<" then go .typeSuffixes
      if ← eatWord "implements" then classRest.interfaces go 100
      braced (go .classMembers)
      return o) :=
    endsWell_then fun _ => endsWell_optional (hbase o)
  exact endsWell_then fun w => endsWell_ite (endsWell_then hname) (endsWell_then hname)

lemma endsWell_classDeclaration : EndsWell (classDeclaration go) := by
  refine (endsWell_classRest h).bind fun o => ?_
  cases o with
  | none => exact endsWell_failLast.keeps
  | some n => exact still_pure.keeps

lemma endsWell_interfaceDeclaration : EndsWell (interfaceDeclaration go) := by
  have hbody (_ : Unit) : EndsWell (do braced (go .typeMembers); return Declaration.typeOnly) :=
    (endsWell_bracketed h.typeMembers).pure
  have hbases (_ : Unit) : EndsWell (do
      if ← eatWord "extends" then interfaceDeclaration.bases go 100
      braced (go .typeMembers)
      return Declaration.typeOnly) :=
    endsWell_then fun _ => endsWell_optional hbody
  exact endsWell_then fun _ => endsWell_then fun _ => endsWell_optional hbases

lemma endsWell_enumeration : EndsWell (enumeration go) :=
  endsWell_then fun _ => (endsWell_bracketed h.enumMembers).pure

lemma endsWell_moduleDeclaration : EndsWell (moduleDeclaration go) := by
  have hbody (_ : Unit) : EndsWell (do
      if ← isNext openBrace then block go else semicolon
      return Declaration.silent) :=
    endsWell_then fun _ => endsWell_ite (endsWell_block h).pure endsWell_semicolon.pure
  refine endsWell_then fun t => ?_
  dsimp only
  split
  all_goals exact endsWell_then hbody

lemma endsWell_declared : EndsWell (declaration?.declared go) :=
  endsWell_then fun _ => endsWell_ite (endsWell_block h) h.statement.pure

/-- **A declaration ends well**, if it is one. -/
theorem endsIf_declaration : EndsIf (declaration? go) := by
  have behind {p : Reader Declaration} (hp : EndsWell p) :
      EndsIf (do let _ ← name; return some (← p)) :=
    endsIf_then fun _ => hp.some
  have behindTwo {p : Reader Declaration} (hp : EndsWell p) :
      EndsIf (do let _ ← name; let _ ← name; return some (← p)) :=
    endsIf_then fun _ => behind hp
  have hconst : EndsIf (do
      let _ ← name
      if ← eatWord "enum" then return some (← enumeration go)
      return some (← bindings go)) :=
    endsIf_then fun _ => endsIf_then fun _ =>
      endsIf_ite (endsWell_enumeration h).some endsWell_bindings.some
  have hdeclared : EndsIf (do let _ ← name; declaration?.declared go; return some Declaration.silent) :=
    endsIf_then fun _ => (endsWell_declared h).some
  refine endsIf_then fun w => endsIf_then fun p => ?_
  obtain ⟨r, lineEnd⟩ := p
  refine endsIf_ite (behind endsWell_bindings) (endsIf_ite hconst (endsIf_ite (behind endsWell_bindings) ?_))
  refine endsIf_ite (behind (endsWell_functionDeclaration h)) ?_
  refine endsIf_ite (behindTwo (endsWell_functionDeclaration h)) ?_
  refine endsIf_ite (behind (endsWell_classDeclaration h)) ?_
  refine endsIf_ite (behindTwo (endsWell_classDeclaration h)) ?_
  refine endsIf_ite (behind (endsWell_interfaceDeclaration h)) ?_
  refine endsIf_ite (behind (endsWell_enumeration h)) (endsIf_ite (behind endsWell_typeAlias) ?_)
  exact endsIf_ite (behind (endsWell_moduleDeclaration h)) (endsIf_ite hdeclared endsIf_none)

end

/-! ### Imports and exports -/

lemma endsWell_importOrigin {i : Import} : EndsWell (importOrigin go i) :=
  endsWell_then fun _ => endsWell_then fun _ => endsWell_semicolon.pure

lemma endsWell_importClause (typeOnly : Bool) : EndsWell (importClause go typeOnly) := by
  have hequals : EndsWell (importEquals typeOnly) :=
    endsWell_then fun _ => endsWell_ite (endsWell_then fun _ => endsWell_semicolon.pure)
      (endsWell_then fun _ => endsWell_semicolon.pure)
  have hbindings (i : Import) : EndsWell (importBindings go i) :=
    endsWell_then fun _ => endsWell_ite
      (endsWell_then fun _ => endsWell_then fun _ => endsWell_importOrigin)
      (endsWell_then fun _ => endsWell_importOrigin)
  have hrest (first : Option String) (more : Bool) : EndsWell (
      let i : Import := { typeOnly, source := none, default := first }
      if more then importBindings go i else importOrigin go i) :=
    endsWell_ite (hbindings _) endsWell_importOrigin
  exact endsWell_then fun first => endsWell_then fun b => endsWell_ite hequals
    (endsWell_ite (endsWell_then (hrest first)) (endsWell_then (hrest first)))

lemma endsWell_importStatement : EndsWell (importStatement go) := by
  have hclause (marked : Bool) (w : String) : EndsWell (importClause go (marked && w == "type")) :=
    endsWell_importClause _
  refine endsWell_then fun t => endsWell_ite (endsWell_then fun _ => endsWell_semicolon.pure) ?_
  exact endsWell_then fun marked => endsWell_then fun w =>
    endsWell_ite (endsWell_then fun _ => hclause marked w) (hclause marked w)

section

variable (h : GoesWell go)

include h

lemma endsWell_exportedDeclaration (isDefault : Bool) : EndsWell (exportedDeclaration go isDefault) := by
  refine endsWell_then fun start => endsWell_then fun _ =>
    (endsIf_declaration h).bind (fun d => ?_) endsWell_failLast
  exact still_partSince.bind fun _ => still_pure

lemma endsWell_exportDefault : EndsWell (exportDefault go) :=
  endsWell_then fun _ => endsWell_then fun _ => endsWell_ite (endsWell_exportedDeclaration h true)
    (endsWell_then fun _ => endsWell_then fun _ => endsWell_semicolon.pure)

lemma endsWell_exportStatement : EndsWell (exportStatement go) := by
  have hsource : EndsWell exportStatement.source :=
    endsWell_then fun _ => endsWell_then fun _ => endsWell_semicolon.pure
  have hend (e : Export) : EndsWell (do semicolon; return e) := endsWell_semicolon.pure
  have hfrom (_ : Unit) : EndsWell (do
      if ← eatWord "from" then
        let _ ← moduleText
      semicolon
      return Export.typeOnly) :=
    endsWell_then fun _ => endsWell_ite (endsWell_then fun _ => hend _) (hend _)
  refine endsWell_then fun t => endsWell_then fun w => endsWell_then fun p => ?_
  obtain ⟨r, lineEnd⟩ := p
  dsimp only
  split
  · exact endsWell_then fun _ => endsWell_then fun _ =>
      endsWell_ite (endsWell_then fun _ => hsource.pure) hsource.pure
  · exact endsWell_then fun ns => endsWell_then fun _ => endsWell_ite hsource.pure (hend _)
  · exact endsWell_then fun _ => endsWell_then fun _ => hend _
  · refine endsWell_ite (endsWell_then fun _ => endsWell_then fun _ => endsWell_then fun _ => hend _) ?_
    refine endsWell_ite (endsWell_then fun _ => endsWell_then fun b => endsWell_ite ?_ ?_) ?_
    · exact endsWell_then fun _ => endsWell_ite (endsWell_then fun _ => hfrom ()) (hfrom ())
    · exact endsWell_then fun _ => hfrom ()
    · refine endsWell_ite (endsWell_then fun _ => endsWell_exportDefault h) (endsWell_ite ?_ ?_)
      · exact endsWell_then fun _ => endsWell_then fun _ => endsWell_then fun _ => endsWell_then fun _ =>
          endsWell_semicolon.still fun _ => still_partSince.bind fun _ => still_pure
      · exact endsWell_exportedDeclaration h false

/-! ### Other statements -/

lemma endsWell_substatement : EndsWell (substatement go) := h.statement.pure

lemma endsWell_try : EndsWell (do
    block go
    if ← eatWord "catch" then
      if ← isNext "(" then
        bracketed "(" do
          let _ ← go .pattern
          annotation go
          closing ")"
      block go
    if ← eatWord "finally" then block go
    return some ()) := by
  have hblock := endsWell_block h
  have hfinally : Keeps (do
      if ← eatWord "finally" then block go
      return some ()) :=
    keeps_if (post_eatWord _) hblock.pure still_pure.keeps
  have hcatch (_ : Unit) : EndsWell (do
      block go
      if ← eatWord "finally" then block go
      return some ()) :=
    hblock.bind fun _ => hfinally
  exact hblock.bind fun _ =>
    keeps_if (post_eatWord _) (endsWell_then fun _ => endsWell_optional hcatch) hfinally

lemma endsIf_wordStatement (w : String) : EndsIf (wordStatement? go w) := by
  have hsub := endsWell_substatement h
  have hend (_ : Unit) : EndsWell (do semicolon; return some ()) := endsWell_semicolon.pure
  unfold wordStatement?
  refine endsIf_ite (endsIf_then fun _ => endsIf_then fun _ => EndsWell.endsIf ?_) ?_
  · exact hsub.bind fun _ => keeps_if (post_eatWord _) hsub.pure still_pure.keeps
  refine endsIf_ite (endsIf_then fun _ => endsIf_then fun _ => endsIf_then fun _ => hsub.pure.endsIf) ?_
  refine endsIf_ite (endsIf_then fun _ => endsIf_then fun _ => hsub.pure.endsIf) ?_
  refine endsIf_ite (endsIf_then fun _ => endsIf_then fun _ => endsIf_then fun _ => EndsWell.endsIf ?_) ?_
  · have hcondition : EndsWell (parenthesized go) :=
      endsWell_bracketed (endsWell_then fun _ => endsWell_closing isEnd_parenthesis)
    exact hcondition.bind fun _ => keeps_eat isEnd_semicolon fun _ => still_pure
  refine endsIf_ite (endsIf_then fun _ => endsIf_then fun _ => (endsWell_bracketed h.cases).pure.endsIf) ?_
  refine endsIf_ite (endsIf_then fun _ => (endsWell_try h).endsIf) ?_
  refine endsIf_ite (endsIf_then fun _ => endsIf_then fun p => EndsWell.endsIf ?_) ?_
  · exact endsWell_ite (hend ()) (endsWell_then fun _ => hend ())
  refine endsIf_ite (endsIf_then fun _ => endsIf_then fun p => EndsWell.endsIf ?_) endsIf_none
  exact endsWell_ite (hend ()) (endsWell_then fun _ => hend ())

lemma endsWell_expressionStatement : EndsWell (expressionStatement go) := by
  refine endsWell_then fun p => ?_
  split
  · exact endsWell_then fun _ => endsWell_then fun _ => h.statement.pure
  · exact endsWell_then fun _ => endsWell_semicolon

/-- **A statement ends well** if those in it do. -/
theorem endsWell_statementRule : EndsWell (statementRule go) := by
  refine fun c => post_bind (post_next ?_)
  split
  · exact post_failNext
  · exact post_failNext
  · exact (endsWell_block h).pure c
  · next r hr =>
    refine post_bind (post_take (post_pure (.inl ⟨';', by decide, ?_⟩)))
    exact lately_take (w := [';']) hr
  · refine endsWell_then (fun _ => endsWell_then fun _ =>
      endsWell_ite (endsWell_exportStatement h).pure ?_) c
    exact (endsIf_declaration h).bind (fun d => still_pure) endsWell_failLast
  · refine endsWell_then (fun w => endsWell_then fun p => ?_) c
    obtain ⟨r, lineEnd⟩ := p
    refine endsWell_ite (endsWell_then fun _ => endsWell_importStatement) ?_
    refine endsWell_ite (endsWell_then fun _ => (endsWell_exportStatement h).pure) ?_
    refine (endsIf_wordStatement h w).bind (fun _ => still_pure) ?_
    exact (endsIf_declaration h).bind (fun d => still_pure) (endsWell_expressionStatement h).pure

/-! ### What stands in braces -/

lemma endsWell_statementsRule : EndsWell (statementsRule go) :=
  endsWell_eat isEnd_closeBrace still_pure (endsWell_then fun _ =>
    endsWell_ite endsWell_failLast (endsWell_then fun _ => h.statements))

lemma endsWell_casesRule : EndsWell (casesRule go) := by
  have hmore {p : Reader Unit} : EndsWell (do p; go .cases) := endsWell_then fun _ => h.cases
  refine endsWell_eat isEnd_closeBrace still_pure (endsWell_then fun t => ?_)
  refine endsWell_ite endsWell_failLast (endsWell_then fun b => ?_)
  refine endsWell_ite (endsWell_then fun _ => hmore) (endsWell_then fun b => ?_)
  exact endsWell_ite hmore (endsWell_then fun _ => h.cases)

lemma endsWell_classMembersRule : EndsWell (classMembersRule go) := by
  refine endsWell_eat isEnd_closeBrace still_pure (endsWell_then fun b => ?_)
  refine endsWell_ite h.classMembers (endsWell_then fun _ => endsWell_then fun _ => ?_)
  exact endsWell_then fun b => endsWell_ite (endsWell_then fun _ => h.classMembers)
    (endsWell_then fun _ => h.classMembers)

lemma endsWell_enumMembersRule : EndsWell (enumMembersRule go) := by
  refine endsWell_eat isEnd_closeBrace still_pure (endsWell_then fun _ => endsWell_then fun _ => ?_)
  exact endsWell_then fun b => endsWell_ite h.enumMembers (endsWell_closing isEnd_closeBrace)

lemma endsWell_typeMembersRule : EndsWell (typeMembersRule go) := by
  refine endsWell_eat isEnd_closeBrace still_pure (endsWell_then fun b => ?_)
  -- a member is read alike whether a sign stood in front of it or not
  cases b
  all_goals
    refine endsWell_then fun _ => endsWell_ite h.typeMembers ?_
    refine endsWell_then fun _ => endsWell_then fun p => ?_
    obtain ⟨t, lineEnd⟩ := p
    dsimp only
    split
    iterate 3 exact h.typeMembers
    exact endsWell_ite h.typeMembers endsWell_failNext

end

/-- **What is read ends well.** -/
theorem goesWell_run (n : Nat) : GoesWell (run n) := by
  induction n with
  | zero => constructor <;> exact endsWell_failNext
  | succ n ih =>
    constructor
    · exact endsWell_statementRule ih
    · exact endsWell_statementsRule ih
    · exact endsWell_casesRule ih
    · exact endsWell_classMembersRule ih
    · exact endsWell_enumMembersRule ih
    · exact endsWell_typeMembersRule ih

end Mender.Script
