import Mender.Proofs.Script.Cell
import Mender.Proofs.Script.Import

/-!
Reading import lines in front of a script.

Every statement is read from its own first sign, so the statements behind a line are those of the
script without it.
-/

namespace Mender.Script

open Mender.Text

variable {α β : Type}

/-! ### What readers take -/

/-- From a text to come the reader takes a part and leaves the rest. -/
def Takes (p : Reader α) (t : List Char) (a : α) (rest : List Char) : Prop :=
  ∀ c : Cursor, c.rest = t → ∃ d, p.read c = .ok (a, d) ∧ d.rest = rest

variable {t u r s : List Char} {p : Reader α} {a : α}

lemma takes_pure : Takes (pure a) t a t := fun c hc => ⟨c, rfl, hc⟩

lemma Takes.bind {f : α → Reader β} {b : β} (hp : Takes p t a r) (hf : Takes (f a) r b s) :
    Takes (p >>= f) t b s := by
  intro c hc
  obtain ⟨d, hd, hr⟩ := hp c hc
  obtain ⟨e, he, hs⟩ := hf d hr
  refine ⟨e, ?_, hs⟩
  show (Reader.andThen p f).read c = _
  simp only [Reader.andThen, hd, he]

lemma takes_ahead : Takes ahead t (skipGap .blank false t) t := by
  rintro c rfl
  exact ⟨c, rfl, rfl⟩

lemma takes_next : Takes next t (skipGap .blank false t).1 t := by
  rintro c rfl
  exact ⟨c, rfl, rfl⟩

lemma takes_take {start rest : List Char} (hs : start <:+ t) (hr : rest <:+ start) :
    Takes (take start rest) t () rest := by
  rintro c rfl
  exact ⟨_, rfl, rest_take hs hr⟩

lemma takes_partSince {start : List Char} :
    Takes (partSince start) t ⟨⟨start.length, t.length⟩,
      String.ofList (start.take (start.length - t.length))⟩ t := by
  rintro c rfl
  exact ⟨c, rfl, rfl⟩

lemma takes_inBracket {n : Nat} (h : Takes p t a r) : Takes (inBracket n p) t a r := by
  intro c hc
  obtain ⟨d, hd, hr⟩ := h c hc
  exact ⟨d, by simp only [inBracket, hd], hr⟩

lemma takes_lookPast {r : List Char} (h : Takes p t a r) :
    Takes (lookPast p) t (some (skipGap .blank false r)) t := by
  intro c hc
  have hp : Takes (p.andThen fun _ => ahead) t (skipGap .blank false r) r := h.bind takes_ahead
  obtain ⟨d, hd, -⟩ := hp c hc
  refine ⟨c, ?_, hc⟩
  simp only [lookPast, hd]

/-! ### Words and blanks -/

/-- What a lexeme may begin with. -/
def BeginsLexeme (t : List Char) : Prop := ∃ c r, t = c :: r ∧ isGap c = false ∧ c ≠ '/'

lemma skipGap_lexeme (h : BeginsLexeme t) (e : Bool) : skipGap .blank e t = (t, e) := by
  obtain ⟨c, r, rfl, hgap, hslash⟩ := h
  rw [skipGap, hgap, if_neg (by simp), if_neg fun hc => hslash hc.1]

lemma skipGap_space (h : BeginsLexeme t) (e : Bool) : skipGap .blank e (' ' :: t) = (t, e) := by
  have hend : (e || ' ' == '\n') = e := Bool.or_false e
  rw [skipGap, if_pos (by decide), hend, skipGap_lexeme h]

/-- A word of a script. -/
structure IsWord (w : List Char) : Prop where
  head : ∃ c r, w = c :: r ∧ isNameStart c = true
  all : ∀ c ∈ w, isNameChar c = true

/-- A character that ends a word. -/
def EndsWord (c : Char) : Prop := isNameChar c = false ∧ c ≠ '\\'

lemma splitName_word {w : List Char} (hw : ∀ c ∈ w, isNameChar c = true) {c : Char} (hc : EndsWord c)
    (r : List Char) : splitName 0 (w ++ c :: r) = (w, c :: r) := by
  induction w with
  | nil => rw [List.nil_append, splitName, hc.1, if_neg (by simp), if_neg hc.2]
  | cons d w ih =>
    obtain ⟨hd, hw⟩ := List.forall_mem_cons.1 hw
    rw [List.cons_append, splitName, if_pos hd, ih hw]
    rfl

lemma name?_word {w : List Char} (hw : IsWord w) {c : Char} (hc : EndsWord c) (r : List Char) :
    name? (w ++ c :: r) = some (w, c :: r) := by
  have hsplit := splitName_word hw.all hc r
  obtain ⟨d, v, rfl, hd⟩ := hw.head
  rw [List.cons_append] at hsplit ⊢
  rw [name?, if_pos (.inl hd), hsplit]

lemma IsWord.beginsLexeme {w : List Char} (hw : IsWord w) (r : List Char) : BeginsLexeme (w ++ r) := by
  obtain ⟨c, v, rfl, hc⟩ := hw.head
  have hgap : isGap c = false := by
    simp only [isNameStart, Bool.and_eq_true, Bool.not_eq_true'] at hc
    exact hc.1.1.2
  refine ⟨c, v ++ r, rfl, hgap, ?_⟩
  rintro rfl
  exact absurd hc (by decide)

section Word

variable {w : List Char} {c : Char} (hw : IsWord w) (hc : EndsWord c)
  (ht : (skipGap .blank false t).1 = w ++ c :: r)

include hw hc ht

lemma takes_nextWord : Takes nextWord t (String.ofList w) t := by
  refine takes_next.bind ?_
  rw [ht, name?_word hw hc]
  exact takes_pure

lemma takes_name : Takes name t (String.ofList w) (c :: r) := by
  refine takes_next.bind ?_
  rw [ht, name?_word hw hc]
  have hsuffix : w ++ c :: r <:+ t := ht ▸ skipGap_suffix _ _ _
  exact (takes_take hsuffix (List.suffix_append _ _)).bind takes_pure

lemma takes_optionalName : Takes optionalName t (some (String.ofList w)) (c :: r) := by
  refine takes_next.bind ?_
  rw [ht, name?_word hw hc]
  exact (takes_name hw hc ht).bind takes_pure

lemma takes_eatWord {v : String} (hv : v.toList = w) : Takes (eatWord v) t true (c :: r) := by
  refine takes_next.bind ?_
  rw [ht, name?_word hw hc]
  have hsuffix : w ++ c :: r <:+ t := ht ▸ skipGap_suffix _ _ _
  rw [hv]
  simp only [if_true]
  exact (takes_take hsuffix (List.suffix_append _ _)).bind takes_pure

lemma takes_pastWord : Takes pastWord t (skipGap .blank false (c :: r)) t :=
  (takes_lookPast (takes_name hw hc ht)).bind takes_pure

end Word

lemma takes_eat {v : String} (ht : (skipGap .blank false t).1 = v.toList ++ r) :
    Takes (eat v) t true r := by
  refine takes_next.bind ?_
  rw [after?_eq_some_iff.2 ht]
  exact (takes_take (skipGap_suffix _ _ _) (ht ▸ List.suffix_append _ _)).bind takes_pure

lemma takes_eat_not {v : String} (ht : after? v.toList (skipGap .blank false t).1 = none) :
    Takes (eat v) t false t := by
  refine takes_next.bind ?_
  rw [ht]
  exact takes_pure

lemma takes_eatWord_not {v : String} (ht : name? (skipGap .blank false t).1 = none) :
    Takes (eatWord v) t false t := by
  refine takes_next.bind ?_
  rw [ht]
  exact takes_pure

/-! ### The line -/

/-- The import that a line makes. The literal is all that is left of the line but its end. -/
def lineImport (name : String) (left : Nat) : Import where
  typeOnly := false
  source := some ⟨⟨left + 2, left + 1⟩, "\""⟩
  default := some name

def lineStatement (name : String) (length left : Nat) : Statement :=
  ⟨⟨left + length, left⟩, .imports (lineImport name left)⟩

lemma isWord_of (w : String) (h : (w.toList.head?.any isNameStart && w.toList.all isNameChar) = true) :
    IsWord w.toList := by
  obtain ⟨hhead, hall⟩ := Bool.and_eq_true_iff.1 h
  refine ⟨?_, List.all_eq_true.1 hall⟩
  cases hw : w.toList with
  | nil =>
    rw [hw] at hhead
    cases hhead
  | cons c r =>
    rw [hw] at hhead
    exact ⟨c, r, rfl, hhead⟩

lemma endsWord_space : EndsWord ' ' := ⟨by decide, by decide⟩

/-- The literal and the semicolon at the end of a line. -/
lemma takes_importOrigin (go : Rules) (i : Import) (s : List Char) :
    Takes (importOrigin go i) (' ' :: ("from".toList ++ ' ' :: '"' :: ';' :: s))
      (.imports { i with source := some ⟨⟨s.length + 2, s.length + 1⟩, "\""⟩ }) s := by
  have hliteral : (skipGap .blank false (' ' :: '"' :: ';' :: s)).1 = '"' :: ';' :: s := by
    rw [skipGap_space ⟨_, _, rfl, by decide, by decide⟩]
  have hend : (skipGap .blank false (';' :: s)).1 = ';' :: s := by
    rw [skipGap_lexeme ⟨_, _, rfl, by decide, by decide⟩]
  have hmodule : Takes moduleText (' ' :: '"' :: ';' :: s)
      ⟨⟨s.length + 2, s.length + 1⟩, "\""⟩ (';' :: s) := by
    refine takes_next.bind ?_
    rw [hliteral]
    refine (takes_take (hliteral ▸ skipGap_suffix _ _ _) (List.suffix_cons _ _)).bind ?_
    have hlength : ('"' :: ';' :: s).length - (';' :: s).length = 1 := by simp
    have hpart : Takes (partSince ('"' :: ';' :: s)) (';' :: s) _ _ := takes_partSince
    rw [hlength] at hpart
    exact hpart
  have hfrom : Takes (expectWord "from") (' ' :: ("from".toList ++ ' ' :: '"' :: ';' :: s)) ()
      (' ' :: '"' :: ';' :: s) := by
    have hword := isWord_of "from" (by decide)
    exact (takes_eatWord hword endsWord_space
      (by rw [skipGap_space (hword.beginsLexeme _)]) rfl).bind takes_pure
  have horigin : Takes (origin go) (' ' :: '"' :: ';' :: s)
      ⟨⟨s.length + 2, s.length + 1⟩, "\""⟩ (';' :: s) := by
    have hno (v : String) : Takes (eatWord v) (';' :: s) false (';' :: s) :=
      takes_eatWord_not (by rw [hend]; rfl)
    exact hmodule.bind ((hno _).bind ((hno _).bind takes_pure))
  have hsemicolon : Takes semicolon (';' :: s) () s :=
    (takes_eat (v := ";") (by rw [hend]; rfl)).bind takes_pure
  exact hfrom.bind (horigin.bind (hsemicolon.bind takes_pure))

/-- A name that an import line may bring; it begins with a capital letter. -/
structure IsLineName (w : List Char) : Prop where
  word : IsWord w
  head : ∃ c r, w = c :: r ∧ c.isUpper = true

lemma IsLineName.ne {w : List Char} (hw : IsLineName w) {v : String}
    (hv : v.toList.head?.any Char.isUpper = false) : String.ofList w ≠ v := by
  rintro rfl
  obtain ⟨c, r, rfl, hc⟩ := hw.head
  rw [String.toList_ofList] at hv
  exact absurd hc (Bool.eq_false_iff.1 hv)

/-- What follows the name in a line. -/
def lineEnd (s : List Char) : List Char := ' ' :: ("from".toList ++ ' ' :: '"' :: ';' :: s)

variable {w : List Char}

lemma takes_importClause (go : Rules) (hw : IsLineName w) (s : List Char) :
    Takes (importClause go false) (' ' :: (w ++ lineEnd s))
      (.imports (lineImport (String.ofList w) s.length)) s := by
  have hfrom := (isWord_of "from" (by decide)).beginsLexeme (' ' :: '"' :: ';' :: s)
  have hno (v : String) (hv : after? v.toList ("from".toList ++ ' ' :: '"' :: ';' :: s) = none) :
      Takes (eat v) (lineEnd s) false (lineEnd s) := by
    refine takes_eat_not ?_
    rw [lineEnd, skipGap_space hfrom]
    exact hv
  have hfirst : Takes optionalName (' ' :: (w ++ lineEnd s)) (some (String.ofList w)) (lineEnd s) :=
    takes_optionalName hw.word endsWord_space (by rw [skipGap_space (hw.word.beginsLexeme _)]; rfl)
  exact hfirst.bind ((hno "=" rfl).bind ((hno "," rfl).bind (takes_importOrigin go _ s)))

lemma takes_importStatement (go : Rules) (hw : IsLineName w) (s : List Char) :
    Takes (importStatement go) (' ' :: (w ++ lineEnd s))
      (.imports (lineImport (String.ofList w) s.length)) s := by
  have hnext : (skipGap .blank false (' ' :: (w ++ lineEnd s))).1 = w ++ lineEnd s := by
    rw [skipGap_space (hw.word.beginsLexeme _)]
  have hword : Takes nextWord (' ' :: (w ++ lineEnd s)) (String.ofList w) (' ' :: (w ++ lineEnd s)) :=
    takes_nextWord hw.word endsWord_space hnext
  have hmarks : Takes marksTypes (' ' :: (w ++ lineEnd s)) false (' ' :: (w ++ lineEnd s)) := by
    refine hword.bind ?_
    have htype : (String.ofList w == "type") = false :=
      beq_eq_false_iff_ne.2 (hw.ne (by decide))
    have htypeof : (String.ofList w == "typeof") = false :=
      beq_eq_false_iff_ne.2 (hw.ne (by decide))
    rw [htype, htypeof]
    exact takes_pure
  have hstring : string? (w ++ lineEnd s) = none := by
    obtain ⟨c, r, rfl, hc⟩ := hw.head
    rw [List.cons_append]
    unfold string?
    split
    · next heq =>
      cases heq
      cases hc
    · rfl
  refine takes_next.bind ?_
  rw [hnext, hstring]
  exact hmarks.bind (hword.bind (takes_importClause go hw s))

/-- **An import line is read as what it says**, whatever follows it. -/
theorem takes_importLine (n : Nat) (hw : IsLineName w) (s : List Char) :
    Takes (run (n + 1) .statement) ("import".toList ++ ' ' :: (w ++ lineEnd s))
      (.imports (lineImport (String.ofList w) s.length)) s := by
  have hword := isWord_of "import" (by decide)
  have hnext : (skipGap .blank false ("import".toList ++ ' ' :: (w ++ lineEnd s))).1 =
      "import".toList ++ ' ' :: (w ++ lineEnd s) := by
    rw [skipGap_lexeme (hword.beginsLexeme _)]
  have hpast := takes_pastWord hword endsWord_space hnext
  rw [skipGap_space (hw.word.beginsLexeme _)] at hpast
  have hhead : (w ++ lineEnd s).head? ≠ some '(' ∧ (w ++ lineEnd s).head? ≠ some '.' := by
    obtain ⟨c, r, rfl, hc⟩ := hw.head
    constructor <;> rintro h <;> cases h <;> cases hc
  show Takes (statementRule (run n)) _ _ _
  refine takes_next.bind ?_
  rw [hnext]
  refine (takes_nextWord hword endsWord_space hnext).bind (hpast.bind ?_)
  have hcond : String.ofList "import".toList = "import" ∧ (w ++ lineEnd s).head? ≠ some '(' ∧
      (w ++ lineEnd s).head? ≠ some '.' := ⟨String.ofList_toList, hhead⟩
  dsimp only
  rw [if_pos hcond]
  exact (takes_name hword endsWord_space hnext).bind (takes_importStatement (run n) hw s)

/-! ### Readers that fail -/

/-- From a text to come the reader gets nowhere. -/
def Fails (p : Reader α) (t : List Char) : Prop := ∀ c : Cursor, c.rest = t → ∃ n, p.read c = .error n

lemma fails_failLast : Fails (failLast : Reader α) t := fun _ _ => ⟨_, rfl⟩

lemma Fails.bind {f : α → Reader β} (hp : Fails p t) : Fails (p >>= f) t := by
  intro c hc
  obtain ⟨n, hn⟩ := hp c hc
  refine ⟨n, ?_⟩
  show (Reader.andThen p f).read c = _
  simp only [Reader.andThen, hn]

lemma Takes.fails {f : α → Reader β} (hp : Takes p t a r) (hf : Fails (f a) r) : Fails (p >>= f) t := by
  intro c hc
  obtain ⟨d, hd, hr⟩ := hp c hc
  obtain ⟨n, hn⟩ := hf d hr
  refine ⟨n, ?_⟩
  show (Reader.andThen p f).read c = _
  simp only [Reader.andThen, hd, hn]

lemma Fails.lookPast (hp : Fails p t) : Takes (lookPast p) t none t := by
  intro c hc
  have hfails : Fails (p.andThen fun _ => ahead) t := hp.bind
  obtain ⟨n, hn⟩ := hfails c hc
  refine ⟨c, ?_, hc⟩
  simp only [Script.lookPast, hn]

section NoWord

variable (ht : name? (skipGap .blank false t).1 = none)

include ht

lemma fails_name : Fails name t := by
  refine takes_next.fails ?_
  rw [ht]
  exact fails_failLast

lemma takes_nextWord_none : Takes nextWord t "" t := by
  refine takes_next.bind ?_
  rw [ht]
  exact takes_pure

lemma takes_pastWord_none : Takes pastWord t ([], true) t :=
  (fails_name ht).lookPast.bind takes_pure

end NoWord

/-- A line that names an interpreter is no statement. -/
lemma fails_interpreter (n : Nat) (r : List Char) :
    Fails (run (n + 3) .statement) ('#' :: '!' :: r) := by
  have hgap : (skipGap .blank false ('#' :: '!' :: r)).1 = '#' :: '!' :: r := by
    rw [skipGap_lexeme ⟨_, _, rfl, by decide, by decide⟩]
  have hmark : (skipGap .blank false ('!' :: r)).1 = '!' :: r := by
    rw [skipGap_lexeme ⟨_, _, rfl, by decide, by decide⟩]
  have hword : name? (skipGap .blank false ('#' :: '!' :: r)).1 = none := by
    rw [hgap]
    rfl
  have hoperand : Fails (run (n + 1) .operand) ('#' :: '!' :: r) := by
    show Fails (operandRule (run n)) _
    refine takes_next.fails ?_
    rw [hgap]
    refine (takes_take (List.suffix_refl _) (List.suffix_cons _ _)).fails ?_
    exact (fails_name (by rw [hmark]; rfl)).bind
  have hexpr : Fails (run (n + 2) (.expr false)) ('#' :: '!' :: r) := hoperand.bind
  have hpast := takes_pastWord_none hword
  show Fails (statementRule (run (n + 2))) _
  refine takes_next.fails ?_
  rw [hgap]
  refine (takes_nextWord_none hword).fails (hpast.fails ?_)
  have hno : Takes (wordStatement? (run (n + 2)) "") ('#' :: '!' :: r) none ('#' :: '!' :: r) := takes_pure
  have hnone : Takes (declaration? (run (n + 2))) ('#' :: '!' :: r) none ('#' :: '!' :: r) :=
    (takes_nextWord_none hword).bind (hpast.bind takes_pure)
  refine hno.fails (hnone.fails (Fails.bind ?_))
  exact hpast.fails (hexpr.bind).bind

/-! ### Statements behind a line -/

/-- Behind the line of a comment of markup less is left. -/
lemma length_dropWhile_markup (h : startsWith "<!--".toList t ∨ startsWith "-->".toList t) :
    (t.dropWhile (· != '\n')).length < t.length := by
  cases t with
  | nil => exact absurd h (by decide)
  | cons c t =>
    have hc : c ≠ '\n' := by
      rintro rfl
      exact absurd h (by simp [startsWith, after?])
    rw [List.dropWhile_cons, if_pos (bne_iff_ne.2 hc)]
    exact Nat.lt_succ_of_le (List.dropWhile_suffix _).length_le

/-- Enough fuel finds the same start. -/
lemma statementStart_eq {n m : Nat} (hn : t.length ≤ n) (hm : t.length ≤ m) :
    statementStart n t = statementStart m t := by
  induction n generalizing m t with
  | zero =>
    obtain rfl : t = [] := List.length_eq_zero_iff.1 (Nat.le_zero.1 hn)
    cases m <;> rfl
  | succ n ih =>
    cases m with
    | zero =>
      obtain rfl : t = [] := List.length_eq_zero_iff.1 (Nat.le_zero.1 hm)
      rfl
    | succ m =>
      have hgap := (skipGap_suffix .blank false t).length_le
      simp only [statementStart]
      generalize (skipGap .blank false t).1 = s at hgap ⊢
      split
      · next hmark =>
        have hlt := length_dropWhile_markup hmark
        exact ih (by omega) (by omega)
      · rfl

/-- A limit that is not reached does not matter. -/
lemma readStatements_eq {n m : Nat} (hn : t.length < n) (hm : t.length < m) :
    readStatements n t = readStatements m t := by
  induction n generalizing m t with
  | zero => omega
  | succ n ih =>
    obtain ⟨m, rfl⟩ : ∃ k, m = k + 1 := ⟨m - 1, by omega⟩
    have hstart := (statementStart_suffix t.length t).length_le
    rw [readStatements, readStatements]
    generalize statementStart t.length t = s at hstart ⊢
    split
    · rfl
    · next hne =>
      have hlt := readStatement_lt hne
      have hleft := ih (t := (readStatement s).2.2) (m := m) (by omega) (by omega)
      simp only [hleft]

/-- The statements of some signs. -/
def statementsOf (t : List Char) : List Statement := (readStatements (t.length + 1) t).1

/-- The first statement and those of what is left behind it. -/
lemma statementsOf_of_start {s : List Char} (h : statementStart t.length t = s) (hs : s ≠ []) :
    statementsOf t = (readStatement s).1.toList ++ statementsOf (readStatement s).2.2 := by
  have hstart := (statementStart_suffix t.length t).length_le
  have hlt := readStatement_lt hs
  rw [h] at hstart
  have hleft := readStatements_eq (t := (readStatement s).2.2) (n := t.length)
    (m := (readStatement s).2.2.length + 1) (by omega) (by omega)
  obtain ⟨c, r, rfl⟩ := List.exists_cons_of_ne_nil hs
  rw [statementsOf, readStatements, h]
  simp only [hleft]
  rfl

/-- Only the first sign of a statement on matters. -/
lemma statementsOf_congr (h : statementStart t.length t = statementStart s.length s) :
    statementsOf t = statementsOf s := by
  by_cases hs : statementStart s.length s = []
  · rw [statementsOf, statementsOf, readStatements, readStatements, h, hs]
  · rw [statementsOf_of_start h hs, statementsOf_of_start rfl hs]

/-- What is passed over in front does not matter. -/
lemma statementsOf_skipGap (h : (skipGap .blank false t).1 = (skipGap .blank false s).1) :
    statementsOf t = statementsOf s := by
  refine statementsOf_congr ?_
  rw [statementStart_eq (m := t.length + s.length + 1) (Nat.le_refl _) (by omega),
    statementStart_eq (t := s) (m := t.length + s.length + 1) (Nat.le_refl _) (by omega)]
  simp only [statementStart, h]

/-- A blank in front does not matter. -/
lemma statementsOf_gap {c : Char} (hc : isGap c = true) (t : List Char) :
    statementsOf (c :: t) = statementsOf t := by
  refine statementsOf_skipGap ?_
  rw [skipGap, if_pos hc]
  exact skipGap_fst _ _ _ _

/-- A first line that names an interpreter holds no statement. -/
lemma statementsOf_skipInterpreter (t : List Char) : statementsOf (skipInterpreter t) = statementsOf t := by
  unfold skipInterpreter
  split
  · next h =>
    obtain ⟨r, hr⟩ := Option.isSome_iff_exists.1 h
    obtain rfl : t = '#' :: '!' :: r := after?_eq_some_iff.1 hr
    have hstart : statementStart ('#' :: '!' :: r).length ('#' :: '!' :: r) = '#' :: '!' :: r := by
      rw [List.length_cons, statementStart, skipGap_lexeme ⟨_, _, rfl, by decide, by decide⟩,
        if_neg (by simp [startsWith, after?])]
    have hread : readStatement ('#' :: '!' :: r) =
        (none, (readStatement ('#' :: '!' :: r)).2.1, giveUp ('#' :: '!' :: r)) := by
      have hfuel : fuelFor ('#' :: '!' :: r) = 32 * (('#' :: '!' :: r).length + 4) - 3 + 3 := by
        unfold fuelFor
        omega
      obtain ⟨n, hn⟩ := fails_interpreter (32 * (('#' :: '!' :: r).length + 4) - 3) r
        (.atStart ('#' :: '!' :: r)) rfl
      rw [readStatement, hfuel, hn]
    rw [statementsOf_of_start hstart (List.cons_ne_nil _ _), hread]
    have hgiveUp : giveUp ('#' :: '!' :: r) =
        (('#' :: '!' :: r).dropWhile (· != '\n')).tail := by
      unfold giveUp
      rw [h]
      simp only [Bool.true_or, Bool.true_and]
      cases ('#' :: '!' :: r).dropWhile (· != '\n') <;> simp
    rw [hgiveUp]
    cases hline : ('#' :: '!' :: r).dropWhile (· != '\n') with
    | nil => rfl
    | cons c s =>
      have hc : c = '\n' := by
        have := List.head_dropWhile_not (· != '\n') (l := '#' :: '!' :: r) (by simp [hline])
        simpa [hline] using this
      rw [hc, statementsOf_gap (by decide)]
      rfl
  · rfl

/-- A statement that is taken is the first one, and the others are those of the rest. -/
lemma statementsOf_takes {form : Form} (h : Takes (run (fuelFor t) .statement) t form r)
    (hgap : (skipGap .blank false t).1 = t)
    (hmark : ¬ (startsWith "<!--".toList t ∨ startsWith "-->".toList t)) (hlt : r.length < t.length) :
    statementsOf t = ⟨⟨t.length, r.length⟩, form⟩ :: statementsOf r := by
  have hstart : statementStart t.length t = t := by
    rw [statementStart_eq (m := t.length + 1) (Nat.le_refl _) (Nat.le_succ _), statementStart, hgap,
      if_neg hmark]
  obtain ⟨c, hread, hrest⟩ := h (.atStart t) rfl
  rw [statementsOf_of_start hstart (List.length_pos_iff.1 (Nat.zero_lt_of_lt hlt)), readStatement, hread]
  simp only [hrest, if_pos hlt]
  rfl

/-- **A line in front of a script is one more statement**, and the others stay. -/
theorem statementsOf_importLine (hw : IsLineName w) (s : List Char) :
    statementsOf ("\n  import ".toList ++ w ++ " from \";".toList ++ s) =
      lineStatement (String.ofList w) (w.length + 15) s.length :: statementsOf s := by
  have htext : "\n  import ".toList ++ w ++ " from \";".toList ++ s =
      '\n' :: ' ' :: ' ' :: ("import".toList ++ ' ' :: (w ++ lineEnd s)) := by
    simp [lineEnd]
  rw [htext, statementsOf_gap (by decide), statementsOf_gap (by decide), statementsOf_gap (by decide)]
  generalize ht : "import".toList ++ ' ' :: (w ++ lineEnd s) = t
  have hlength : t.length = s.length + (w.length + 15) := by
    have hend : (lineEnd s).length = s.length + 8 := rfl
    have himport : "import".toList.length = 6 := rfl
    rw [← ht, List.length_append, List.length_cons, List.length_append, hend, himport]
    omega
  have hgap : (skipGap .blank false t).1 = t := by
    rw [← ht, skipGap_lexeme ((isWord_of "import" (by decide)).beginsLexeme _)]
  have htakes := takes_importLine (32 * (t.length + 4) - 1) hw s
  rw [ht, ← fuelFor_eq] at htakes
  rw [statementsOf_takes htakes hgap (by rw [← ht]; simp [startsWith, after?]) (by omega), hlength]
  rfl

end Mender.Script
