import Mender.Proofs.Script.LiteralCells

/-!
Declarations with literals as defaults.

A declaration in front of a script is read as it is written, whatever its literals hold and whatever
comes behind it.
-/

namespace Mender.Script

open Mender.Text

/-! ### Signs -/

/-- A sign that a lexeme of its own begins with. -/
def IsSign (c : Char) : Prop := isGap c = false ∧ c ≠ '/'

instance : DecidablePred IsSign := fun _ => inferInstanceAs (Decidable (_ ∧ _))

section

variable {c : Char} (hc : IsSign c) (t : List Char)
include hc

lemma skipGap_sign (e : Bool) : skipGap .blank e (c :: t) = (c :: t, e) := skipGap_lexeme ⟨c, t, rfl, hc⟩ e

lemma skipGap_spaceSign (e : Bool) : skipGap .blank e (' ' :: c :: t) = (c :: t, e) :=
  skipGap_space ⟨c, t, rfl, hc⟩ e

lemma takes_sign {v : String} (hv : v.toList = [c]) : Takes (eat v) (c :: t) true t :=
  takes_eat (by rw [skipGap_sign hc, hv, List.singleton_append])

lemma takes_sign_not {v : String} (hv : after? v.toList (c :: t) = none) : Takes (eat v) (c :: t) false (c :: t) :=
  takes_eat_not (by rwa [skipGap_sign hc])

end

lemma isSign_semicolon : IsSign ';' := by decide

lemma isSign_equals : IsSign '=' := by decide

lemma isSign_comma : IsSign ',' := by decide

lemma isSign_brace : IsSign '}' := by decide

lemma takes_semicolon (t : List Char) : Takes semicolon (';' :: t) () t :=
  (takes_sign isSign_semicolon t (v := ";") (by decide)).bind takes_pure

lemma takes_comma_not (t : List Char) : Takes (eat ",") (';' :: t) false (';' :: t) :=
  takes_sign_not isSign_semicolon t rfl

/-! ### Names -/

/-- A name as it stands in a declaration. -/
structure PlainName where
  letters : List Char
  isWord : IsWord letters

namespace PlainName

variable (w : PlainName) {c : Char} {t r : List Char}

def name : String := String.ofList w.letters

lemma after?_eq_none {d : Char} (hd : isNameStart d = false) (ds : List Char) :
    after? (d :: ds) (w.letters ++ t) = none := by
  obtain ⟨c, v, hw, hc⟩ := w.isWord.head
  have hne : d ≠ c := by
    rintro rfl
    rw [hc] at hd
    cases hd
  rw [hw, List.cons_append, after?, if_neg hne]

lemma skipGap_letters (t : List Char) :
    skipGap .blank false (' ' :: (w.letters ++ t)) = (w.letters ++ t, false) :=
  Script.skipGap_space (w.isWord.beginsLexeme _) false

lemma skipGap_space (t : List Char) :
    (skipGap .blank false (' ' :: (w.letters ++ t))).1 = w.letters ++ t :=
  congrArg Prod.fst (w.skipGap_letters t)

lemma takes_pattern (hc : EndsWord c) (n : Nat) :
    Takes (run (n + 1) .pattern) (' ' :: (w.letters ++ c :: t)) (.name w.name) (c :: t) := by
  have hname : Takes Script.name (' ' :: (w.letters ++ c :: t)) w.name (c :: t) :=
    takes_name w.isWord hc (w.skipGap_space _)
  show Takes (patternRule (run n)) _ _ _
  refine takes_next.bind ?_
  rw [w.skipGap_space]
  obtain ⟨d, v, hw, hd⟩ := w.isWord.head
  rw [hw, List.cons_append]
  rw [hw, List.cons_append] at hname
  split
  · next heq =>
    obtain ⟨rfl, -⟩ := List.cons.inj heq
    exact absurd hd (by decide)
  · next heq =>
    obtain ⟨rfl, -⟩ := List.cons.inj heq
    exact absurd hd (by decide)
  · exact hname.bind takes_pure

end PlainName

/-! ### Exported variables -/

section

variable (l : StringLiteral) (w : PlainName) {t : List Char}

lemma endsDefault_semicolon (t : List Char) : EndsDefault (';' :: t) :=
  ⟨';', t, by rw [skipGap_sign isSign_semicolon], .inl rfl⟩

/-- What stands behind the name of a variable. -/
def valueSigns (t : List Char) : List Char := ' ' :: '=' :: ' ' :: (signs l.cells ++ t)

lemma takes_firstValue (ht : EndsDefault t) (n : Nat) :
    Takes (firstValue (run (n + 3)) false) (valueSigns l t) (some (.literal l.kind (l.part t))) t := by
  have hvalue : Takes (run (n + 3) (.expr false) >>= fun e => pure (some e)) (' ' :: (signs l.cells ++ t))
      (some (.literal l.kind (l.part t))) t := (l.takes_expr ht n).bind takes_pure
  have hnext : (skipGap .blank false (' ' :: (signs l.cells ++ t))).1 = signs l.cells ++ t := by
    rw [skipGap_space (l.beginsLexeme t)]
  refine takes_next.bind ?_
  rw [valueSigns, skipGap_spaceSign isSign_equals]
  refine (takes_take (List.suffix_cons _ _) (List.suffix_cons _ _)).bind ?_
  refine takes_next.bind ?_
  rw [hnext]
  rcases l.signs_cells with ⟨-, hsigns⟩ | ⟨-, -, hsigns⟩ <;> rw [hsigns] at hvalue ⊢ <;> exact hvalue

lemma takes_declarators (n : Nat) :
    Takes (run (n + 4) .declarators) (' ' :: (w.letters ++ valueSigns l (';' :: t)))
      [⟨.name w.name, some (.literal l.kind (l.part (';' :: t)))⟩] (';' :: t) := by
  have hno (v : String) (hv : after? v.toList ('=' :: ' ' :: (signs l.cells ++ ';' :: t)) = none) :
      Takes (eat v) (valueSigns l (';' :: t)) false (valueSigns l (';' :: t)) := by
    refine takes_eat_not ?_
    rw [valueSigns, skipGap_spaceSign isSign_equals]
    exact hv
  have htyped : Takes ( annotation (run (n + 3))) (valueSigns l (';' :: t)) () (valueSigns l (';' :: t)) :=
    (hno ":" rfl).bind takes_pure
  have hvalue := takes_firstValue l (endsDefault_semicolon t) n
  show Takes (declaratorsRule (run (n + 3))) _ _ _
  exact (w.takes_pattern endsWord_space (n + 2)).bind ((hno "!" rfl).bind (htyped.bind
    (hvalue.bind ((takes_comma_not t).bind takes_pure))))

lemma takes_bindings (n : Nat) :
    Takes (bindings (run (n + 4))) (' ' :: (w.letters ++ valueSigns l (';' :: t)))
      (.bindings [⟨.name w.name, some (.literal l.kind (l.part (';' :: t)))⟩]) t :=
  (takes_declarators l w n).bind ((takes_semicolon t).bind takes_pure)

lemma startsName_word (t : List Char) : startsName (w.letters ++ t) = true := by
  obtain ⟨c, v, hw, hc⟩ := w.isWord.head
  rw [hw, List.cons_append]
  exact Bool.or_eq_true_iff.2 (.inl hc)

/-- The signs from the word `let` on. -/
def letSigns (t : List Char) : List Char := "let".toList ++ ' ' :: t

lemma beginsLexeme_let (t : List Char) : BeginsLexeme (letSigns t) :=
  (isWord_of "let" (by decide)).beginsLexeme _

/-- A declaration that the word `let` begins. -/
lemma takes_declaration (go : Rules) {d : Declaration} {s u : List Char}
    (hnext : (skipGap .blank false s).1 = letSigns t)
    (hnear : startsName (skipGap .blank false (' ' :: t)).1 = true ∨
      (skipGap .blank false (' ' :: t)).1.head? = some '{')
    (hline : (skipGap .blank false (' ' :: t)).2 = false) (h : Takes (bindings go) (' ' :: t) d u) :
    Takes (declaration? go) s (some d) u := by
  have hword := isWord_of "let" (by decide)
  refine (takes_nextWord hword endsWord_space hnext).bind ((takes_pastWord hword endsWord_space hnext).bind ?_)
  generalize skipGap .blank false (' ' :: t) = q at hnear hline ⊢
  obtain ⟨r, e⟩ := q
  obtain rfl : e = false := hline
  have hlet : "let" = "let" ∧ ((startsName r && !false) = true ∨
      (!false) = true ∧ (r.head? = some '[' ∨ r.head? = some '{')) :=
    ⟨rfl, hnear.imp (fun h => by rw [h]; rfl) fun h => ⟨rfl, .inr h⟩⟩
  rw [String.ofList_toList]
  dsimp only
  rw [if_neg (by decide), if_neg (by decide), if_pos hlet]
  exact (takes_name hword endsWord_space hnext).bind (h.bind takes_pure)

/-- The signs of an exported variable in front of a text. -/
def exportSigns (t : List Char) : List Char :=
  "export".toList ++ ' ' :: letSigns (w.letters ++ valueSigns l (';' :: t))

/-- The declaration of an exported variable in front of a text. -/
def exported (t : List Char) : Declaration :=
  .bindings [⟨.name w.name, some (.literal l.kind (l.part (';' :: t)))⟩]

/-- The text of the variable behind the word `export`. -/
def variableSigns (t : List Char) : List Char := letSigns (w.letters ++ valueSigns l (';' :: t))

lemma skipGap_let (u : List Char) : skipGap .blank false (' ' :: letSigns u) = (letSigns u, false) :=
  skipGap_space (beginsLexeme_let _) false

lemma takes_variable (n : Nat) :
    Takes (declaration? (run (n + 4))) (' ' :: variableSigns l w t) (some (exported l w t)) t :=
  takes_declaration _ (congrArg Prod.fst (skipGap_let _))
    (.inl (by rw [w.skipGap_letters]; exact startsName_word w _)) (by rw [w.skipGap_letters])
    (takes_bindings l w n)

/-- What is read behind the word `export`. -/
lemma takes_exportStatement (n : Nat) :
    Takes (exportStatement (run (n + 4))) (' ' :: variableSigns l w t)
      (.declaration (exported l w t) ⟨(variableSigns l w t).length, t.length⟩ false) t := by
  have hword := isWord_of "let" (by decide)
  have hgap : skipGap .blank false (' ' :: variableSigns l w t) = (variableSigns l w t, false) :=
    skipGap_let _
  have hnext : (skipGap .blank false (' ' :: variableSigns l w t)).1 =
      "let".toList ++ ' ' :: (w.letters ++ valueSigns l (';' :: t)) := congrArg Prod.fst hgap
  have hdecorators : Takes (run (n + 4) .decorators) (' ' :: variableSigns l w t) ()
      (' ' :: variableSigns l w t) := by
    have hno : Takes (eat "@") (' ' :: variableSigns l w t) false (' ' :: variableSigns l w t) :=
      takes_eat_not (by rw [hnext]; rfl)
    exact hno.bind takes_pure
  have hexported : Takes (exportedDeclaration (run (n + 4)) false) (' ' :: variableSigns l w t)
      (.declaration (exported l w t) ⟨(variableSigns l w t).length, t.length⟩ false) t := by
    refine takes_next.bind ?_
    rw [hgap]
    exact hdecorators.bind ((takes_variable l w n).bind (takes_partSince.bind takes_pure))
  refine takes_next.bind ((takes_nextWord hword endsWord_space hnext).bind
    ((takes_pastWord hword endsWord_space hnext).bind ?_))
  rw [hnext, String.ofList_toList, w.skipGap_letters]
  dsimp only
  exact hexported

/-- **An exported variable is read as what it says**, whatever follows it. -/
theorem takes_export (n : Nat) : ∃ extent, Takes (run (n + 5) .statement) (exportSigns l w t)
    (.exports (.declaration (exported l w t) extent false)) t := by
  have hword := isWord_of "export" (by decide)
  have hnext : (skipGap .blank false (exportSigns l w t)).1 =
      "export".toList ++ ' ' :: variableSigns l w t := by
    have hbegins : BeginsLexeme (exportSigns l w t) := hword.beginsLexeme _
    rw [skipGap_lexeme hbegins]
    rfl
  have hpast := takes_pastWord hword endsWord_space hnext
  rw [variableSigns, skipGap_let, ← variableSigns] at hpast
  refine ⟨⟨(variableSigns l w t).length, t.length⟩, ?_⟩
  show Takes (statementRule (run (n + 4))) _ _ _
  refine takes_next.bind ?_
  rw [hnext]
  refine (takes_nextWord hword endsWord_space hnext).bind (hpast.bind ?_)
  rw [String.ofList_toList]
  dsimp only
  have hgoes : "export" = "export" ∧ startsExport (variableSigns l w t) = true ∧
      ((!false) = true ∨ goesOn (variableSigns l w t) = true) := ⟨rfl, rfl, .inl rfl⟩
  rw [if_neg fun h => absurd h.1 (by decide), if_pos hgoes]
  exact (takes_name hword endsWord_space hnext).bind ((takes_exportStatement l w n).bind takes_pure)

end

/-! ### Fields of the parameters -/

namespace PlainName

variable (w : PlainName) {t : List Char}

lemma quote_notMem : '"' ∉ w.letters := fun h => absurd (w.isWord.all _ h) (by decide)

/-- The place of a name in front of a text. -/
def part (t : List Char) : Part := ⟨⟨(w.letters ++ t).length, t.length⟩, w.name⟩

lemma string?_eq_none : string? (w.letters ++ t) = none := by
  obtain ⟨c, v, hw, hc⟩ := w.isWord.head
  rw [hw, List.cons_append]
  unfold string?
  split
  · next heq =>
    obtain ⟨rfl, -⟩ := List.cons.inj heq
    exact absurd hc (by decide)
  · rfl

lemma number?_eq_none : number? (w.letters ++ t) = none := by
  obtain ⟨c, v, hw, hc⟩ := w.isWord.head
  have hdigit : c.isDigit = false := by
    simp only [isNameStart, Bool.and_eq_true, Bool.not_eq_true'] at hc
    exact hc.2
  rw [hw, List.cons_append]
  unfold number?
  split
  · next heq =>
    obtain ⟨rfl, -⟩ := List.cons.inj heq
    exact absurd hc (by decide)
  · next heq =>
    obtain ⟨rfl, -⟩ := List.cons.inj heq
    exact absurd hc (by decide)
  · next heq =>
    obtain ⟨rfl, -⟩ := List.cons.inj heq
    rw [hdigit, if_neg Bool.false_ne_true]
  · rfl

lemma takes_memberName {c : Char} (hc : EndsWord c) (go : Rules) :
    Takes (memberName go) (' ' :: (w.letters ++ c :: t)) () (c :: t) := by
  have hname : Takes Script.name (' ' :: (w.letters ++ c :: t)) w.name (c :: t) :=
    takes_name w.isWord hc (w.skipGap_space _)
  have hstring : string? (w.letters ++ c :: t) = none := w.string?_eq_none
  have hnumber : number? (w.letters ++ c :: t) = none := w.number?_eq_none
  obtain ⟨d, v, hw, hd⟩ := w.isWord.head
  refine takes_next.bind ?_
  rw [w.skipGap_space]
  rw [hw, List.cons_append] at hname hstring hnumber ⊢
  split
  · next heq =>
    obtain ⟨rfl, -⟩ := List.cons.inj heq
    exact absurd hd (by decide)
  · next heq =>
    obtain ⟨rfl, -⟩ := List.cons.inj heq
    exact absurd hd (by decide)
  · rw [hstring, hnumber]
    exact hname.bind takes_pure

lemma takes_key {c : Char} (hc : EndsWord c) (go : Rules) :
    Takes (patternKey go) (' ' :: (w.letters ++ c :: t)) (w.part (c :: t)) (c :: t) := by
  have hpart : Takes (partSince (w.letters ++ c :: t)) (c :: t) (w.part (c :: t)) (c :: t) := by
    have hlength : (w.letters ++ c :: t).length - (c :: t).length = w.letters.length := by simp
    have htake : Takes (partSince (w.letters ++ c :: t)) (c :: t) _ _ := takes_partSince
    rw [hlength, List.take_left] at htake
    exact htake
  refine takes_next.bind ?_
  rw [w.skipGap_space]
  exact (w.takes_memberName hc go).bind hpart

end PlainName

/-- A field of an object pattern: a name, a name with a default, or a key with a name for its value. -/
inductive FieldText
  | bare (w : PlainName)
  | default (w : PlainName) (l : StringLiteral)
  | renamed (key w : PlainName) (l : StringLiteral)

namespace FieldText

def cells : FieldText → List Cell
  | bare w => w.letters.map .plain
  | default w l => (w.letters ++ " = ".toList).map .plain ++ l.cells
  | renamed key w l => (key.letters ++ ": ".toList ++ w.letters ++ " = ".toList).map .plain ++ l.cells

/-- The field in front of a text. -/
def field (t : List Char) : FieldText → Field
  | bare w => .short w.name
  | default w l => .shortDefault w.name (.literal l.kind (l.part t))
  | renamed key w l => .pair (key.part (':' :: ' ' :: (w.letters ++ valueSigns l t)))
      (.withDefault (.name w.name) (.literal l.kind (l.part t)))

end FieldText

section

variable {t : List Char}

lemma endsWord_colon : EndsWord ':' := ⟨by decide, by decide⟩

lemma signs_letters (w : PlainName) : signs (w.letters.map .plain) = w.letters := signs_map_plain w.quote_notMem

/-- What may come behind a field. -/
structure EndsField (t : List Char) : Prop where
  ends : EndsDefault t
  word : ∃ c r, t = c :: r ∧ EndsWord c

/-- A sign that does not come next is not taken. -/
lemma EndsDefault.takes_eat (ht : EndsDefault t) {v : String} {d : Char} {ds : List Char} (hv : v.toList = d :: ds)
    (hd : d ≠ ';' ∧ d ≠ ',' ∧ d ≠ '}') : Takes (eat v) t false t := by
  obtain ⟨c, r, hc, hstop⟩ := ht
  refine takes_eat_not ?_
  have hne : d ≠ c := by
    rcases hstop with rfl | rfl | rfl
    · exact hd.1
    · exact hd.2.1
    · exact hd.2.2
  rw [hc, hv, after?, if_neg hne]

lemma FieldText.takes_field (f : FieldText) (ht : EndsField t) (n : Nat) :
    Takes (patternFieldsRule.field (run (n + 3))) (' ' :: (signs f.cells ++ t)) (f.field t) t := by
  have hdots (w : PlainName) (u : List Char) :
      Takes (eat "...") (' ' :: (w.letters ++ u)) false (' ' :: (w.letters ++ u)) := by
    refine takes_eat_not ?_
    rw [w.skipGap_space]
    exact w.after?_eq_none (by decide) _
  have hequals (l : StringLiteral) : Takes (eat "=") (valueSigns l t) true (' ' :: (signs l.cells ++ t)) :=
    takes_eat (by rw [valueSigns, skipGap_spaceSign isSign_equals]; rfl)
  cases f with
  | bare w =>
    obtain ⟨c, r, rfl, hc⟩ := ht.word
    rw [cells, signs_letters]
    exact (hdots w _).bind ((w.takes_key hc _).bind ((ht.ends.takes_eat rfl (by decide)).bind
      ((ht.ends.takes_eat rfl (by decide)).bind takes_pure)))
  | default w l =>
    have hsigns : signs (cells (.default w l)) ++ t = w.letters ++ valueSigns l t := by
      rw [cells, List.map_append, signs_append, signs_append, signs_letters, List.append_assoc, List.append_assoc]
      rfl
    have hcolon : Takes (eat ":") (valueSigns l t) false (valueSigns l t) :=
      takes_eat_not (by rw [valueSigns, skipGap_spaceSign isSign_equals]; rfl)
    rw [hsigns]
    exact (hdots w _).bind ((w.takes_key endsWord_space _).bind (hcolon.bind ((hequals l).bind
      ((l.takes_expr ht.ends n).bind takes_pure))))
  | renamed key w l =>
    have hsigns : signs (cells (.renamed key w l)) ++ t =
        key.letters ++ ':' :: ' ' :: (w.letters ++ valueSigns l t) := by
      simp only [cells, List.map_append, signs_append, signs_letters, List.append_assoc]
      rfl
    have hcolon : Takes (eat ":") (':' :: ' ' :: (w.letters ++ valueSigns l t)) true
        (' ' :: (w.letters ++ valueSigns l t)) :=
      takes_sign (by decide) _ (by decide)
    have hpattern : Takes (patternDefault (run (n + 3))) (' ' :: (w.letters ++ valueSigns l t))
        (.withDefault (.name w.name) (.literal l.kind (l.part t))) t :=
      (w.takes_pattern endsWord_space (n + 2)).bind ((hequals l).bind ((l.takes_expr ht.ends n).bind takes_pure))
    rw [hsigns]
    exact (hdots key _).bind ((key.takes_key endsWord_colon _).bind (hcolon.bind (hpattern.bind takes_pure)))

/-! ### Parameters that are taken out of a call -/

/-- The comma in front of more fields. -/
def separator (fs : List FieldText) : List Cell := if fs.isEmpty then [] else [.plain ',']

def fieldCells : List FieldText → List Cell
  | [] => []
  | f :: fs => .plain ' ' :: (f.cells ++ (separator fs ++ fieldCells fs))

/-- The signs of some fields with the brace that closes them. -/
def fieldSigns (fs : List FieldText) (t : List Char) : List Char := signs (fieldCells fs) ++ ' ' :: '}' :: t

def fieldsOf (t : List Char) : List FieldText → List Field
  | [] => []
  | f :: fs => f.field (signs (separator fs) ++ fieldSigns fs t) :: fieldsOf t fs

lemma fieldSigns_cons (f : FieldText) (fs : List FieldText) (t : List Char) :
    fieldSigns (f :: fs) t = ' ' :: (signs f.cells ++ (signs (separator fs) ++ fieldSigns fs t)) := by
  unfold fieldSigns
  rw [fieldCells, signs_cons, signs_append, signs_append, List.cons_append, List.append_assoc, List.append_assoc]
  rfl

lemma endsField_separator (fs : List FieldText) (t : List Char) :
    EndsField (signs (separator fs) ++ fieldSigns fs t) := by
  cases fs with
  | nil =>
    exact ⟨⟨'}', t, congrArg Prod.fst (skipGap_spaceSign isSign_brace t false), .inr (.inr rfl)⟩,
      ' ', '}' :: t, rfl, endsWord_space⟩
  | cons f fs =>
    have hcomma : signs (separator (f :: fs)) ++ fieldSigns (f :: fs) t = ',' :: fieldSigns (f :: fs) t := rfl
    rw [hcomma]
    exact ⟨⟨',', _, congrArg Prod.fst (skipGap_sign isSign_comma _ false), .inr (.inl rfl)⟩,
      ',', _, rfl, by decide, by decide⟩

/-- A field begins with a name. -/
lemma FieldText.exists_letters (f : FieldText) (t : List Char) :
    ∃ (w : PlainName) (u : List Char), signs f.cells ++ t = w.letters ++ u := by
  cases f with
  | bare w => exact ⟨w, t, by rw [cells, signs_letters]⟩
  | default w l =>
    exact ⟨w, _, by rw [cells, List.map_append, signs_append, signs_append, signs_letters, List.append_assoc,
      List.append_assoc]⟩
  | renamed key w l =>
    exact ⟨key, _, by simp only [cells, List.map_append, signs_append, signs_letters, List.append_assoc]; rfl⟩

lemma takes_patternFields (fs : List FieldText) (n : Nat) (t : List Char) :
    Takes (run (n + fs.length + 4) .patternFields) (fieldSigns fs t) (fieldsOf t fs) t := by
  have hclose : Takes (eat closeBrace) (' ' :: '}' :: t) true t :=
    takes_eat (by rw [skipGap_spaceSign isSign_brace]; rfl)
  induction fs with
  | nil => exact hclose.bind takes_pure
  | cons f fs ih =>
    have hends := endsField_separator fs t
    have hopen : Takes (eat closeBrace) (fieldSigns (f :: fs) t) false (fieldSigns (f :: fs) t) := by
      obtain ⟨w, u, hw⟩ := f.exists_letters (signs (separator fs) ++ fieldSigns fs t)
      refine takes_eat_not ?_
      rw [fieldSigns_cons, hw, w.skipGap_space]
      exact w.after?_eq_none (by decide) _
    show Takes (patternFieldsRule (run (n + fs.length + 4))) _ _ _
    refine hopen.bind ?_
    rw [fieldSigns_cons]
    refine (f.takes_field hends (n + fs.length + 1)).bind ?_
    -- the comma is read from what follows: the brace, or one more field
    cases fs with
    | nil =>
      have hcomma : Takes (comma '}') (' ' :: '}' :: t) false (' ' :: '}' :: t) := by
        have hno : Takes (eat ",") (' ' :: '}' :: t) false (' ' :: '}' :: t) :=
          takes_eat_not (by rw [skipGap_spaceSign isSign_brace]; rfl)
        refine hno.bind (takes_next.bind ?_)
        rw [skipGap_spaceSign isSign_brace]
        exact takes_pure
      have hclosing : Takes (closing closeBrace) (' ' :: '}' :: t) () t := hclose.bind takes_pure
      exact hcomma.bind (hclosing.bind takes_pure)
    | cons g fs =>
      have hcomma : Takes (comma '}') (',' :: fieldSigns (g :: fs) t) true (fieldSigns (g :: fs) t) :=
        (takes_sign isSign_comma _ (by decide)).bind takes_pure
      exact hcomma.bind (ih.bind takes_pure)

/-- The signs behind the pattern. -/
def propsSigns (t : List Char) : List Char := "$props".toList ++ '(' :: ')' :: ';' :: t

def propsCall (t : List Char) : Expr :=
  .call ⟨⟨(propsSigns t).length, ('(' :: ')' :: ';' :: t).length⟩, "$props"⟩

lemma isWord_props : IsWord "$props".toList := isWord_of "$props" (by decide)

lemma skipGap_props (t : List Char) : (skipGap .blank false (' ' :: propsSigns t)).1 = propsSigns t := by
  unfold propsSigns
  rw [skipGap_space (isWord_props.beginsLexeme _)]

lemma takes_propsPart (t : List Char) :
    Takes (partSince (propsSigns t)) ('(' :: ')' :: ';' :: t)
      ⟨⟨(propsSigns t).length, ('(' :: ')' :: ';' :: t).length⟩, "$props"⟩ ('(' :: ')' :: ';' :: t) := by
  have hlength : (propsSigns t).length - ('(' :: ')' :: ';' :: t).length = 6 := by
    unfold propsSigns
    rw [List.length_append, Nat.add_sub_cancel]
    rfl
  have htake : Takes (partSince (propsSigns t)) ('(' :: ')' :: ';' :: t) _ _ := takes_partSince
  rw [hlength] at htake
  exact htake

/-- Behind the name comes the call. -/
lemma takes_propsSuffix (n : Nat) (t : List Char) :
    Takes (run (n + 2) (.suffixes (propsSigns t) .other)) ('(' :: ')' :: ';' :: t)
      (propsCall t) (';' :: t) := by
  have hparenthesis : IsSign '(' := by decide
  have helements : Takes (run (n + 1) (.elements ')')) (')' :: ';' :: t) () (';' :: t) :=
    (takes_sign (by decide) _ (by decide)).bind takes_pure
  have hcall : Takes (bracketed "(" (run (n + 1) (.elements ')'))) ('(' :: ')' :: ';' :: t) () (';' :: t) :=
    takes_bracketed (congrArg Prod.fst (skipGap_sign hparenthesis _ false)) helements
  show Takes (suffixesRule (run (n + 1)) _ _) _ _ _
  refine takes_ahead.bind ?_
  rw [skipGap_sign hparenthesis]
  exact (takes_propsPart t).bind (hcall.bind (takes_suffixes (endsDefault_semicolon t) n _ _))

lemma takes_props (n : Nat) (t : List Char) :
    Takes (run (n + 4) (.expr false)) (' ' :: propsSigns t) (propsCall t) (';' :: t) := by
  have hoperand : Takes (run (n + 3) .operand) (' ' :: propsSigns t) (propsCall t) (';' :: t) := by
    have hname := takes_name isWord_props (c := '(') ⟨by decide, by decide⟩ (skipGap_props t)
    have hwordOperand : Takes (wordOperand (run (n + 2)) (propsSigns t)) (' ' :: propsSigns t)
        (propsCall t) (';' :: t) := by
      refine hname.bind (takes_ahead.bind ?_)
      rw [skipGap_sign (by decide), String.ofList_toList]
      dsimp only
      rw [if_neg (by decide), if_neg (by decide), if_neg (by decide), if_neg (by decide), if_neg (by decide),
        if_neg fun h => absurd h.1 (by simp [startsWith, after?]), if_neg fun h => absurd h.1 (by decide)]
      exact (takes_propsPart t).bind (takes_propsSuffix n t)
    show Takes (operandRule (run (n + 2))) _ _ _
    refine takes_next.bind ?_
    rw [skipGap_props]
    exact hwordOperand
  exact hoperand.bind (takes_operators (endsDefault_semicolon t) (n + 2) _)

/-- The signs of the parameters in front of a text. -/
def takenSigns (fs : List FieldText) (t : List Char) : List Char :=
  letSigns ('{' :: fieldSigns fs (' ' :: '=' :: ' ' :: propsSigns t))

/-- The declaration of the parameters in front of a text. -/
def taken (fs : List FieldText) (t : List Char) : Declaration :=
  .bindings [⟨.object (fieldsOf (' ' :: '=' :: ' ' :: propsSigns t) fs), some (propsCall t)⟩]

/-- The fields in their braces are a pattern. -/
lemma takes_fieldPattern (fs : List FieldText) (n : Nat) (t : List Char) :
    Takes (run (n + fs.length + 5) .pattern) (' ' :: '{' :: fieldSigns fs t) (.object (fieldsOf t fs)) t := by
  have hbrace : IsSign '{' := by decide
  have hbraced : Takes (braced (run (n + fs.length + 4) .patternFields)) (' ' :: '{' :: fieldSigns fs t)
      (fieldsOf t fs) t :=
    takes_bracketed (congrArg Prod.fst (skipGap_spaceSign hbrace _ false)) (takes_patternFields fs n t)
  show Takes (patternRule (run (n + fs.length + 4))) _ _ _
  refine takes_next.bind ?_
  rw [skipGap_spaceSign hbrace]
  exact hbraced.bind takes_pure

/-- The call is the value of the pattern. -/
lemma takes_propsValue (n : Nat) (t : List Char) :
    Takes (firstValue (run (n + 4)) false) (' ' :: '=' :: ' ' :: propsSigns t) (some (propsCall t))
      (';' :: t) := by
  have hprops : Takes (run (n + 4) (.expr false) >>= fun e => pure (some e)) (' ' :: propsSigns t)
      (some (propsCall t)) (';' :: t) := (takes_props n t).bind takes_pure
  refine takes_next.bind ?_
  rw [skipGap_spaceSign isSign_equals]
  refine (takes_take (List.suffix_cons _ _) (List.suffix_cons _ _)).bind (takes_next.bind ?_)
  rw [skipGap_props]
  exact hprops

lemma takes_takenBindings (fs : List FieldText) (n : Nat) (t : List Char) :
    Takes (bindings (run (n + fs.length + 6)))
      (' ' :: '{' :: fieldSigns fs (' ' :: '=' :: ' ' :: propsSigns t)) (taken fs t) t := by
  have hno (s : String) (hs : after? s.toList ('=' :: ' ' :: propsSigns t) = none) :
      Takes (eat s) (' ' :: '=' :: ' ' :: propsSigns t) false (' ' :: '=' :: ' ' :: propsSigns t) := by
    refine takes_eat_not ?_
    rw [skipGap_spaceSign isSign_equals]
    exact hs
  have htyped : Takes ( annotation (run (n + fs.length + 5))) (' ' :: '=' :: ' ' :: propsSigns t) ()
      (' ' :: '=' :: ' ' :: propsSigns t) := (hno ":" rfl).bind takes_pure
  have hdeclarators : Takes (run (n + fs.length + 6) .declarators)
      (' ' :: '{' :: fieldSigns fs (' ' :: '=' :: ' ' :: propsSigns t))
      [⟨.object (fieldsOf (' ' :: '=' :: ' ' :: propsSigns t) fs), some (propsCall t)⟩] (';' :: t) :=
    (takes_fieldPattern fs n _).bind ((hno "!" rfl).bind (htyped.bind
      ((takes_propsValue (n + fs.length + 1) t).bind ((takes_comma_not t).bind takes_pure))))
  exact hdeclarators.bind ((takes_semicolon t).bind takes_pure)

/-- **Parameters are read as they are written**, whatever follows them. -/
theorem takes_taken (fs : List FieldText) (n : Nat) (t : List Char) :
    Takes (run (n + fs.length + 7) .statement) (takenSigns fs t) (.declares (taken fs t)) t := by
  have hlet := isWord_of "let" (by decide)
  have hbrace : IsSign '{' := by decide
  have hnext : (skipGap .blank false (takenSigns fs t)).1 = takenSigns fs t := by
    rw [takenSigns, skipGap_lexeme (beginsLexeme_let _)]
  have hdeclaration := takes_declaration (run (n + fs.length + 6)) hnext
    (.inr (by rw [skipGap_spaceSign hbrace]; rfl)) (by rw [skipGap_spaceSign hbrace])
    (takes_takenBindings fs n t)
  show Takes (statementRule (run (n + fs.length + 6))) _ _ _
  refine takes_next.bind ?_
  rw [hnext]
  refine (takes_nextWord hlet endsWord_space hnext).bind ((takes_pastWord hlet endsWord_space hnext).bind ?_)
  rw [skipGap_spaceSign hbrace, String.ofList_toList]
  dsimp only
  rw [if_neg fun h => absurd h.1 (by decide), if_neg fun h => absurd h.1 (by decide)]
  have hno : Takes (wordStatement? (run (n + fs.length + 6)) "let") (takenSigns fs t) none
      (takenSigns fs t) := takes_pure
  exact hno.bind (hdeclaration.bind takes_pure)

end

/-! ### Cells of a declaration -/

/-- Whatever comes behind some cells, the scan makes them of their text and goes on from another state. -/
def Scans (s : Scan) (cs : List Cell) (s' : Scan) : Prop :=
  ∀ y, cellsFrom 0 s (joined cs ++ y) = cs ++ cellsFrom 0 s' y

section

variable {s s' s'' : Scan} {cs ds : List Cell}

lemma Scans.append (h : Scans s cs s') (h' : Scans s' ds s'') : Scans s (cs ++ ds) s'' := by
  intro y
  rw [joined_append, List.append_assoc, h, h', List.append_assoc]

/-- A character that begins no literal takes the scan from one state to the next. -/
lemma scans_plain {c : Char} (hc : s.startsLiteral c = false) (hstep : ∀ next, s.step c next = s') :
    Scans s [.plain c] s' := by
  intro y
  show cellsFrom 0 s (c :: y) = .plain c :: cellsFrom 0 s' y
  rw [cellsFrom, hc, if_neg Bool.false_ne_true, hstep]

lemma scans_tame {t : List Char} (ht : ∀ c ∈ t, isTame c = true) (hs : s.mode = .code) :
    ∃ b, Scans s (t.map .plain) { s with before := b } := by
  induction t generalizing s with
  | nil => exact ⟨s.before, fun _ => rfl⟩
  | cons c t ih =>
    obtain ⟨hc, ht⟩ := List.forall_mem_cons.1 ht
    obtain ⟨b, hb⟩ := ih (s := { s with before := s.before.push c }) ht hs
    exact ⟨b, (scans_plain (startsLiteral_of_isTame hc s) (step_of_isTame hc hs)).append hb⟩

lemma scans_literal (l : StringLiteral) (hs : s.mode = .code) : Scans s l.cells s.pastLiteral := by
  intro y
  rw [l.joined_cells]
  exact cellsFrom_literalText hs l.quotes l.legal

lemma PlainName.tame (w : PlainName) : ∀ c ∈ w.letters, isTame c = true :=
  fun c hc => isTame_of_isNameChar (w.isWord.all c hc)

lemma tame_append {t u : List Char} (ht : ∀ c ∈ t, isTame c = true) (hu : ∀ c ∈ u, isTame c = true) :
    ∀ c ∈ t ++ u, isTame c = true := by
  intro c hc
  rcases List.mem_append.1 hc with hc | hc
  · exact ht c hc
  · exact hu c hc

/-- A row of plain cells in front of a literal. -/
lemma scans_default {t : List Char} (ht : ∀ c ∈ t, isTame c = true) (l : StringLiteral) (hs : s.mode = .code) :
    Scans s (t.map .plain ++ l.cells) s.pastLiteral := by
  obtain ⟨b, hb⟩ := scans_tame ht hs
  exact hb.append (scans_literal l (s := { s with before := b }) hs)

lemma scans_field (f : FieldText) (hs : s.mode = .code) : ∃ b, Scans s f.cells { s with before := b } := by
  have hequals : ∀ c ∈ " = ".toList, isTame c = true := List.all_eq_true.1 (by decide)
  have hcolon : ∀ c ∈ ": ".toList, isTame c = true := List.all_eq_true.1 (by decide)
  cases f with
  | bare w => exact scans_tame w.tame hs
  | default w l => exact ⟨.operand, scans_default (tame_append w.tame hequals) l hs⟩
  | renamed key w l =>
    exact ⟨.operand, scans_default (tame_append (tame_append (tame_append key.tame hcolon) w.tame) hequals) l hs⟩

lemma scans_fieldCells (fs : List FieldText) (hs : s.mode = .code) :
    ∃ b, Scans s (fieldCells fs) { s with before := b } := by
  induction fs generalizing s with
  | nil => exact ⟨s.before, fun _ => rfl⟩
  | cons f fs ih =>
    have hblank : ∀ c ∈ [' '], isTame c = true := List.all_eq_true.1 (by decide)
    have hall : ∀ c ∈ [','], isTame c = true := List.all_eq_true.1 (by decide)
    have hcomma : ∀ c ∈ (if fs.isEmpty then [] else [',']), isTame c = true := by
      cases fs with
      | nil => exact fun c hc => absurd hc List.not_mem_nil
      | cons f fs => exact hall
    have hseparator : (if fs.isEmpty then [] else [',']).map Cell.plain = separator fs := by
      cases fs <;> rfl
    obtain ⟨b₁, h₁⟩ := scans_tame hblank hs
    obtain ⟨b₂, h₂⟩ := scans_field f (s := { s with before := b₁ }) hs
    obtain ⟨b₃, h₃⟩ := scans_tame hcomma (s := { s with before := b₂ }) hs
    obtain ⟨b₄, h₄⟩ := ih (s := { s with before := b₃ }) hs
    rw [hseparator] at h₃
    exact ⟨b₄, h₁.append (h₂.append (h₃.append h₄))⟩

end

namespace FieldText

def text : FieldText → List Char
  | bare w => w.letters
  | default w l => w.letters ++ " = ".toList ++ l.text
  | renamed key w l => key.letters ++ ": ".toList ++ w.letters ++ " = ".toList ++ l.text

lemma joined_cells (f : FieldText) : joined f.cells = f.text := by
  cases f with
  | bare w => exact joined_map_plain _
  | default w l => rw [cells, joined_append, joined_map_plain, l.joined_cells, text]
  | renamed key w l => rw [cells, joined_append, joined_map_plain, l.joined_cells, text]

end FieldText

/-- Some fields with commas between them and a blank in front of each. -/
def fieldTexts : List FieldText → List Char
  | [] => []
  | f :: fs => ' ' :: (f.text ++ (if fs.isEmpty then [] else [','])) ++ fieldTexts fs

lemma joined_fieldCells (fs : List FieldText) : joined (fieldCells fs) = fieldTexts fs := by
  induction fs with
  | nil => rfl
  | cons f fs ih =>
    have hseparator : joined (separator fs) = if fs.isEmpty then [] else [','] := by cases fs <;> rfl
    rw [fieldCells, joined_cons, joined_append, joined_append, f.joined_cells, hseparator, ih, fieldTexts]
    simp only [Cell.text, List.cons_append, List.nil_append, List.append_assoc]

/-- A declaration of parameters: an exported variable, or fields that are taken out of a call. -/
inductive DeclarationText
  | exported (w : PlainName) (l : StringLiteral)
  | taken (fs : List FieldText)

namespace DeclarationText

def text : DeclarationText → List Char
  | exported w l => "export let ".toList ++ w.letters ++ " = ".toList ++ l.text ++ [';']
  | taken fs => "let \x7b".toList ++ fieldTexts fs ++ " \x7d = $props();".toList

def cells : DeclarationText → List Cell
  | exported w l => ("export let ".toList ++ w.letters ++ " = ".toList).map .plain ++ l.cells ++ [.plain ';']
  | taken fs => "let \x7b".toList.map .plain ++ fieldCells fs ++ " \x7d = $props();".toList.map .plain

lemma joined_cells (d : DeclarationText) : joined d.cells = d.text := by
  cases d with
  | exported w l =>
    unfold cells text
    rw [joined_append, joined_append, joined_map_plain, l.joined_cells]
    rfl
  | taken fs =>
    unfold cells text
    rw [joined_append, joined_append, joined_map_plain, joined_map_plain, joined_fieldCells]

/-- **The scan is behind a declaration where it began.** -/
lemma scans (d : DeclarationText) : Scans {} d.cells {} := by
  cases d with
  | exported w l =>
    have hword : ∀ c ∈ "export let ".toList, isTame c = true := List.all_eq_true.1 (by decide)
    have hequals : ∀ c ∈ " = ".toList, isTame c = true := List.all_eq_true.1 (by decide)
    have hend : Scans (({} : Scan).pastLiteral) [.plain ';'] {} := scans_plain rfl fun _ => rfl
    exact (scans_default (tame_append (tame_append hword w.tame) hequals) l rfl).append hend
  | taken fs =>
    have hlet : ∀ c ∈ "let ".toList, isTame c = true := List.all_eq_true.1 (by decide)
    have hblank : ∀ c ∈ [' '], isTame c = true := List.all_eq_true.1 (by decide)
    have hword : ∀ c ∈ " = $props".toList, isTame c = true := List.all_eq_true.1 (by decide)
    have hopen : Scans {} ("let \x7b".toList.map .plain) { before := .other, brackets := [.other] } := by
      obtain ⟨b, hb⟩ := scans_tame hlet (s := {}) rfl
      exact hb.append (scans_plain rfl fun _ => rfl)
    have hclose (b : Before) :
        Scans { before := b, brackets := [.other] } (" \x7d = $props();".toList.map .plain) {} := by
      obtain ⟨b₁, h₁⟩ := scans_tame hblank (s := { before := b, brackets := [.other] }) rfl
      have hbrace : Scans { before := b₁, brackets := [.other] } [.plain '}'] {} := scans_plain rfl fun _ => rfl
      obtain ⟨b₂, h₂⟩ := scans_tame hword (s := {}) rfl
      -- Whether a condition stands in the parentheses is told by the word in front of them.
      have hopening (k : Bracket) (hk : (if b₂.isWordOf wordsBeforeCondition then .condition else .other) = k) :
          Scans { before := b₂ } [.plain '('] { brackets := [k] } := scans_plain rfl fun _ => by rw [← hk]; rfl
      have hclosing (k : Bracket) : Scans { brackets := [k] } [.plain ')']
          { before := if k = .condition then .other else .operand } := scans_plain rfl fun _ => by cases k <;> rfl
      have hend (k : Bracket) : Scans { before := if k = .condition then .other else .operand } [.plain ';'] {} :=
        scans_plain rfl fun _ => by cases k <;> rfl
      have hcall := ((hopening _ rfl).append (hclosing _)).append (hend _)
      exact ((h₁.append hbrace).append h₂).append hcall
    obtain ⟨b, hb⟩ := scans_fieldCells fs (s := { before := .other, brackets := [.other] }) rfl
    exact (hopen.append hb).append (hclose b)

/-- The cells of a script behind the declaration are those of the script alone. -/
theorem cells_append (d : DeclarationText) (y : List Char) :
    Script.cells (d.text ++ y) = d.cells ++ Script.cells y := by
  rw [← d.joined_cells]
  exact d.scans y

/-- What the grammar makes of the declaration in front of a text. -/
def form (extent : Extent) (t : List Char) : DeclarationText → Form
  | exported w l => .exports (.declaration (Script.exported l w t) extent false)
  | taken fs => .declares (Script.taken fs t)

lemma length_fieldCells (fs : List FieldText) : fs.length ≤ (fieldCells fs).length := by
  induction fs with
  | nil => exact Nat.le_refl 0
  | cons f fs ih =>
    rw [fieldCells, List.length_cons, List.length_cons, List.length_append, List.length_append]
    omega

lemma signs_exported (w : PlainName) (l : StringLiteral) (cs : List Cell) :
    signs ((exported w l).cells ++ cs) = exportSigns l w (signs cs) := by
  have hword : '"' ∉ "export let ".toList := by decide
  have hequals : '"' ∉ " = ".toList := by decide
  unfold cells exportSigns letSigns valueSigns
  simp only [List.map_append, signs_append, signs_letters, signs_map_plain hword, signs_map_plain hequals,
    List.append_assoc]
  rfl

lemma signs_taken (fs : List FieldText) (cs : List Cell) :
    signs ((taken fs).cells ++ cs) = takenSigns fs (signs cs) := by
  have hlet : '"' ∉ "let \x7b".toList := by decide
  have hcall : '"' ∉ " \x7d = $props();".toList := by decide
  unfold cells takenSigns letSigns fieldSigns propsSigns
  simp only [signs_append, signs_map_plain hlet, signs_map_plain hcall, List.append_assoc]
  rfl

/-- A declaration begins with a letter. -/
lemma exists_signs_cons (d : DeclarationText) (cs : List Cell) :
    ∃ c r, signs (d.cells ++ cs) = c :: r ∧ isGap c = false ∧ c ≠ '/' ∧ c ≠ '<' ∧ c ≠ '-' := by
  cases d with
  | exported w l =>
    rw [signs_exported]
    exact ⟨'e', _, rfl, by decide, by decide, by decide, by decide⟩
  | taken fs =>
    rw [signs_taken]
    exact ⟨'l', _, rfl, by decide, by decide, by decide, by decide⟩

/-- The fuel of a whole text suffices for a declaration at its start. -/
lemma exists_takes (d : DeclarationText) (cs : List Cell) :
    ∃ extent, Takes (run (fuelFor (signs (d.cells ++ cs))) .statement) (signs (d.cells ++ cs))
      (d.form extent (signs cs)) (signs cs) := by
  cases d with
  | exported w l =>
    have hfuel : fuelFor (signs ((exported w l).cells ++ cs)) =
        (32 * ((signs ((exported w l).cells ++ cs)).length + 4) - 5) + 5 := by
      unfold fuelFor
      omega
    rw [hfuel, signs_exported]
    exact takes_export l w _
  | taken fs =>
    have hcount : fs.length ≤ (signs ((taken fs).cells ++ cs)).length := by
      have hfields := length_fieldCells fs
      unfold cells
      simp only [length_signs, List.length_append]
      omega
    have hfuel : fuelFor (signs ((taken fs).cells ++ cs)) =
        (32 * ((signs ((taken fs).cells ++ cs)).length + 4) - fs.length - 7) + fs.length + 7 := by
      unfold fuelFor
      omega
    rw [hfuel, signs_taken]
    exact ⟨⟨0, 0⟩, takes_taken fs _ _⟩

lemma cells_ne_nil (d : DeclarationText) : d.cells ≠ [] := by
  intro hnil
  have htext := joined_cells d
  rw [hnil] at htext
  cases d <;> cases htext

/-- **A declaration in front of a script** is one more statement, and the others stay. -/
theorem statementsOf_append (d : DeclarationText) (cs : List Cell) : ∃ extent, statementsOf (signs (d.cells ++ cs)) =
    ⟨⟨(d.cells ++ cs).length, cs.length⟩, d.form extent (signs cs)⟩ :: statementsOf (signs cs) := by
  obtain ⟨c, r, hsigns, hgap, hslash, hless, hminus⟩ := d.exists_signs_cons cs
  obtain ⟨extent, htakes⟩ := d.exists_takes cs
  have hskip : (skipGap .blank false (signs (d.cells ++ cs))).1 = signs (d.cells ++ cs) := by
    rw [hsigns, skipGap_lexeme ⟨_, _, rfl, hgap, hslash⟩]
  have hmark : ¬(startsWith "<!--".toList (signs (d.cells ++ cs)) ∨
      startsWith "-->".toList (signs (d.cells ++ cs))) := by
    rw [hsigns]
    simp [startsWith, after?, Ne.symm hless, Ne.symm hminus]
  have hlt : (signs cs).length < (signs (d.cells ++ cs)).length := by
    have hpos := List.length_pos_iff.2 d.cells_ne_nil
    rw [length_signs, length_signs, List.length_append]
    omega
  refine ⟨extent, ?_⟩
  rw [statementsOf_takes htakes hskip hmark hlt, length_signs, length_signs]

end DeclarationText

end Mender.Script
