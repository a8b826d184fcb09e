import Mender.Component.Props
import Mender.Proofs.KeyMap
import Mender.Proofs.Script.Declared

/-!
Strings as defaults of parameters.

A parameter takes the text of its literal as it stands between the quotes, escapes and all, unless JSON
reads the literal too. So a default is the string that its literal means exactly if there is nothing in
it but characters that stand for themselves, or if its quotes are double and JSON has all its escapes.
-/

namespace Mender.Component

open Mender.Text Mender.Script

/-! ### Values of literals -/

section

variable {l : StringLiteral} {t : String}

/-- The literal stands for a string. -/
def Means (l : StringLiteral) (t : String) : Prop := meant l.pieces = unitsOf t.toList

instance : Decidable (Means l t) := inferInstanceAs (Decidable (_ = _))

/-- The literal is read as the string it stands for. -/
def ReadBack (l : StringLiteral) : Prop :=
  (∀ p ∈ l.pieces, p.IsPlain) ∨ (l.quote = '"' ∧ ∀ p ∈ l.pieces, p.InJson)

lemma unquote_literalText (hq : IsQuote l.quote ∨ l.quote = '\x60') : unquote l.text = spelled l.pieces := by
  have hquote : isQuote l.quote = true := by
    rcases hq with (hq | hq) | hq <;> rw [hq] <;> rfl
  unfold StringLiteral.text literalText unquote
  simp [hquote]

/-- Without an escape a literal is its string, and only then. -/
lemma spelled_eq_iff (h : Means l t) : String.ofList (spelled l.pieces) = t ↔ ∀ p ∈ l.pieces, p.IsPlain := by
  rw [← meant_eq_iff]
  constructor
  · rintro rfl
    rw [h, String.toList_ofList]
  · intro hplain
    rw [unitsOf_injective (hplain.symm.trans h), String.ofList_toList]

/-- A template without an escape has nothing put into it. -/
lemma not_infix_of_plain {ps : List Piece} (hps : Spelling '\x60' ps) (hplain : ∀ p ∈ ps, p.IsPlain) :
    ¬['$', '{'] <:+: spelled ps ++ ['\x60'] := by
  induction ps with
  | nil => decide
  | cons p ps ih =>
    obtain ⟨hlegal, hps⟩ := hps
    obtain ⟨⟨c, rfl⟩, hmore⟩ := List.forall_mem_cons.1 hplain
    have hdollar : ¬(c = '$' ∧ (spelled ps ++ ['\x60']).head? = some '{') := hlegal.2.2.2
    intro hinfix
    rcases List.infix_cons_iff.1 hinfix with hprefix | hinfix
    · obtain ⟨rfl, hrest⟩ := List.cons_prefix_cons.1 hprefix
      obtain ⟨r, hr⟩ := hrest
      exact hdollar ⟨rfl, congrArg List.head? hr.symm⟩
    · exact ih hps hmore hinfix

/-- The value that a default has. -/
def defaultValue? (l : StringLiteral) : Option Json := literalOf? l.kind l.text

section Quoted

variable (hq : l.quote = '"')

include hq

lemma text_of_double : l.text = '"' :: (spelled l.pieces ++ ['"']) := by
  rw [StringLiteral.text, literalText, hq]

lemma parseString?_of_inJson (h : Means l t) (hjson : ∀ p ∈ l.pieces, p.InJson) :
    Json.parseString? l.text = some t := by
  have hread := (stringTail_spelled (hq ▸ l.legal) hjson []).1 t.toList h
  rw [text_of_double hq]
  show (Json.finish (Json.string (spelled l.pieces ++ ['"']))).toOption = _
  rw [Json.string, hread]
  show some (String.ofList t.toList) = some t
  rw [String.ofList_toList]

lemma parseString?_of_not_inJson (hjson : ¬∀ p ∈ l.pieces, p.InJson) : Json.parseString? l.text = none := by
  rw [text_of_double hq]
  show (Json.finish (Json.string (spelled l.pieces ++ ['"']))).toOption = none
  cases hread : Json.stringTail .plain (spelled l.pieces ++ ['"']) with
  | error e =>
    rw [Json.string, hread]
    rfl
  | ok x => exact absurd (inJson_of_stringTail (hq ▸ l.legal) .plain hread) hjson

end Quoted

/-- The text of a literal, escapes and all, unless something seems to be put into a template. -/
def bareValue? (l : StringLiteral) : Option Json :=
  if l.quote = '\x60' ∧ contains "$\x7b".toList l.text then none else some (.str (String.ofList (spelled l.pieces)))

/-- Only what JSON reads has its escapes undone. -/
lemma defaultValue?_eq (hread : ¬(l.quote = '"' ∧ ∀ p ∈ l.pieces, p.InJson)) : defaultValue? l = bareValue? l := by
  have hspelled := unquote_literalText l.quotes
  unfold defaultValue? bareValue? StringLiteral.kind
  by_cases htemplate : l.quote = '\x60'
  · rw [if_pos htemplate, literalOf?, hspelled]
    simp only [htemplate, true_and]
  · have hnone : Json.parseString? l.text = none := by
      rcases l.quotes with (hq | hq) | hq
      · exact parseString?_of_not_inJson hq fun hjson => hread ⟨hq, hjson⟩
      · rw [StringLiteral.text, literalText, hq]
        rfl
      · exact absurd hq htemplate
    rw [if_neg htemplate, literalOf?, hnone, hspelled, if_neg fun h => htemplate h.1]
    rfl

lemma bareValue?_eq_iff (h : Means l t) : bareValue? l = some (.str t) ↔ ∀ p ∈ l.pieces, p.IsPlain := by
  rw [← spelled_eq_iff h]
  unfold bareValue?
  constructor
  · intro hvalue
    split at hvalue
    · cases hvalue
    · exact Json.str.inj (Option.some.inj hvalue)
  · intro hspelled
    have hno : ¬(l.quote = '\x60' ∧ contains "$\x7b".toList l.text) := by
      rintro ⟨hq, hcontains⟩
      have hplain := (spelled_eq_iff h).1 hspelled
      have hnot := not_infix_of_plain (hq ▸ l.legal) hplain
      have hinfix : ['$', '{'] <:+: l.text := contains_iff.1 hcontains
      rw [StringLiteral.text, literalText, hq] at hinfix
      rcases List.infix_cons_iff.1 hinfix with hprefix | hinfix
      · exact absurd (List.cons_prefix_cons.1 hprefix).1 (by decide)
      · exact hnot hinfix
    rw [if_neg hno, hspelled]

/-- **The value of a default** is the string it stands for if the literal is one that is read back, and
only then. -/
theorem defaultValue?_eq_iff (h : Means l t) : defaultValue? l = some (.str t) ↔ ReadBack l := by
  by_cases hjson : l.quote = '"' ∧ ∀ p ∈ l.pieces, p.InJson
  · have hkind : l.kind = .string := by
      rw [StringLiteral.kind, hjson.1]
      rfl
    rw [defaultValue?, hkind, literalOf?, parseString?_of_inJson hjson.1 h hjson.2]
    exact iff_of_true rfl (.inr hjson)
  · rw [defaultValue?_eq hjson, bareValue?_eq_iff h, ReadBack, or_iff_left hjson]

end

/-! ### Parts of a declaration in its script -/

section

variable {p : Part} {xs ys ds cs : List Cell}

lemma suffix_of_append (h : xs ++ ys ++ ds <:+ cs) : ys ++ ds <:+ cs := by
  rw [List.append_assoc] at h
  exact (List.suffix_append _ _).trans h

/-- A part is the text of the cells between its ends. -/
lemma text_restore (h : xs ++ ds <:+ cs) (hp : p.extent = ⟨(xs ++ ds).length, ds.length⟩) :
    (p.restore cs).text = String.ofList (joined xs) := by
  have hlength : (xs ++ ds).length - ds.length = xs.length := by simp
  simp only [Part.restore, hp, lastCells_suffix h, hlength, List.take_left]

lemma value?_restore (l : StringLiteral) (h : l.cells ++ ds <:+ cs) :
    value? ((Expr.literal l.kind (l.part (signs ds))).restore cs) = defaultValue? l := by
  have hextent : (l.part (signs ds)).extent = ⟨(l.cells ++ ds).length, ds.length⟩ := by
    simp [StringLiteral.part, length_signs]
  rw [Expr.restore, value?, text_restore h hextent, l.joined_cells, String.toList_ofList, defaultValue?]

lemma unquote_letters (w : PlainName) : unquote w.letters = w.letters := by
  obtain ⟨c, r, hw, hc⟩ := w.isWord.head
  have hquote : isQuote c = false := by
    rw [Bool.eq_false_iff]
    intro h
    simp only [isQuote, Bool.or_eq_true, beq_iff_eq] at h
    rcases h with (rfl | rfl) | rfl <;> exact absurd hc (by decide)
  rw [hw]
  simp only [unquote, hquote, Bool.false_and, if_neg Bool.false_ne_true]
  split <;> rfl

lemma value_restore (w : PlainName) {t : List Char} (ht : t.length = ds.length)
    (h : w.letters.map .plain ++ ds <:+ cs) : ((w.part t).restore cs).value = w.name := by
  have hextent : (w.part t).extent = ⟨(w.letters.map Cell.plain ++ ds).length, ds.length⟩ := by
    simp [PlainName.part, ht]
  rw [Part.value, text_restore h hextent, joined_map_plain, String.toList_ofList, unquote_letters, PlainName.name]

/-- The default of a field. -/
def fieldDefault? : FieldText → Option (String × StringLiteral)
  | .bare _ => none
  | .default w l => some (w.name, l)
  | .renamed key _ l => some (key.name, l)

/-- The value of a parameter with its name. -/
def parameter? (e : String × StringLiteral) : Option (String × Json) := (defaultValue? e.2).map (e.1, ·)

lemma fieldParameter?_restore (f : FieldText) (h : f.cells ++ ds <:+ cs) :
    fieldParameter? ((f.field (signs ds)).restore cs) = (fieldDefault? f).bind parameter? := by
  cases f with
  | bare w => rfl
  | default w l =>
    show (value? _).map _ = _
    rw [value?_restore l (suffix_of_append h)]
    rfl
  | renamed key w l =>
    have hkey : key.letters.map .plain ++ ((": ".toList ++ w.letters ++ " = ".toList).map .plain ++ l.cells ++ ds) <:+
        cs := by
      simpa only [FieldText.cells, List.map_append, List.append_assoc] using h
    have hlength : (':' :: ' ' :: (w.letters ++ valueSigns l (signs ds))).length =
        ((": ".toList ++ w.letters ++ " = ".toList).map Cell.plain ++ l.cells ++ ds).length := by
      simp only [valueSigns, List.length_cons, List.length_append, List.length_map, length_signs]
      have hcolon : ": ".toList.length = 2 := by decide
      have hequals : " = ".toList.length = 3 := by decide
      omega
    show (value? _).map _ = _
    rw [value?_restore l (suffix_of_append h), value_restore key hlength hkey]
    rfl

end

/-! ### Declarations -/

/-- The defaults of a declaration with the names of their parameters. -/
def defaultsOf : DeclarationText → List (String × StringLiteral)
  | .exported w l => [(w.name, l)]
  | .taken fs => fs.filterMap fieldDefault?

section

variable {cs ds : List Cell}

lemma filterMap_restoreFields (fs : List FieldText)
    (h : fieldCells fs ++ (.plain ' ' :: .plain '}' :: ds) <:+ cs) :
    (restoreFields cs (fieldsOf (signs ds) fs)).filterMap fieldParameter? =
      (fs.filterMap fieldDefault?).filterMap parameter? := by
  induction fs with
  | nil => rfl
  | cons f fs ih =>
    have hsigns : signs (separator fs) ++ fieldSigns fs (signs ds) =
        signs (separator fs ++ (fieldCells fs ++ .plain ' ' :: .plain '}' :: ds)) := by
      rw [fieldSigns, signs_append, signs_append]
      rfl
    have hfield : f.cells ++ (separator fs ++ (fieldCells fs ++ .plain ' ' :: .plain '}' :: ds)) <:+ cs := by
      have hcells : fieldCells (f :: fs) ++ .plain ' ' :: .plain '}' :: ds =
          .plain ' ' :: (f.cells ++ (separator fs ++ (fieldCells fs ++ .plain ' ' :: .plain '}' :: ds))) := by
        simp only [fieldCells, List.cons_append, List.append_assoc]
      exact (List.suffix_cons _ _).trans (hcells ▸ h)
    have hrest := (List.suffix_append _ _).trans ((List.suffix_append _ _).trans hfield)
    rw [fieldsOf, hsigns, restoreFields, List.filterMap_cons, fieldParameter?_restore f hfield, ih hrest,
      List.filterMap_cons]
    cases fieldDefault? f <;> rfl

/-- The cells behind the fields. -/
def callCells : List Cell := " = $props();".toList.map .plain

lemma takesProps_restore (h : callCells ++ ds <:+ cs) :
    takesProps (some ((propsCall (signs ds)).restore cs)) = true := by
  have hsplit : callCells ++ ds = " = ".toList.map Cell.plain ++
      ("$props".toList.map Cell.plain ++ ("();".toList.map Cell.plain ++ ds)) := by
    have htext : " = $props();".toList = " = ".toList ++ ("$props".toList ++ "();".toList) := by decide
    unfold callCells
    rw [htext, List.map_append, List.map_append, List.append_assoc, List.append_assoc]
  have hsuffix : "$props".toList.map Cell.plain ++ ("();".toList.map Cell.plain ++ ds) <:+ cs :=
    (List.suffix_append _ _).trans (hsplit ▸ h)
  have hlength : (propsSigns (signs ds)).length =
      ("$props".toList.map Cell.plain ++ ("();".toList.map Cell.plain ++ ds)).length ∧
        ('(' :: ')' :: ';' :: signs ds).length = ("();".toList.map Cell.plain ++ ds).length := by
    have hend : "();".toList.length = 3 := by decide
    unfold propsSigns
    simp only [List.length_append, List.length_cons, List.length_map, length_signs]
    omega
  have htext := text_restore
    (p := ⟨⟨(propsSigns (signs ds)).length, ('(' :: ')' :: ';' :: signs ds).length⟩, "$props"⟩)
    hsuffix (by rw [hlength.1, hlength.2])
  rw [joined_map_plain, String.ofList_toList] at htext
  exact beq_iff_eq.2 htext

/-- **A declaration gives its parameters their defaults.** -/
theorem parametersOf_restore (d : DeclarationText) {extent extent' : Extent} (h : d.cells ++ ds <:+ cs) :
    parametersOf (Statement.restore cs ⟨extent, d.form extent' (signs ds)⟩) =
      (defaultsOf d).filterMap parameter? := by
  cases d with
  | exported w l =>
    have hsuffix : l.cells ++ (.plain ';' :: ds) <:+ cs := by
      unfold DeclarationText.cells at h
      rw [List.append_assoc] at h
      exact suffix_of_append h
    have hparameter : exportedParameter? (Declarator.restore cs
        ⟨.name w.name, some (.literal l.kind (l.part (signs (.plain ';' :: ds))))⟩) = parameter? (w.name, l) := by
      show (value? _).map _ = _
      rw [value?_restore l hsuffix]
      rfl
    show [Declarator.restore cs _].filterMap exportedParameter? = [(w.name, l)].filterMap parameter?
    rw [List.filterMap_cons, List.filterMap_cons, ← hparameter]
    rfl
  | taken fs =>
    have hclose : " \x7d = $props();".toList.map Cell.plain ++ ds = .plain ' ' :: .plain '}' :: (callCells ++ ds) := by
      have htext : " \x7d = $props();".toList = ' ' :: '}' :: " = $props();".toList := by decide
      rw [htext]
      rfl
    have hfields : fieldCells fs ++ (.plain ' ' :: .plain '}' :: (callCells ++ ds)) <:+ cs := by
      unfold DeclarationText.cells at h
      rw [List.append_assoc, hclose] at h
      exact suffix_of_append h
    have hcall : callCells ++ ds <:+ cs :=
      (List.suffix_append [Cell.plain ' ', .plain '}'] _).trans ((List.suffix_append _ _).trans hfields)
    have hsigns : ' ' :: '=' :: ' ' :: propsSigns (signs ds) = signs (callCells ++ ds) := by
      have htext : " = $props();".toList = ' ' :: '=' :: ' ' :: ("$props".toList ++ "();".toList) := by decide
      have hquote : '"' ∉ " = $props();".toList := by decide
      unfold callCells propsSigns
      rw [signs_append, signs_map_plain hquote, htext]
      rw [List.cons_append, List.cons_append, List.cons_append, List.append_assoc]
      rfl
    have hbinding : parametersOf (Statement.restore cs ⟨extent, (DeclarationText.taken fs).form extent' (signs ds)⟩) =
        if takesProps (some ((propsCall (signs ds)).restore cs)) then
          (restoreFields cs (fieldsOf (' ' :: '=' :: ' ' :: propsSigns (signs ds)) fs)).filterMap fieldParameter?
        else [] := List.append_nil _
    rw [hbinding, if_pos (takesProps_restore hcall), hsigns, filterMap_restoreFields fs hfields]
    rfl

end

/-! ### Sources -/

/-- A map made of entries that agree on a key. -/
lemma get?_ofList_of_agree {α : Type} {l : List (String × α)} {k : String} {v : Option α}
    (hall : ∀ e ∈ l, e.1 = k → some e.2 = v) (hsome : v.isSome → ∃ e ∈ l, e.1 = k) :
    (KeyMap.ofList l).get? k = v := by
  rw [KeyMap.get?_ofList]
  cases hlast : (l.filter fun e => e.1 == k).getLast? with
  | some e =>
    obtain ⟨he, hk⟩ := List.mem_filter.1 (List.mem_of_getLast? hlast)
    exact hall e he (eq_of_beq hk)
  | none =>
    have hnil := List.getLast?_eq_none_iff.1 hlast
    cases v with
    | none => rfl
    | some v =>
      obtain ⟨e, he, hk⟩ := hsome rfl
      have hmem : e ∈ l.filter fun e => e.1 == k := List.mem_filter.2 ⟨he, beq_iff_eq.2 hk⟩
      rw [hnil] at hmem
      exact absurd hmem List.not_mem_nil

/-- The first statement of a script that begins with a declaration. -/
lemma exists_statements {a r : List Char} (ha : idle .blank a = true) (d : DeclarationText) :
    ∃ s ss, (parse (a ++ (d.text ++ r))).statements = s :: ss ∧
      parametersOf s = (defaultsOf d).filterMap parameter? := by
  have hcells : cells (a ++ (d.text ++ r)) = a.map .plain ++ (d.cells ++ cells r) := by
    rw [cells_idle ha, d.cells_append]
  obtain ⟨extent, hrow⟩ := d.statementsOf_append (cells r)
  have hstatements := statements_parse (a ++ (d.text ++ r))
  rw [rowOf_idle ha, rowOf, d.cells_append, hrow, List.map_cons, hcells] at hstatements
  exact ⟨_, _, hstatements, parametersOf_restore d (List.suffix_append _ _)⟩

/-- A source whose instance script begins, behind blanks and comments, with a declaration that gives a
parameter its only default. -/
structure HasDefault (source : String) (d : DeclarationText) (n : String) (l : StringLiteral) : Prop where
  script : ∃ e a r, Markup.instanceScript? source.toList = some e ∧
    e.content.of source.toList = a ++ (d.text ++ r) ∧ idle .blank a = true ∧
    ∀ s ∈ (parse (e.content.of source.toList)).statements.tail, ∀ x ∈ parametersOf s, x.1 ≠ n
  default : (n, l) ∈ defaultsOf d
  only : ∀ x ∈ defaultsOf d, x.1 = n → x.2 = l

/-- The parameter has the value of its default. -/
lemma HasDefault.get?_eq {source : String} {d : DeclarationText} {n : String} {l : StringLiteral}
    (h : HasDefault source d n l) : (initialProps source).get? n = defaultValue? l := by
  obtain ⟨e, a, r, hscript, hcontent, ha, hlater⟩ := h.script
  obtain ⟨s, ss, hstatements, hparameters⟩ := exists_statements (r := r) ha d
  rw [hcontent, hstatements] at hlater
  unfold initialProps
  simp only [hscript, hcontent, hstatements, List.flatMap_cons, hparameters]
  -- neither the declaration nor a later statement gives the name another value
  apply get?_ofList_of_agree
  · intro x hx hn
    rcases List.mem_append.1 hx with hx | hx
    · obtain ⟨y, hy, hxy⟩ := List.mem_filterMap.1 hx
      obtain ⟨v, hv, rfl⟩ := Option.map_eq_some_iff.1 hxy
      rw [← h.only y hy hn, hv]
    · obtain ⟨s', hs', hx⟩ := List.mem_flatMap.1 hx
      exact absurd hn (hlater s' hs' x hx)
  · intro hsome
    obtain ⟨v, hv⟩ := Option.isSome_iff_exists.1 hsome
    have hparameter : parameter? (n, l) = some (n, v) := by
      rw [parameter?, hv]
      rfl
    exact ⟨(n, v), List.mem_append_left _ (List.mem_filterMap.2 ⟨(n, l), h.default, hparameter⟩), rfl⟩

/-- **A default is read as the string it means** exactly if its literal has no escape, or has double quotes
and no piece but those of JSON. Otherwise the parameter is what stands between the quotes, or it is missing
where something seems to be put into a template. -/
theorem initialProps_string_iff {source : String} {d : DeclarationText} {n : String} {l : StringLiteral} {t : String}
    (h : HasDefault source d n l) (ht : Means l t) :
    ((initialProps source).get? n = some (.str t) ↔ ReadBack l) ∧
      (¬ReadBack l → (initialProps source).get? n = bareValue? l) := by
  rw [h.get?_eq]
  exact ⟨defaultValue?_eq_iff ht, fun hread => defaultValue?_eq fun hjson => hread (.inr hjson)⟩

def sampleName : PlainName := ⟨"a".toList, isWord_of "a" (by decide)⟩

/-- A letter by its number, in double quotes. -/
def byteLiteral : StringLiteral where
  quote := '"'
  pieces := [.byte '4' '1', .plain 'b']
  quotes := .inl (.inl rfl)
  legal := by decide

def fieldsSample : String := "<script>\n  let \x7b a: b = \"\\x41b\" \x7d = $props();\n</script>"

lemma fieldsSample_hasDefault : HasDefault fieldsSample
    (.taken [.renamed sampleName ⟨"b".toList, isWord_of "b" (by decide)⟩ byteLiteral]) "a" byteLiteral where
  script := ⟨⟨.script, ⟨0, 8⟩, ⟨8, 46⟩, 55, false⟩, "\n  ".toList, "\n".toList, by decide +kernel, by decide +kernel,
    by decide, by decide +kernel⟩
  default := List.mem_singleton.2 rfl
  only x hx _ := by rw [List.mem_singleton.1 hx]

/-- The letter is not read, for JSON numbers letters in another way. -/
theorem initialProps_string_sample : (initialProps fieldsSample).get? "a" = bareValue? byteLiteral ∧
    (initialProps fieldsSample).get? "a" ≠ some (.str "Ab") := by
  have hmeans : Means byteLiteral "Ab" := by decide
  have hread : ¬ReadBack byteLiteral := by
    rintro (hplain | ⟨-, hjson⟩)
    · obtain ⟨c, hc⟩ := hplain _ List.mem_cons_self
      cases hc
    · exact hjson _ List.mem_cons_self
  obtain ⟨hiff, hbare⟩ := initialProps_string_iff fieldsSample_hasDefault hmeans
  exact ⟨hbare hread, fun h => hread (hiff.1 h)⟩

/-- An escaped quote in single quotes. -/
def quoteLiteral : StringLiteral where
  quote := '\''
  pieces := [.plain 'i', .plain 't', .mark '\'', .plain 's']
  quotes := .inl (.inr rfl)
  legal := by decide

def exportSample : String := "<script>\n  export let a = 'it\\'s';\n</script>"

lemma exportSample_hasDefault : HasDefault exportSample (.exported sampleName quoteLiteral) "a" quoteLiteral where
  script := ⟨⟨.script, ⟨0, 8⟩, ⟨8, 35⟩, 44, false⟩, "\n  ".toList, "\n".toList, by decide +kernel, by decide +kernel,
    by decide, by decide +kernel⟩
  default := List.mem_singleton.2 rfl
  only x hx _ := by rw [List.mem_singleton.1 hx]

/-- **The quotes matter**: the backslash of an escaped quote stays in the parameter. -/
theorem escaped_quote_kept : HasDefault exportSample (.exported sampleName quoteLiteral) "a" quoteLiteral ∧
    Means quoteLiteral "it's" ∧ (initialProps exportSample).get? "a" = some (.str "it\\'s") := by
  have hvalue : defaultValue? quoteLiteral = some (.str "it\\'s") := by
    cbv
  exact ⟨exportSample_hasDefault, by decide, exportSample_hasDefault.get?_eq.trans hvalue⟩

end Mender.Component
