import Mender.Proofs.Text.Blank
import Mender.Tool.Findings

/-!
Findings of a type checker that are printed on a line, and read again.

A line begins with the name of a file, in which no place can begin. So the first place that is found is the
one behind the name, and what the message holds of places, severities and codes is not looked at. Only a
message that begins like a code would be taken for one, where none is printed.
-/

namespace Mender.Tool

open Mender.Text

/-! ### Numbers -/

lemma numberIn_eq {t : List Char} (h : ∀ c ∈ t, c.isDigit = true) (n : Nat) :
    t.foldl (fun n c => 10 * n + (digitIn? 10 c).getD 0) n = Nat.ofDigitChars 10 t n := by
  induction t generalizing n with
  | nil => rfl
  | cons c t ih =>
    obtain ⟨hc, ht⟩ := List.forall_mem_cons.1 h
    have hlt : c.toNat - 48 < 10 := by
      simp only [Char.isDigit, Bool.and_eq_true, decide_eq_true_eq] at hc
      have h2 : c.toNat ≤ 57 := hc.2
      omega
    have hdigit : digitIn? 10 c = some (c.toNat - 48) := by
      unfold digitIn?
      rw [if_pos hc]
      exact if_pos hlt
    rw [List.foldl_cons, hdigit, ih ht, Nat.ofDigitChars, Nat.ofDigitChars, List.foldl_cons]
    rfl

/-- **A number** that is printed and not beyond the limit is read again. -/
lemma decimal?_toDigits {limit n : Nat} (h : n ≤ limit) : decimal? limit (Nat.toDigits 10 n) = some n := by
  have hdigits : ∀ c ∈ Nat.toDigits 10 n, c.isDigit = true := fun c hc =>
    Nat.isDigit_of_mem_toDigits (by decide) (by decide) hc
  have hnumber : numberIn 10 (Nat.toDigits 10 n) = n :=
    (numberIn_eq hdigits 0).trans Nat.ofDigitChars_ten_toDigits
  have hall : ¬ ((Nat.toDigits 10 n).isEmpty = true ∨ (!(Nat.toDigits 10 n).all Char.isDigit) = true) := by
    simp [List.isEmpty_iff, Nat.toDigits_ne_nil, List.all_eq_true.2 hdigits]
  unfold decimal?
  rw [if_neg hall, hnumber, Option.filter_some, if_pos (decide_eq_true h)]

/-! ### The parts of a line -/

section Parts

variable {d e t : List Char} {c : Char}

lemma numeral?_append (hne : d ≠ []) (hd : ∀ c ∈ d, isNumeral c = true) (hc : isNumeral c = false)
    (t : List Char) : numeral? (d ++ c :: t) = some (d, c :: t) := by
  unfold numeral?
  rw [List.takeWhile_append_of_pos hd, List.dropWhile_append_of_pos hd,
    List.takeWhile_cons_of_neg (by simp [hc]), List.dropWhile_cons_of_neg (by simp [hc]),
    List.append_nil]
  exact if_neg (mt List.isEmpty_iff.1 hne)

/-- Digits that are not empty. -/
structure IsNumber (d : List Char) : Prop where
  ne : d ≠ []
  digits : ∀ c ∈ d, isNumeral c = true

lemma place?_parentheses (hd : IsNumber d) (he : IsNumber e) (t : List Char) :
    place? ('(' :: (d ++ ',' :: (e ++ ')' :: ':' :: t))) = some ⟨d, e, t⟩ := by
  have hline := numeral?_append hd.ne hd.digits (by decide : isNumeral ',' = false)
  have hcolumn := numeral?_append he.ne he.digits (by decide : isNumeral ')' = false)
  simp only [place?, hline, hcolumn, Option.bind_eq_bind, Option.bind_some, after?, if_true]
  rfl

lemma place?_colons (hd : IsNumber d) (he : IsNumber e) (t : List Char) :
    place? (':' :: (d ++ ':' :: (e ++ ' ' :: '-' :: t))) = some ⟨d, e, t⟩ := by
  have hline := numeral?_append hd.ne hd.digits (by decide : isNumeral ':' = false)
  have hcolumn := numeral?_append he.ne he.digits (by decide : isNumeral ' ' = false)
  have hblank : afterBlanks? (' ' :: '-' :: t) = some ('-' :: t) := by
    rw [afterBlanks?, if_pos (by decide), List.dropWhile_cons_of_neg (by decide)]
  simp only [place?, hline, hcolumn, hblank, Option.bind_eq_bind, Option.bind_some, after?, if_true]
  rfl

/-- A place begins with one of two signs. -/
lemma place?_eq_none (h : c ≠ '(' ∧ c ≠ ':') (t : List Char) : place? (c :: t) = none := by
  unfold place?
  split
  · next heq => exact absurd (List.cons.inj heq).1 h.1
  · next heq => exact absurd (List.cons.inj heq).1 h.2
  · rfl

/-- A severity is read with the space behind it. -/
lemma severity?_name {s : Severity} (hs : s ≠ .info) (ht : ∀ c ∈ t.head?, isBlank c = false) :
    severity? (s.name.toList ++ ' ' :: t) = some (s, t) := by
  have hblank : afterBlanks? (' ' :: t) = some t := by
    rw [afterBlanks?, if_pos (by decide)]
    cases t with
    | nil => rfl
    | cons c t => rw [List.dropWhile_cons_of_neg (by simp [ht c rfl])]
  have herror : "error".toList = ['e', 'r', 'r', 'o', 'r'] := by decide
  have hwarning : "warning".toList = ['w', 'a', 'r', 'n', 'i', 'n', 'g'] := by decide
  cases s with
  | info => exact absurd rfl hs
  | warning => simp [severity?, Severity.name, herror, hwarning, after?, hblank]
  | error => simp [severity?, Severity.name, herror, hwarning, after?, hblank]

lemma ruleCode?_append (hd : IsNumber d) (ht : ∀ c ∈ t.head?, isBlank c = false) :
    ruleCode? ('T' :: 'S' :: (d ++ ':' :: ' ' :: t)) = some ('T' :: 'S' :: d, t) := by
  have hdigits := numeral?_append hd.ne hd.digits (by decide : isNumeral ':' = false)
  have hblank : (' ' :: t).dropWhile isBlank = t := by
    rw [List.dropWhile_cons_of_pos (by decide)]
    cases t with
    | nil => rfl
    | cons c t => rw [List.dropWhile_cons_of_neg (by simp [ht c rfl])]
  simp only [ruleCode?, hdigits, hblank, Option.bind_eq_bind, Option.bind_some, after?, if_true]
  rfl

/-- The text begins with a rule's code and its colon. -/
def BeginsWithCode (t : List Char) : Prop :=
  ∃ d r, IsNumber d ∧ t = 'T' :: 'S' :: (d ++ ':' :: r)

lemma ruleCode?_eq_none (h : ¬ BeginsWithCode t) : ruleCode? t = none := by
  by_contra hsome
  obtain ⟨p, hp⟩ := Option.ne_none_iff_exists'.1 hsome
  unfold ruleCode? at hp
  obtain ⟨u, hu, hp⟩ := Option.bind_eq_some_iff.1 hp
  obtain ⟨⟨d, v⟩, hd, hp⟩ := Option.bind_eq_some_iff.1 hp
  obtain ⟨w, hw, -⟩ := Option.bind_eq_some_iff.1 hp
  unfold numeral? at hd
  dsimp only at hd
  split at hd
  · cases hd
  · next hne =>
    obtain ⟨rfl, rfl⟩ := Prod.mk.inj (Option.some.inj hd)
    refine h ⟨u.takeWhile isNumeral, w, ⟨mt List.isEmpty_iff.2 hne, fun c hc => ?_⟩, ?_⟩
    · exact List.mem_takeWhile_imp hc
    · have hcolon : u.dropWhile isNumeral = ':' :: w := after?_eq_some_iff.1 hw
      rw [← hcolon, List.takeWhile_append_dropWhile]
      exact after?_eq_some_iff.1 hu

end Parts

/-! ### Lines -/

/-- What a checker prints of a finding: the code of a rule is given by its digits. -/
structure Report where
  file : List Char
  line : Nat
  column : Nat
  severity : Severity
  digits : Option (List Char) := none
  message : List Char

namespace Report

def code (r : Report) : Option (List Char) := r.digits.map fun d => 'T' :: 'S' :: d

/-- The message with the code in front of it. -/
def coded (r : Report) : List Char :=
  match r.code with
  | none => r.message
  | some code => code ++ ':' :: ' ' :: r.message

def told (r : Report) : List Char := r.severity.name.toList ++ ' ' :: r.coded

/-- The place behind the file in parentheses. -/
def inParentheses (r : Report) : List Char :=
  r.file ++ '(' :: (Nat.toDigits 10 r.line ++ ',' :: (Nat.toDigits 10 r.column ++ ')' :: ':' :: ' ' :: r.told))

/-- The place behind the file with colons. -/
def withColons (r : Report) : List Char :=
  r.file ++ ':' :: (Nat.toDigits 10 r.line ++ ':' ::
    (Nat.toDigits 10 r.column ++ ' ' :: '-' :: ' ' :: r.told))

def diagnostic (r : Report) : Diagnostic where
  severity := r.severity
  origin := .typecheck
  message := String.ofList r.message
  line := some r.line
  column := some r.column
  rule := r.code.map String.ofList
  phase := some .typecheck

/-- What a checker prints can be told apart. -/
structure Legible (r : Report) : Prop where
  file_ne : r.file ≠ []
  first : ∀ c ∈ r.file.head?, isBlank c = false ∧ c ≠ '{'
  file_clear : ∀ c ∈ r.file, c ≠ '(' ∧ c ≠ ':' ∧ c ≠ '\n'
  line_le : r.line ≤ Word.greatest32
  column_le : r.column ≤ Word.greatest32
  severity : r.severity ≠ .info
  digits : ∀ d ∈ r.digits, IsNumber d
  message_ne : r.message ≠ []
  trimmed : trim r.message = r.message
  oneLine : '\n' ∉ r.message
  uncoded : r.digits = none → ¬ BeginsWithCode r.message

variable {r : Report}

lemma isNumber_toDigits (n : Nat) : IsNumber (Nat.toDigits 10 n) where
  ne := Nat.toDigits_ne_nil
  digits _ hc := isNumeral_of_isDigit (Nat.isDigit_of_mem_toDigits (by decide) (by decide) hc)

namespace Legible

variable (h : r.Legible)

include h

lemma head?_message : ∀ c ∈ r.message.head?, isBlank c = false := by
  intro c hc
  have hhead := List.head?_dropWhile_not isBlank r.message
  rw [← trimStart, trimStart_of_trimmed h.trimmed, hc] at hhead
  simpa using hhead

lemma head?_coded : ∀ c ∈ r.coded.head?, isBlank c = false := by
  unfold coded code
  cases r.digits with
  | none => exact h.head?_message
  | some d =>
    intro c hc
    obtain rfl : 'T' = c := Option.some.inj hc
    decide

lemma ruleCode?_coded : ruleCode? r.coded = r.code.map (·, r.message) := by
  unfold coded code
  cases hd : r.digits with
  | none => exact ruleCode?_eq_none (h.uncoded hd)
  | some d => exact ruleCode?_append (h.digits d hd) h.head?_message

omit h in
/-- What follows the code, or all of it where there is no code. -/
lemma getD_coded : ((r.code.map (·, r.message)).map (·.2)).getD r.coded = r.message := by
  unfold coded
  cases r.code <;> rfl

/-- **Behind a place** the finding is read. -/
lemma findingFrom?_eq {t : List Char}
    (ht : place? t = some ⟨Nat.toDigits 10 r.line, Nat.toDigits 10 r.column, ' ' :: r.told⟩) :
    findingFrom? t = some r.diagnostic := by
  have htold : (' ' :: r.told).dropWhile isBlank = r.told := by
    obtain ⟨c, s, hs, hc⟩ : ∃ c s, r.severity.name.toList = c :: s ∧ isBlank c = false := by
      cases r.severity with
      | info => exact ⟨'i', "nfo".toList, by decide, by decide⟩
      | warning => exact ⟨'w', "arning".toList, by decide, by decide⟩
      | error => exact ⟨'e', "rror".toList, by decide, by decide⟩
    rw [List.dropWhile_cons_of_pos (by decide), told, hs, List.cons_append,
      List.dropWhile_cons_of_neg (by simp [hc])]
  have hseverity : severity? r.told = some (r.severity, r.coded) :=
    severity?_name h.severity h.head?_coded
  have hline : ¬ r.message.contains '\n' = true := by simpa using h.oneLine
  unfold findingFrom?
  simp only [ht, htold, hseverity, h.ruleCode?_coded, getD_coded, Option.bind_eq_bind, Option.bind_some]
  rw [if_neg hline, h.trimmed, decimal?_toDigits h.line_le, decimal?_toDigits h.column_le, Option.map_map]
  rfl

omit h in
lemma exists_told : ∃ x, r.told = x ++ r.message := by
  unfold told coded
  cases r.code with
  | none => exact ⟨r.severity.name.toList ++ [' '], by simp⟩
  | some code => exact ⟨r.severity.name.toList ++ ' ' :: (code ++ [':', ' ']), by simp⟩

omit h in
/-- In the name of a file no place begins, so what comes behind it is looked at next. -/
lemma findingAfterFile?_append {file t : List Char} {d : Diagnostic} (hne : file ≠ [])
    (hclear : ∀ c ∈ file, c ≠ '(' ∧ c ≠ ':' ∧ c ≠ '\n') (ht : findingFrom? t = some d) :
    findingAfterFile? (file ++ t) = some d := by
  induction file with
  | nil => exact absurd rfl hne
  | cons c file ih =>
    obtain ⟨hc, hfile⟩ := List.forall_mem_cons.1 hclear
    rw [List.cons_append, findingAfterFile?, if_neg hc.2.2]
    cases file with
    | nil => rw [List.nil_append, ht, Option.some_or]
    | cons e file =>
      have hnone : findingFrom? (e :: (file ++ t)) = none := by
        have he := hfile e List.mem_cons_self
        unfold findingFrom?
        rw [place?_eq_none ⟨he.1, he.2.1⟩]
        rfl
      rw [List.cons_append, hnone, Option.none_or]
      exact ih (List.cons_ne_nil e file) hfile

/-- A line with a file, a place and what is told of it. -/
lemma finding?_eq (place : List Char) {before after : List Char} (hbefore : ∀ c ∈ before, isBlank c = true)
    (hafter : ∀ c ∈ after, isBlank c = true)
    (hplace : place? (place ++ ' ' :: r.told) =
      some ⟨Nat.toDigits 10 r.line, Nat.toDigits 10 r.column, ' ' :: r.told⟩) :
    finding? (before ++ (r.file ++ (place ++ ' ' :: r.told) ++ after)) = some r.diagnostic := by
  have hhead : (r.file ++ (place ++ ' ' :: r.told)).head? = r.file.head? :=
    List.head?_append_of_ne_nil _ h.file_ne
  have hlast : (r.file ++ (place ++ ' ' :: r.told)).getLast? = r.message.getLast? := by
    obtain ⟨x, hx⟩ := exists_told (r := r)
    have hends : r.file ++ (place ++ ' ' :: r.told) = r.file ++ (place ++ ' ' :: x) ++ r.message := by
      rw [hx]
      simp
    rw [hends, List.getLast?_append_of_ne_nil _ h.message_ne]
  have htrim : trim (before ++ (r.file ++ (place ++ ' ' :: r.told) ++ after)) =
      r.file ++ (place ++ ' ' :: r.told) :=
    trim_around hbefore hafter (hhead ▸ fun c hc => (h.first c hc).1)
      (hlast ▸ getLast?_of_trimmed h.trimmed) (List.append_ne_nil_of_left_ne_nil h.file_ne _)
  have hbrace : ¬ (r.file ++ (place ++ ' ' :: r.told)).head? = some '{' := fun hc =>
    (h.first '{' (hhead ▸ hc)).2 rfl
  unfold finding?
  dsimp only
  rw [htrim, if_neg hbrace]
  exact findingAfterFile?_append h.file_ne h.file_clear (h.findingFrom?_eq hplace)

end Legible

/-- **Findings are read back.** Whatever stands in the message, a finding that is printed in one of the two
ways, with blanks around it, is read as that finding. -/
theorem finding?_printed (h : r.Legible) {before after : List Char}
    (hbefore : ∀ c ∈ before, isBlank c = true) (hafter : ∀ c ∈ after, isBlank c = true) :
    finding? (before ++ (r.inParentheses ++ after)) = some r.diagnostic ∧
      finding? (before ++ (r.withColons ++ after)) = some r.diagnostic := by
  have hline := isNumber_toDigits r.line
  have hcolumn := isNumber_toDigits r.column
  constructor
  · have hplace := place?_parentheses hline hcolumn (' ' :: r.told)
    have hread := h.finding?_eq
      ('(' :: (Nat.toDigits 10 r.line ++ ',' :: (Nat.toDigits 10 r.column ++ [')', ':'])))
      hbefore hafter (by simpa using hplace)
    simpa [inParentheses] using hread
  · have hplace := place?_colons hline hcolumn (' ' :: r.told)
    have hread := h.finding?_eq
      (':' :: (Nat.toDigits 10 r.line ++ ':' :: (Nat.toDigits 10 r.column ++ [' ', '-'])))
      hbefore hafter (by simpa using hplace)
    simpa [withColons] using hread

/-- The message tells of another finding. -/
def nested : Report where
  file := "App.ts".toList
  line := 4
  column := 10
  severity := .warning
  digits := some "2304".toList
  message := "TS9: b(3,4): error TS5: inner".toList

lemma legible_nested : nested.Legible where
  file_ne := by decide
  first := by
    intro c hc
    obtain rfl : 'A' = c := Option.some.inj hc
    decide
  file_clear := List.forall_iff_forall_mem.1 (by decide)
  line_le := by decide
  column_le := by decide
  severity := by decide
  digits := by
    intro d hd
    obtain rfl : "2304".toList = d := Option.some.inj hd
    exact ⟨by decide, List.all_eq_true.1 (by decide)⟩
  message_ne := by decide
  trimmed := by decide
  oneLine := by decide
  uncoded := by
    intro hd
    cases hd

theorem finding?_printed_nested :
    nested.Legible ∧
      finding? (" ".toList ++ (nested.inParentheses ++ "\r\n".toList)) = some nested.diagnostic ∧
      finding? (" ".toList ++ (nested.withColons ++ "\r\n".toList)) = some nested.diagnostic := by
  have hbefore : ∀ c ∈ " ".toList, isBlank c = true := List.all_eq_true.1 (by decide)
  have hafter : ∀ c ∈ "\r\n".toList, isBlank c = true := List.all_eq_true.1 (by decide)
  exact ⟨legible_nested, finding?_printed legible_nested hbefore hafter⟩

end Report

end Mender.Tool
