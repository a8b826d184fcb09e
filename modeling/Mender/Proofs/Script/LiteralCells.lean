import Mender.Proofs.Script.Idle
import Mender.Proofs.Script.Spelled

/-!
Spelled strings among the cells and signs of a script.

A literal in quotes is one cell. A template is read character by character, up to the quote that
closes it. To the grammar either is an operand with nothing attached to it, where a default ends.
-/

namespace Mender.Script

open Mender.Text

/-! ### Cells of a literal -/

/-- What follows in an escape means nothing to a scan. -/
def Quiet (c : Char) : Prop := (Json.hexValue? c).isSome ∨ c = '{' ∨ c = '}'

instance : DecidablePred Quiet := fun _ => inferInstanceAs (Decidable (_ ∨ _))

lemma Quiet.ne {c d : Char} (hc : Quiet c) (hd : d ∈ "\"'\x60\\\n\r$".toList) : c ≠ d := by
  have hall : ∀ d ∈ "\"'\x60\\\n\r$".toList, ¬Quiet d := List.forall_iff_forall_mem.1 (by decide)
  rintro rfl
  exact hall c hd hc

/-- How the text of a piece is put together. -/
inductive Shape (quote : Char) (rest : List Char) : List Char → Prop
  | char (c : Char) (hback : c ≠ '\\') (hquote : c ≠ quote)
      (hend : quote ≠ '\x60' → c ≠ '\n' ∧ c ≠ '\r')
      (hdollar : quote = '\x60' → ¬(c = '$' ∧ rest.head? = some '{')) : Shape quote rest [c]
  | pair (htemplate : quote = '\x60') : Shape quote rest ['\r', '\n']
  | escape (c : Char) (tail : List Char) (htail : ∀ d ∈ tail, Quiet d)
      (hend : c = '\r' → (tail ++ rest).head? ≠ some '\n') : Shape quote rest ('\\' :: c :: tail)
  | joint : Shape quote rest ['\\', '\r', '\n']

lemma Piece.shape {p : Piece} {quote : Char} {rest : List Char} (h : p.Legal quote rest) :
    Shape quote rest p.text := by
  cases p with
  | plain c =>
    obtain ⟨hback, hquote, hreturn, hmore⟩ := h
    refine .char c hback hquote (fun hq => ⟨?_, hreturn⟩) fun hq => ?_
    · rwa [if_neg hq] at hmore
    · rwa [if_pos hq] at hmore
  | lineEnd pair =>
    obtain ⟨hq, -⟩ := h
    cases pair with
    | true => exact .pair hq
    | false =>
      refine .char '\r' (by decide) (hq ▸ by decide) (fun hne => absurd hq hne) fun _ => ?_
      exact fun hdollar => absurd hdollar.1 (by decide)
  | mark c =>
    obtain ⟨-, -, -, hends⟩ := h
    refine .escape c [] (fun d hd => absurd hd List.not_mem_nil) fun hc => ?_
    exact absurd (hc ▸ (by decide : '\r' ∈ lineEnds)) hends
  | zero => exact .escape '0' [] (fun d hd => absurd hd List.not_mem_nil) fun hc => absurd hc (by decide)
  | byte a b => exact .escape 'x' [a, b] (fun d hd => .inl (h d hd)) fun hc => absurd hc (by decide)
  | unit a b c d => exact .escape 'u' [a, b, c, d] (fun d hd => .inl (h d hd)) fun hc => absurd hc (by decide)
  | point ds =>
    refine .escape 'u' ('{' :: (ds ++ ['}'])) (fun d hd => ?_) fun hc => absurd hc (by decide)
    rcases List.mem_cons.1 hd with rfl | hd
    · exact .inr (.inl rfl)
    · rcases List.mem_append.1 hd with hd | hd
      · exact .inl (h.2.1 d hd)
      · exact .inr (.inr (List.mem_singleton.1 hd))
  | joint t =>
    obtain rfl | ⟨c, -, rfl, hend⟩ := h
    · exact .joint
    · exact .escape c [] (fun d hd => absurd hd List.not_mem_nil) hend

def IsQuote (quote : Char) : Prop := quote = '"' ∨ quote = '\''

section

variable {quote : Char} {ps : List Piece} {rest : List Char}

lemma stringEnd_char {c : Char} (hc : c ≠ '\\' ∧ c ≠ quote ∧ c ≠ '\n' ∧ c ≠ '\r') :
    stringEnd? quote false (c :: rest) = stringEnd? quote false rest := by
  obtain ⟨hslash, hquote, hfeed, hreturn⟩ := hc
  have hescape : (c == '\\') = false := beq_eq_false_iff_ne.2 hslash
  rw [stringEnd?, if_neg hquote, if_neg (not_or.2 ⟨hfeed, hreturn⟩), hescape]

lemma stringEnd_quiet (hq : IsQuote quote) {t : List Char} (ht : ∀ c ∈ t, Quiet c) :
    stringEnd? quote false (t ++ rest) = stringEnd? quote false rest := by
  induction t with
  | nil => rfl
  | cons c t ih =>
    obtain ⟨hc, ht⟩ := List.forall_mem_cons.1 ht
    have hquote : c ≠ quote := by rcases hq with rfl | rfl <;> exact hc.ne (by decide)
    rw [List.cons_append, stringEnd_char ⟨hc.ne (by decide), hquote, hc.ne (by decide), hc.ne (by decide)⟩,
      ih ht]

/-- A piece is passed over on the way to the closing quote. -/
lemma stringEnd_piece (hq : IsQuote quote) {t : List Char} (h : Shape quote rest t) :
    stringEnd? quote false (t ++ rest) = stringEnd? quote false rest := by
  have hback : quote ≠ '\\' := by rcases hq with rfl | rfl <;> decide
  have htemplate : quote ≠ '\x60' := by rcases hq with rfl | rfl <;> decide
  have hescape (r : List Char) : stringEnd? quote false ('\\' :: r) = stringEnd? quote true r := by
    rw [stringEnd?, if_neg (Ne.symm hback), if_neg (by decide)]
    rfl
  cases h with
  | char c hslash hquote hend hdollar => exact stringEnd_char ⟨hslash, hquote, hend htemplate⟩
  | pair hq => exact absurd hq htemplate
  | escape c tail htail hend =>
    rw [List.cons_append, List.cons_append, hescape, stringEnd?, if_neg fun h => hend h.1 h.2,
      stringEnd_quiet hq htail]
  | joint =>
    show stringEnd? quote false ('\\' :: '\r' :: '\n' :: rest) = _
    rw [hescape, stringEnd?, if_pos ⟨rfl, rfl⟩, stringEnd?, if_neg fun h => absurd h.1 (by decide)]

/-- **A spelled string is a literal.** -/
theorem isLiteral_literalText (hq : IsQuote quote) (hps : Spelling quote ps) : IsLiteral (literalText quote ps) := by
  refine ⟨quote, _, rfl, hq, ?_⟩
  induction ps with
  | nil => exact if_pos rfl
  | cons p ps ih =>
    obtain ⟨hlegal, hps⟩ := hps
    rw [spelled_cons, List.append_assoc, stringEnd_piece hq (Piece.shape hlegal), ih hps]

end

/-- The cells of a literal. A template is read character by character. -/
def literalCells (quote : Char) (ps : List Piece) : List Cell :=
  if quote = '\x60' then (literalText quote ps).map .plain else [.literal (literalText quote ps)]

lemma joined_literalCells (quote : Char) (ps : List Piece) :
    joined (literalCells quote ps) = literalText quote ps := by
  unfold literalCells
  split
  · exact joined_map_plain _
  · exact List.append_nil _

section

variable {s : Scan} {y : List Char}

/-- A character in a template that leaves it open. -/
lemma cellsFrom_char (hs : s.mode = .template false) {c : Char} (hback : c ≠ '\\') (hquote : c ≠ '\x60')
    (hdollar : ¬(c = '$' ∧ y.head? = some '{')) :
    cellsFrom 0 s (c :: y) = .plain c :: cellsFrom 0 s y := by
  have hstart : s.startsLiteral c = false := by simp [Scan.startsLiteral, hs]
  have hstep : s.step c y.head? = s := by
    simp only [Scan.step, hs, if_neg hback, if_neg hdollar, if_neg hquote]
  rw [cellsFrom, hstart, hstep]
  rfl

lemma cellsFrom_quiet (hs : s.mode = .template false) {t : List Char} (ht : ∀ c ∈ t, Quiet c) :
    cellsFrom 0 s (t ++ y) = t.map .plain ++ cellsFrom 0 s y := by
  induction t with
  | nil => rfl
  | cons c t ih =>
    obtain ⟨hc, ht⟩ := List.forall_mem_cons.1 ht
    have hdollar : c ≠ '$' := hc.ne (by decide)
    rw [List.cons_append, cellsFrom_char hs (hc.ne (by decide)) (hc.ne (by decide)) fun h => hdollar h.1, ih ht]
    rfl

/-- A backslash in a template, with what stands behind it. -/
lemma cellsFrom_escape (hs : s.mode = .template false) (c : Char) :
    cellsFrom 0 s ('\\' :: c :: y) = .plain '\\' :: .plain c :: cellsFrom 0 s y := by
  have hmode : ({ s with mode := .template false } : Scan) = s := by rw [← hs]
  have hstart (c : Char) : s.startsLiteral c = false := by simp [Scan.startsLiteral, hs]
  have hback (next : Option Char) : s.step '\\' next = { s with mode := .template true } := by
    simp [Scan.step, hs]
  have hnext : ({ s with mode := .template true } : Scan).step c y.head? = s := hmode
  have hstart' : ({ s with mode := .template true } : Scan).startsLiteral c = false := rfl
  rw [cellsFrom, hstart, hback]
  show .plain '\\' :: cellsFrom 0 { s with mode := .template true } (c :: y) = _
  rw [cellsFrom, hstart', hnext]
  rfl

/-- **A piece of a template is no more than its characters.** -/
lemma cellsFrom_piece (hs : s.mode = .template false) {t rest : List Char} (h : Shape '\x60' rest t)
    (hy : y.head? = rest.head?) : cellsFrom 0 s (t ++ y) = t.map .plain ++ cellsFrom 0 s y := by
  cases h with
  | char c hback hquote hend hdollar => exact cellsFrom_char hs hback hquote (hy ▸ hdollar rfl)
  | pair hq =>
    have hreturn : ¬('\r' = '$' ∧ ('\n' :: y).head? = some '{') := fun h => absurd h.1 (by decide)
    have hfeed : ¬('\n' = '$' ∧ y.head? = some '{') := fun h => absurd h.1 (by decide)
    show cellsFrom 0 s ('\r' :: '\n' :: y) = _
    rw [cellsFrom_char hs (by decide) (by decide) hreturn, cellsFrom_char hs (by decide) (by decide) hfeed]
    rfl
  | escape c tail htail hend =>
    rw [List.cons_append, List.cons_append, cellsFrom_escape hs, cellsFrom_quiet hs htail]
    rfl
  | joint =>
    have hfeed : ¬('\n' = '$' ∧ y.head? = some '{') := fun h => absurd h.1 (by decide)
    show cellsFrom 0 s ('\\' :: '\r' :: '\n' :: y) = _
    rw [cellsFrom_escape hs, cellsFrom_char hs (by decide) (by decide) hfeed]
    rfl

lemma cellsFrom_spelled (hs : s.mode = .template false) {ps : List Piece} (hps : Spelling '\x60' ps) :
    cellsFrom 0 s (spelled ps ++ '\x60' :: y) =
      (spelled ps ++ ['\x60']).map .plain ++ cellsFrom 0 { s with mode := .code, before := .operand } y := by
  induction ps with
  | nil =>
    have hstart : s.startsLiteral '\x60' = false := by simp [Scan.startsLiteral, hs]
    have hstep : s.step '\x60' y.head? = { s with mode := .code, before := .operand } := by
      simp [Scan.step, hs]
    show cellsFrom 0 s ('\x60' :: y) = _
    rw [cellsFrom, hstart, hstep]
    rfl
  | cons p ps ih =>
    obtain ⟨hlegal, hps⟩ := hps
    have hhead : (spelled ps ++ '\x60' :: y).head? = (spelled ps ++ ['\x60']).head? := by
      cases spelled ps <;> rfl
    rw [spelled_cons, List.append_assoc, cellsFrom_piece hs (Piece.shape hlegal) hhead, ih hps]
    simp only [List.map_append, List.append_assoc]

/-- **The cells of a literal**, whatever its quotes. -/
theorem cellsFrom_literalText (hs : s.mode = .code) {quote : Char} (hq : IsQuote quote ∨ quote = '\x60')
    {ps : List Piece} (hps : Spelling quote ps) :
    cellsFrom 0 s (literalText quote ps ++ y) = literalCells quote ps ++ cellsFrom 0 s.pastLiteral y := by
  have hmode : ({ s with mode := .code, before := .operand } : Scan) = s.pastLiteral := by
    rw [Scan.pastLiteral, ← hs]
  rcases hq with hq | rfl
  · obtain ⟨q, body, hbody, hquote, hend⟩ := isLiteral_literalText hq hps
    have hstart : s.startsLiteral q = true := startsLiteral_iff.2 ⟨hs, hquote⟩
    have hstop := stringEnd_append hend y
    have hlength : (body ++ y).length - y.length = body.length := by simp
    have htemplate : quote ≠ '\x60' := by rcases hq with rfl | rfl <;> decide
    -- the scan stops at the quote that closes the literal, and skips what is before it
    rw [List.nil_append] at hstop
    rw [literalCells, if_neg htemplate, hbody, List.cons_append, cellsFrom, if_pos hstart, hstop]
    simp only [hlength, List.take_left, cellsFrom_skip body.length, List.drop_left]
    rfl
  · have hstart : s.startsLiteral '\x60' = false := by simp [Scan.startsLiteral]
    have hstep (next : Option Char) : s.step '\x60' next = { s with mode := .template false } := by
      simp [Scan.step, hs, Scan.pass]
    rw [literalCells, if_pos rfl, literalText, List.cons_append, List.append_assoc, List.singleton_append,
      cellsFrom, hstart, hstep]
    show _ :: cellsFrom 0 { s with mode := .template false } _ = _
    rw [cellsFrom_spelled rfl hps, ← hmode]
    rfl

end

/-! ### Literals in the grammar -/

/-- A string as a literal in quotes or as a template. -/
structure StringLiteral where
  quote : Char
  pieces : List Piece
  quotes : IsQuote quote ∨ quote = '\x60'
  legal : Spelling quote pieces

namespace StringLiteral

variable (l : StringLiteral)

def text : List Char := literalText l.quote l.pieces

def kind : Literal := if l.quote = '\x60' then .template else .string

def cells : List Cell := literalCells l.quote l.pieces

lemma joined_cells : joined l.cells = l.text := joined_literalCells _ _

/-- The signs of a literal are one double quote, or those of its characters. -/
lemma signs_cells : (l.kind = .string ∧ signs l.cells = ['"']) ∨
    (l.kind = .template ∧ l.quote = '\x60' ∧
      signs l.cells = '\x60' :: (signs ((spelled l.pieces).map .plain) ++ ['\x60'])) := by
  unfold cells kind literalCells
  split
  · next hquote =>
    refine .inr ⟨rfl, hquote, ?_⟩
    rw [literalText, hquote, List.map_cons, List.map_append]
    show _ :: signs _ = _
    rw [signs_append]
    rfl
  · exact .inl ⟨rfl, rfl⟩

end StringLiteral

/-- What may come behind a default. -/
def EndsDefault (t : List Char) : Prop :=
  ∃ c r, (skipGap .blank false t).1 = c :: r ∧ (c = ';' ∨ c = ',' ∨ c = '}')

section

variable {t u : List Char}

lemma takes_cursor {β : Type} {f : Cursor → Reader β} {b : β} (h : ∀ c : Cursor, c.rest = t → Takes (f c) t b u) :
    Takes (cursor >>= f) t b u := by
  intro c hc
  exact h c hc c hc

lemma takes_bracketed {α : Type} {p : Reader α} {a : α} {opening : String} {r : List Char}
    (hopen : (skipGap .blank false t).1 = opening.toList ++ r) (h : Takes p r a u) :
    Takes (bracketed opening p) t a u := by
  have hexpect : Takes (expect opening) t () r := (takes_eat hopen).bind takes_pure
  exact takes_cursor fun c _ => hexpect.bind (takes_inBracket h)

/-- Nothing is attached to an operand that a default ends with. -/
lemma takes_suffixes (ht : EndsDefault t) (n : Nat) (start : List Char) (e : Expr) :
    Takes (run (n + 1) (.suffixes start e)) t e t := by
  obtain ⟨c, r, hc, hstop⟩ := ht
  show Takes (suffixesRule (run n) start e) t e t
  refine takes_ahead.bind ?_
  generalize skipGap .blank false t = q at hc ⊢
  obtain ⟨u, b⟩ := q
  obtain rfl : u = c :: r := hc
  rcases hstop with rfl | rfl | rfl <;> exact takes_pure

lemma takes_operators (ht : EndsDefault t) (n : Nat) (e : Expr) :
    Takes (run (n + 1) (.operators false e)) t e t := by
  obtain ⟨c, r, hc, hstop⟩ := ht
  have hword : name? (skipGap .blank false t).1 = none := by
    rw [hc]
    rcases hstop with rfl | rfl | rfl <;> rfl
  show Takes (operatorsRule (run n) false e) t e t
  have hrest : Takes (operatorsRule.infixRest (run n) false e (c :: r)) t e t := by
    have hno : infixOperator? (c :: r) = none := by
      rcases hstop with rfl | rfl | rfl <;> rfl
    unfold operatorsRule.infixRest
    rw [hno]
    exact (takes_nextWord_none hword).bind (takes_ahead.bind takes_pure)
  refine takes_ahead.bind ?_
  generalize skipGap .blank false t = q at hc ⊢
  obtain ⟨u, b⟩ := q
  obtain rfl : u = c :: r := hc
  have hdouble : ¬(b = true ∧ (startsWith ['+', '+'] (c :: r) = true ∨ startsWith ['-', '-'] (c :: r) = true)) := by
    rcases hstop with rfl | rfl | rfl <;> exact fun h => absurd h.2 (by simp [startsWith, after?])
  dsimp only
  rw [if_neg hdouble]
  rcases hstop with rfl | rfl | rfl <;> exact hrest

/-! ### Templates -/

section

open templateRule

variable {c : Char}

lemma sign_quiet (hc : Quiet c) : (Cell.plain c).sign = c := if_neg (hc.ne (by decide))

lemma chunk_char (hback : c ≠ '\\') (hquote : c ≠ '\x60') (hdollar : ¬(c = '$' ∧ t.head? = some '{')) :
    chunk (c :: t) = chunk t := by
  rw [chunk, if_neg hquote]
  · exact fun _ _ h => absurd h hback
  · exact fun r h ht => hdollar ⟨h, ht ▸ rfl⟩

lemma chunk_quiet {s : List Char} (hs : ∀ c ∈ s, Quiet c) : chunk (signs (s.map .plain) ++ t) = chunk t := by
  induction s with
  | nil => rfl
  | cons c s ih =>
    obtain ⟨hc, hs⟩ := List.forall_mem_cons.1 hs
    have hdollar : c ≠ '$' := hc.ne (by decide)
    rw [List.map_cons, signs_cons, List.cons_append, sign_quiet hc,
      chunk_char (hc.ne (by decide)) (hc.ne (by decide)) fun h => hdollar h.1, ih hs]

/-- The signs of a piece are passed over on the way to the end of a template. -/
lemma chunk_piece {s rest : List Char} (h : Shape '\x60' rest s) (ht : t.head? = some '{' ↔ rest.head? = some '{') :
    chunk (signs (s.map .plain) ++ t) = chunk t := by
  cases h with
  | char c hback hquote hend hdollar =>
    refine chunk_char (t := t) ?_ ?_ ?_
    · rwa [ne_eq, sign_plain_eq_iff (by decide)]
    · rwa [ne_eq, sign_plain_eq_iff (by decide)]
    · rw [sign_plain_eq_iff (by decide), ht]
      exact hdollar rfl
  | pair hq => rfl
  | escape c tail htail hend =>
    show chunk (signs (tail.map .plain) ++ t) = _
    exact chunk_quiet htail
  | joint => rfl

/-- **A template goes up to its closing quote.** -/
lemma chunk_spelled {ps : List Piece} (hps : Spelling '\x60' ps) :
    chunk (signs ((spelled ps).map .plain) ++ '\x60' :: t) = some (true, t) := by
  induction ps with
  | nil => rfl
  | cons p ps ih =>
    obtain ⟨hlegal, hps⟩ := hps
    have hhead : (signs ((spelled ps).map .plain) ++ '\x60' :: t).head? = some '{' ↔
        (spelled ps ++ ['\x60']).head? = some '{' := by
      cases spelled ps with
      | nil => exact Iff.rfl
      | cons d s =>
        show some (Cell.plain d).sign = some '{' ↔ some d = some '{'
        rw [Option.some_inj, Option.some_inj, sign_plain_eq_iff (by decide)]
    rw [spelled_cons, List.map_append, signs_append, List.append_assoc,
      chunk_piece (Piece.shape hlegal) hhead, ih hps]

end

end

/-! ### Literals as operands -/

namespace StringLiteral

variable (l : StringLiteral) {t : List Char}

/-- The place of a literal in front of a text. -/
def part (t : List Char) : Part :=
  ⟨⟨(signs l.cells ++ t).length, t.length⟩,
    String.ofList ((signs l.cells ++ t).take ((signs l.cells ++ t).length - t.length))⟩

lemma beginsLexeme (t : List Char) : BeginsLexeme (signs l.cells ++ t) := by
  rcases l.signs_cells with ⟨-, hsigns⟩ | ⟨-, -, hsigns⟩ <;> rw [hsigns] <;>
    exact ⟨_, _, rfl, by decide, by decide⟩

lemma takes_operand (ht : EndsDefault t) (n : Nat) :
    Takes (run (n + 2) .operand) (' ' :: (signs l.cells ++ t)) (.literal l.kind (l.part t)) t := by
  have hnext : (skipGap .blank false (' ' :: (signs l.cells ++ t))).1 = signs l.cells ++ t := by
    rw [skipGap_space (l.beginsLexeme t)]
  have hsuffix : signs l.cells ++ t <:+ ' ' :: (signs l.cells ++ t) := List.suffix_cons _ _
  have hpart : Takes (partSince (signs l.cells ++ t)) t (l.part t) t := takes_partSince
  have hmore : Takes (run (n + 1) (.suffixes (signs l.cells ++ t) (.literal l.kind (l.part t)))) t _ t :=
    takes_suffixes ht n _ _
  show Takes (operandRule (run (n + 1))) _ _ _
  refine takes_next.bind ?_
  rw [hnext]
  rcases l.signs_cells with ⟨hkind, hsigns⟩ | ⟨hkind, hquote, hsigns⟩
  · rw [hkind] at hmore ⊢
    rw [hsigns] at hsuffix hpart hmore ⊢
    exact (takes_take hsuffix (List.suffix_cons _ _)).bind (hpart.bind hmore)
  · have hlegal : Spelling '\x60' l.pieces := hquote ▸ l.legal
    have htext : signs l.cells ++ t = '\x60' :: (signs ((spelled l.pieces).map .plain) ++ '\x60' :: t) := by
      rw [hsigns, List.cons_append, List.append_assoc, List.singleton_append]
    have hrest : t <:+ signs ((spelled l.pieces).map .plain) ++ '\x60' :: t :=
      (List.suffix_cons _ _).trans (List.suffix_append _ _)
    have htemplate : Takes (run (n + 1) (.template true))
        (signs ((spelled l.pieces).map .plain) ++ '\x60' :: t) true t := by
      refine takes_cursor fun c hc => ?_
      rw [hc, chunk_spelled hlegal]
      exact (takes_take (List.suffix_refl _) hrest).bind takes_pure
    rw [hkind] at hmore ⊢
    rw [htext] at hsuffix hpart hmore ⊢
    exact (takes_take hsuffix (List.suffix_cons _ _)).bind (htemplate.bind (hpart.bind hmore))

/-- **A literal is an expression of its own** where a default ends. -/
lemma takes_expr (ht : EndsDefault t) (n : Nat) :
    Takes (run (n + 3) (.expr false)) (' ' :: (signs l.cells ++ t)) (.literal l.kind (l.part t)) t :=
  (l.takes_operand ht n).bind (takes_operators ht (n + 1) _)

end StringLiteral

end Mender.Script
