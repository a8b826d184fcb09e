import Mathlib.Data.List.Infix
import Mathlib.Tactic.Common
import Mathlib.Tactic.Lemma
import Mender.Json.Printer
import Mender.Json.Reader
import Mender.Proofs.Json.Spelling

/-!
String literals.

Reading a literal gives back the text it was written for. A text that has no backslash, and
does not begin like the rest of an escape, stands in a literal only where it stands in the
text. With the strings read back the objects whose fields do.
-/

namespace Mender.Json

/-- The characters that stand after the backslash of an escape. -/
def escapeTail : List Char := "\"\\nrtbfu0123456789abcdef".toList

lemma hexDigit_mem_escapeTail {n : Nat} (h : n < 16) : hexDigit n ∈ escapeTail := by
  revert n
  decide

lemma hexValue?_hexDigit {n : Nat} (h : n < 16) : hexValue? (hexDigit n) = some n := by
  revert n
  decide

/-- A character is written as itself or as a backslash with what belongs to it. -/
lemma escapeChar_cases (c : Char) :
    (escapeChar c = [c] ∧ c ≠ '"' ∧ c ≠ '\\' ∧ ¬ c.toNat < 32) ∨
      ∃ tail, escapeChar c = '\\' :: tail ∧ tail ⊆ escapeTail := by
  fun_cases escapeChar c with
  | case8 =>
    have hhex : [hexDigit (c.toNat / 16), hexDigit (c.toNat % 16)] ⊆ escapeTail := by
      simp only [List.cons_subset, List.nil_subset, and_true]
      exact ⟨hexDigit_mem_escapeTail (by omega), hexDigit_mem_escapeTail (by omega)⟩
    exact .inr ⟨_, rfl, List.append_subset.2 ⟨(by decide : ['u', '0', '0'] ⊆ escapeTail), hhex⟩⟩
  | case9 hquote hback _ _ _ _ _ hlow => exact .inl ⟨rfl, hquote, hback, hlow⟩
  | _ =>
    refine .inr ⟨_, rfl, ?_⟩
    decide

lemma stringTail_unicode {c : Char} (h : c.toNat < 32) (more : List Char) :
    stringTail .plain (['\\', 'u', '0', '0', hexDigit (c.toNat / 16), hexDigit (c.toNat % 16)] ++
      more) = stringTail.push c (stringTail .plain more) := by
  have hc : Char.ofNat (c.toNat / 16 * 16 + c.toNat % 16) = c := by
    rw [Nat.div_add_mod', Char.ofNat_toNat]
  have hzero : hexValue? '0' = some 0 := by decide
  have hn : ¬ (0xDC00 ≤ c.toNat / 16 * 16 + c.toNat % 16 ∧
      c.toNat / 16 * 16 + c.toNat % 16 ≤ 0xDFFF) := by omega
  have hm : ¬ (0xD800 ≤ c.toNat / 16 * 16 + c.toNat % 16 ∧
      c.toNat / 16 * 16 + c.toNat % 16 ≤ 0xDBFF) := by omega
  simp only [List.cons_append, List.nil_append, stringTail, hzero,
    hexValue?_hexDigit (show c.toNat / 16 < 16 by omega),
    hexValue?_hexDigit (show c.toNat % 16 < 16 by omega), finishHex, Nat.zero_mul, Nat.zero_add]
  rw [if_neg hn, if_neg hm, hc]
  simp

lemma stringTail_escapeChar (c : Char) (more : List Char) :
    stringTail .plain (escapeChar c ++ more) = stringTail.push c (stringTail .plain more) := by
  fun_cases escapeChar c with
  | case6 _ _ _ _ _ hback =>
    obtain rfl : c = '\x08' := Char.toNat_inj.1 hback
    rfl
  | case7 _ _ _ _ _ _ hfeed =>
    obtain rfl : c = '\x0c' := Char.toNat_inj.1 hfeed
    rfl
  | case8 _ _ _ _ _ _ _ hlow => exact stringTail_unicode hlow more
  | case9 => simp [stringTail, *]
  | _ =>
    subst c
    rfl

/-- **A literal is read as the text it was written for**, up to its closing quote. -/
theorem string_flatMap_escapeChar (s : String) (rest : List Char) :
    string (s.toList.flatMap escapeChar ++ '"' :: rest) = .ok (s, rest) := by
  have h : ∀ t, stringTail .plain (t.flatMap escapeChar ++ '"' :: rest) = .ok (t, rest) := by
    intro t
    induction t with
    | nil => rfl
    | cons c t ih =>
      rw [List.flatMap_cons, List.append_assoc, stringTail_escapeChar, ih]
      rfl
  rw [string, h]
  simp [Except.map]

/-- Different texts have different literals. -/
lemma quoted_inj {s t : String} : quoted s = quoted t ↔ s = t := by
  refine ⟨fun h => ?_, congrArg _⟩
  have hlist : s.toList.flatMap escapeChar ++ ['"'] = t.toList.flatMap escapeChar ++ ['"'] :=
    (List.cons.inj (String.ofList_injective h)).2
  have hs := string_flatMap_escapeChar s []
  rw [hlist, string_flatMap_escapeChar] at hs
  cases hs
  rfl

/-! ### What stands in a literal -/

lemma escapeChar_printable {c d : Char} (h : d ∈ escapeChar c) : ¬ d.toNat < 32 := by
  rcases escapeChar_cases c with ⟨he, -, -, hc⟩ | ⟨tail, he, htail⟩
  · rw [he, List.mem_singleton] at h
    exact h ▸ hc
  · have hall : ('\\' :: escapeTail).all (fun d => 32 ≤ d.toNat) = true := by decide
    rw [he] at h
    simpa using List.all_eq_true.1 hall d (List.cons_subset_cons _ htail h)

lemma quote_printable {t : List Char} {d : Char} (h : d ∈ quote t) : ¬ d.toNat < 32 := by
  rcases List.mem_append.1 h with h | h
  · rcases List.mem_cons.1 h with rfl | h
    · decide
    · obtain ⟨c, -, hc⟩ := List.mem_flatMap.1 h
      exact escapeChar_printable hc
  · rw [List.mem_singleton.1 h]
    decide

/-- What stands in a literal is of its text, or it belongs to an escape. -/
lemma mem_of_mem_quote {t : List Char} {d : Char} (hd : d ≠ '"' ∧ d ≠ '\\' ∧ d ∉ escapeTail)
    (h : d ∈ quote t) : d ∈ t := by
  obtain ⟨hquote, hback, htail⟩ := hd
  rcases List.mem_append.1 h with h | h
  · rcases List.mem_cons.1 h with rfl | h
    · exact absurd rfl hquote
    · obtain ⟨c, hc, hmem⟩ := List.mem_flatMap.1 h
      rcases escapeChar_cases c with ⟨he, -⟩ | ⟨tail, he, hsub⟩
      · rw [he, List.mem_singleton] at hmem
        exact hmem ▸ hc
      · rw [he] at hmem
        rcases List.mem_cons.1 hmem with rfl | hmem
        · exact absurd rfl hback
        · exact absurd (hsub hmem) htail
  · exact absurd (List.mem_singleton.1 h) hquote

lemma length_le_flatMap_escapeChar (t : List Char) : t.length ≤ (t.flatMap escapeChar).length := by
  induction t with
  | nil => simp
  | cons c t ih =>
    have : 1 ≤ (escapeChar c).length := by
      rcases escapeChar_cases c with ⟨he, -⟩ | ⟨tail, he, -⟩ <;> simp [he]
    simp only [List.flatMap_cons, List.length_append, List.length_cons]
    omega

/-- The text stands in its literal as it is. -/
def Verbatim (t : List Char) : Prop := ∀ c ∈ t, c ≠ '"' ∧ c ≠ '\\' ∧ ¬ c.toNat < 32

-- by a walk through the text, not through all characters there are
instance : DecidablePred Verbatim := fun t => List.decidableBAll _ t

lemma escapeChar_of_verbatim {c : Char} (h : c ≠ '"' ∧ c ≠ '\\' ∧ ¬ c.toNat < 32) :
    escapeChar c = [c] := by
  obtain ⟨hquote, hback, hlow⟩ := h
  have hne {d : Char} (hd : d.toNat < 32) : c ≠ d := fun he => hlow (he ▸ hd)
  rw [escapeChar, if_neg hquote, if_neg hback, if_neg (hne (by decide)), if_neg (hne (by decide)),
    if_neg (hne (by decide)), if_neg (by omega), if_neg (by omega), if_neg hlow]

lemma Verbatim.flatMap_escapeChar {t : List Char} (h : Verbatim t) : t.flatMap escapeChar = t := by
  induction t with
  | nil => rfl
  | cons c t ih =>
    obtain ⟨hc, ht⟩ := List.forall_mem_cons.1 h
    rw [List.flatMap_cons, escapeChar_of_verbatim hc, ih ht, List.singleton_append]

/-- What is not written as it is gets longer, and again it is not. -/
lemma longer_of_not_verbatim {t : List Char} (h : ¬ Verbatim t) :
    t.length < (t.flatMap escapeChar).length ∧ ¬ Verbatim (t.flatMap escapeChar) := by
  simp only [Verbatim, not_forall] at h
  obtain ⟨c, hc, hnot⟩ := h
  obtain ⟨a, b, rfl⟩ := List.append_of_mem hc
  obtain ⟨d, tail, htail⟩ : ∃ d tail, escapeChar c = '\\' :: d :: tail := by
    fun_cases escapeChar c with
    | case9 hquote hback _ _ _ _ _ hlow => exact absurd ⟨hquote, hback, hlow⟩ hnot
    | _ => exact ⟨_, _, rfl⟩
  have ha := length_le_flatMap_escapeChar a
  have hb := length_le_flatMap_escapeChar b
  rw [List.flatMap_append, List.flatMap_cons, htail]
  refine ⟨?_, fun hv => (hv '\\' (by simp)).2.1 rfl⟩
  simp only [List.length_append, List.length_cons]
  omega

variable {needle : List Char}

lemma prefix_of_prefix_flatMap_escapeChar (hb : '\\' ∉ needle) {t : List Char}
    (h : needle <+: t.flatMap escapeChar) : needle <+: t := by
  induction t generalizing needle with
  | nil => exact h
  | cons c t ih =>
    cases needle with
    | nil => exact List.nil_prefix
    | cons n ns =>
      obtain ⟨hn, hns⟩ := not_or.1 (mt List.mem_cons.2 hb)
      rw [List.flatMap_cons] at h
      rcases escapeChar_cases c with ⟨he, -⟩ | ⟨tail, he, -⟩ <;>
        rw [he, List.cons_append, List.cons_prefix_cons] at h
      · exact List.cons_prefix_cons.2 ⟨h.1, ih hns h.2⟩
      · exact absurd h.1.symm hn

lemma infix_of_infix_append {n : Char} {ns a b : List Char} (hn : n ∉ a)
    (h : n :: ns <:+: a ++ b) : n :: ns <:+: b := by
  induction a with
  | nil => exact h
  | cons c a ih =>
    obtain ⟨hc, ha⟩ := not_or.1 (mt List.mem_cons.2 hn)
    rcases List.infix_cons_iff.1 h with h | h
    · exact absurd (List.cons_prefix_cons.1 h).1 hc
    · exact ih ha h

/-- A text of its own: no escape can make it or break it. -/
structure Unescaped (needle : List Char) : Prop where
  backslash : '\\' ∉ needle
  head : ∃ n ns, needle = n :: ns ∧ n ∉ escapeTail

/-- **A literal has no stretch that its text does not have**, escapes apart. -/
theorem infix_of_infix_flatMap_escapeChar (hu : Unescaped needle) {t : List Char}
    (h : needle <:+: t.flatMap escapeChar) : needle <:+: t := by
  obtain ⟨hb, n, ns, rfl, hn⟩ := hu
  induction t with
  | nil => exact h
  | cons c t ih =>
    rcases escapeChar_cases c with ⟨he, -⟩ | ⟨tail, he, htail⟩
    · have hflat : (c :: t).flatMap escapeChar = c :: t.flatMap escapeChar := by
        rw [List.flatMap_cons, he, List.singleton_append]
      rcases List.infix_cons_iff.1 (hflat ▸ h) with hp | hi
      · exact (prefix_of_prefix_flatMap_escapeChar hb (hflat ▸ hp)).isInfix
      · exact List.infix_cons_iff.2 (.inr (ih hi))
    · -- the needle begins neither with the backslash nor inside the escape
      rw [List.flatMap_cons] at h
      have : n ∉ escapeChar c := by
        rw [he, List.mem_cons, not_or]
        exact ⟨fun hc => hb (hc ▸ List.mem_cons_self), fun hc => hn (htail hc)⟩
      exact List.infix_cons_iff.2 (.inr (ih (infix_of_infix_append this h)))

/-! ### Reading what was written -/

/-- The reading `item` gives `v` back from its text, whatever follows. -/
def ReadsBack (item : List Char → Reading Json) (v : Json) : Prop :=
  ∀ rest, item (print v ++ rest) = .ok (v, rest)

lemma quote_append (t rest : List Char) :
    quote t ++ rest = '"' :: (t.flatMap escapeChar ++ '"' :: rest) := by
  simp [quote]

lemma readsBack_str (inner : Option (List Char → Reading Json)) (s : String) :
    ReadsBack (valueWith inner) (.str s) := by
  intro rest
  rw [print, quote_append, valueWith, skipSpace_cons (by decide)]
  exact congrArg (Except.map fun p => (Json.str p.1, p.2)) (string_flatMap_escapeChar s rest)

variable {item : List Char → Reading Json}

lemma member_print {v : Json} (h : ReadsBack item v) (k : String) (rest : List Char) :
    member item k (':' :: (print v ++ rest)) = .ok (v, rest) := by
  have hc : colon (':' :: (print v ++ rest)) = .ok (print v ++ rest) := by
    rw [colon, skipSpace_cons (by decide)]
    rfl
  rw [member, hc]
  simp only [Except.bind, h rest]

lemma printField_append (k : String) (v : Json) (rest : List Char) :
    printField (k, v) ++ rest =
      '"' :: (k.toList.flatMap escapeChar ++ '"' :: ':' :: (print v ++ rest)) := by
  rw [printField, List.append_assoc, quote_append]
  rfl

/-- A field whose key has been found, and what is read after it. -/
lemma members_field {v : Json} (h : ReadsBack item v) {k : String} {first : Bool}
    {t s rest : List Char} (ht : nextKey first t = .ok (some s, s))
    (hs : '"' :: s = printField (k, v) ++ rest) (n : Nat) :
    members item (n + 1) first t =
      (members item n false rest).map fun p => ((k, v) :: p.1, p.2) := by
  rw [printField_append] at hs
  obtain rfl := (List.cons.inj hs).2
  rw [members, ht]
  simp only [string_flatMap_escapeChar, member_print h]

lemma members_printFields {es : List (String × Json)} (h : ∀ e ∈ es, ReadsBack item e.2)
    {n : Nat} (hn : es.length < n) (rest : List Char) :
    members item n false (printFields es ++ rest) = .ok (es, rest) := by
  induction es generalizing n with
  | nil =>
    obtain ⟨n, rfl⟩ := Nat.exists_eq_add_one_of_ne_zero (Nat.ne_of_gt hn)
    rw [printFields, List.singleton_append, members, nextKey, skipSpace_cons (by decide)]
    rfl
  | cons e es ih =>
    obtain ⟨n, rfl⟩ := Nat.exists_eq_add_one_of_ne_zero (Nat.ne_of_gt (Nat.zero_lt_of_lt hn))
    obtain ⟨k, v⟩ := e
    obtain ⟨hv, hes⟩ := List.forall_mem_cons.1 h
    have hkey : nextKey false (printFields ((k, v) :: es) ++ rest) =
        .ok (some (printField (k, v) ++ (printFields es ++ rest)).tail,
          (printField (k, v) ++ (printFields es ++ rest)).tail) := by
      rw [printFields, List.cons_append, List.cons_append, List.append_assoc, nextKey,
        skipSpace_cons (by decide), printField_append]
      simp [skipSpace_cons (show isSpace '"' = false by decide)]
    rw [members_field hv hkey (by rw [printField_append]; rfl) n,
      ih hes (by simpa using hn)]
    rfl

lemma length_le_printFields (es : List (String × Json)) : es.length < (printFields es).length := by
  induction es with
  | nil => simp [printFields]
  | cons e es ih =>
    simp only [printFields, List.length_cons, List.length_append]
    omega

/-- **An object reads back** when its fields do and their names stand in order. -/
theorem readsBack_obj {es : List (String × Json)} (h : ∀ e ∈ es, ReadsBack item e.2)
    (hs : ofFields es = .obj es) : ReadsBack (valueWith (some item)) (.obj es) := by
  intro rest
  cases es with
  | nil =>
    rw [print, List.cons_append, valueWith, skipSpace_cons (by decide)]
    rfl
  | cons e es =>
    obtain ⟨k, v⟩ := e
    obtain ⟨hv, hes⟩ := List.forall_mem_cons.1 h
    have hkey : nextKey true (printField (k, v) ++ (printFields es ++ rest)) =
        .ok (some (printField (k, v) ++ (printFields es ++ rest)).tail,
          (printField (k, v) ++ (printFields es ++ rest)).tail) := by
      rw [printField_append, nextKey, skipSpace_cons (by decide)]
      rfl
    have hlen : es.length < (printField (k, v) ++ (printFields es ++ rest)).length := by
      have := length_le_printFields es
      simp only [List.length_append]
      omega
    rw [print, List.cons_append, List.cons_append, List.append_assoc, valueWith,
      skipSpace_cons (by decide)]
    simp only [members_field hv hkey (by rw [printField_append]; rfl),
      members_printFields hes hlen, Except.map, hs]

lemma parse?_print {v : Json} (h : ReadsBack (value depthLimit) v) : parse? (print v) = some v := by
  have hv := h []
  rw [List.append_nil] at hv
  rw [parse?, parse, hv]
  rfl

end Mender.Json
