import Mathlib.Data.List.Infix
import Mender.Proofs.Json.Spelling

/-!
How far the reading of a number reaches.

The reader of numbers takes digits, goes on behind a point or the letter of an exponent, and
converts what it has taken. What it takes is a number of its own: whatever follows, as long as the
number does not go on, the same is read.
-/

namespace Mender.Json

/-- Whatever the reader takes is a number of its own. -/
def Local (reader : List Char → Reading Json) : Prop :=
  ∀ t v r, reader t = .ok (v, r) → ∃ u, t = u ++ r ∧ Numeral reader v u

/-- The text does not begin with a digit. -/
def Undigited (t : List Char) : Prop := ∀ c ∈ t.head?, c.isDigit = false

lemma Stops.undigited {t : List Char} (h : Stops t) : Undigited t := fun c hc => (h c hc).1

lemma span_digits {ds t : List Char} (hd : ∀ c ∈ ds, c.isDigit = true) (ht : Undigited t) :
    (ds ++ t).span Char.isDigit = (ds, t) := by
  have hrest : t.takeWhile Char.isDigit = [] ∧ t.dropWhile Char.isDigit = t := by
    cases t with
    | nil => exact ⟨rfl, rfl⟩
    | cons c t =>
      have hc : ¬ c.isDigit = true := by simpa using ht c rfl
      exact ⟨List.takeWhile_cons_of_neg hc, List.dropWhile_cons_of_neg hc⟩
  rw [List.span_eq_takeWhile_dropWhile, List.takeWhile_append_of_pos hd,
    List.dropWhile_append_of_pos hd, hrest.1, hrest.2, List.append_nil]

lemma exists_digits (t : List Char) :
    ∃ ds r, t = ds ++ r ∧ (∀ c ∈ ds, c.isDigit = true) ∧ Undigited r := by
  refine ⟨_, _, List.takeWhile_append_dropWhile.symm, fun c hc => List.mem_takeWhile_imp hc, ?_⟩
  intro c hc
  have := List.head?_dropWhile_not Char.isDigit t
  rw [Option.mem_def.1 hc] at this
  simpa using this

lemma isNumeric_of_isDigit {c : Char} (h : c.isDigit = true) : isNumeric c = true := by
  simp [isNumeric, h]

/-- The reader takes nothing, and fails or not whatever follows. -/
def Idle (reader : List Char → Reading Json) : Prop :=
  ∀ t v r, reader t = .ok (v, r) → r = t ∧ closer v = [] ∧ ∀ r', reader r' = .ok (v, r')

lemma idle_realOf (negative : Bool) (n : Nat) (e : Int) : Idle (realOf negative n e) := by
  intro t v r h
  unfold realOf at h ⊢
  split at h
  · cases h
    exact ⟨rfl, rfl, fun _ => rfl⟩
  · cases h

lemma idle_ok {v : Json} (h : closer v = []) : Idle fun t => .ok (v, t) := by
  intro t w r hw
  cases hw
  exact ⟨rfl, h, fun _ => rfl⟩

lemma idle_wholeOf (negative : Bool) (n dropped : Nat) : Idle (wholeOf negative n dropped) := by
  unfold wholeOf
  split_ifs
  · exact idle_realOf _ _ _
  · exact idle_ok rfl
  · exact idle_realOf _ _ _
  · exact idle_ok rfl

/-- A reader that goes on with `next` behind the characters `ds`. -/
lemma Numeral.behind {reader next : List Char → Reading Json} {ds u : List Char} {v : Json}
    (h : Numeral next v u) (hd : ∀ c ∈ ds, isNumeric c = true)
    (hread : ∀ t, Stops t → reader (ds ++ (u ++ t)) = next (u ++ t)) :
    Numeral reader v (ds ++ u) where
  reads := fun r hr => by rw [List.append_assoc, hread r hr, h.reads r hr]
  kind := h.kind
  chars := List.forall_mem_append.2 ⟨hd, h.chars⟩

/-- A reader that takes digits before it goes on. -/
structure Digital (reader : List Char → Reading Json)
    (next : List Char → List Char → Reading Json) : Prop where
  fails : ∀ t, Undigited t → ∃ e, reader t = .error e
  goes : ∀ ds t, ds ≠ [] → (∀ c ∈ ds, c.isDigit = true) → Undigited t →
    reader (ds ++ t) = next ds t

lemma Digital.exists {reader : List Char → Reading Json}
    {next : List Char → List Char → Reading Json} (h : Digital reader next) {t r : List Char}
    {v : Json} (hok : reader t = .ok (v, r)) :
    ∃ ds t', t = ds ++ t' ∧ ds ≠ [] ∧ (∀ c ∈ ds, c.isDigit = true) ∧ Undigited t' ∧
      next ds t' = .ok (v, r) := by
  obtain ⟨ds, t', rfl, hd, ht⟩ := exists_digits t
  rcases eq_or_ne ds [] with rfl | hne
  · obtain ⟨e, he⟩ := h.fails t' ht
    rw [List.nil_append, he] at hok
    cases hok
  · exact ⟨ds, t', rfl, hne, hd, ht, h.goes ds t' hne hd ht ▸ hok⟩

/-- Sign and digits of an exponent. -/
def signOf : List Char → Bool × List Char
  | '+' :: r => (false, r)
  | '-' :: r => (true, r)
  | t => (false, t)

/-- What follows the digits of an exponent. -/
def exponentEnd (negative : Bool) (n : Nat) (e : Int) (down : Bool) (ds t : List Char) :
    Reading Json :=
  match gather greatestExponent 0 ds with
  | (k, []) => realOf negative n (if down then e - k else e + k) t
  | (_, _ :: more) =>
    if n ≠ 0 ∧ !down then failHere .numberOutOfRange (more ++ t)
    else .ok (.real (signed negative .zero), t)

/-- The digits of an exponent and what follows them. -/
def exponentDigits (negative : Bool) (n : Nat) (e : Int) (down : Bool) (t : List Char) :
    Reading Json :=
  match t.span Char.isDigit with
  | ([], []) => failHere (.ended .value) []
  | ([], rest) => failNext .invalidNumber rest
  | (ds, rest) => exponentEnd negative n e down ds rest

lemma exponentPart_eq (negative : Bool) (n : Nat) (e : Int) (t : List Char) :
    exponentPart negative n e t = exponentDigits negative n e (signOf t).1 (signOf t).2 := by
  fun_cases signOf t with
  | case1 => rfl
  | case2 => rfl
  | case3 t hplus hminus =>
    unfold exponentPart
    split
    next down u hu =>
    split at hu
    · exact absurd rfl (hplus _)
    · exact absurd rfl (hminus _)
    · cases hu
      rfl

lemma idle_exponentEnd (negative : Bool) (n : Nat) (e : Int) (down : Bool) (ds : List Char) :
    Idle (exponentEnd negative n e down ds) := by
  intro t v r h
  unfold exponentEnd at h ⊢
  split at h
  · exact idle_realOf _ _ _ t v r h
  · split_ifs at h ⊢
    · cases h
    · exact idle_ok rfl t v r h

lemma span_undigited {t : List Char} (ht : Undigited t) : t.span Char.isDigit = ([], t) :=
  span_digits (List.forall_mem_nil _) ht

lemma digital_exponentDigits (negative : Bool) (n : Nat) (e : Int) (down : Bool) :
    Digital (exponentDigits negative n e down) (exponentEnd negative n e down) where
  fails := fun t ht => by
    rw [exponentDigits, span_undigited ht]
    cases t with
    | nil => exact ⟨_, rfl⟩
    | cons => exact ⟨_, rfl⟩
  goes := fun ds t hne hd ht => by
    obtain ⟨d, ds, rfl⟩ := List.exists_cons_of_ne_nil hne
    rw [exponentDigits, span_digits hd ht]

lemma head?_append_undigited {u r r' : List Char} (h : Undigited (u ++ r)) (hr : Undigited r') :
    Undigited (u ++ r') := by
  cases u with
  | nil => exact hr
  | cons c u => exact h

lemma Digital.local {reader : List Char → Reading Json}
    {next : List Char → List Char → Reading Json} (h : Digital reader next)
    (hl : ∀ ds, Local (next ds)) : Local reader := by
  intro t v r hok
  obtain ⟨ds, t', rfl, hne, hd, ht, hnext⟩ := h.exists hok
  obtain ⟨u, rfl, hu⟩ := hl ds t' v r hnext
  refine ⟨ds ++ u, by rw [List.append_assoc], hu.behind (fun c hc => isNumeric_of_isDigit (hd c hc))
    fun t hstop => h.goes ds _ hne hd (head?_append_undigited ht hstop.undigited)⟩

lemma exists_sign (t : List Char) : ∃ s, t = s ++ (signOf t).2 ∧ (∀ c ∈ s, isNumeric c = true) ∧
    ∀ c u, c.isDigit = true → signOf (s ++ c :: u) = ((signOf t).1, c :: u) := by
  fun_cases signOf t with
  | case1 r => exact ⟨['+'], rfl, List.forall_mem_singleton.2 rfl, fun _ _ _ => rfl⟩
  | case2 r => exact ⟨['-'], rfl, List.forall_mem_singleton.2 rfl, fun _ _ _ => rfl⟩
  | case3 t _ _ =>
    refine ⟨[], rfl, List.forall_mem_nil _, fun c u hc => ?_⟩
    unfold signOf
    split
    · next heq =>
      cases heq
      exact absurd hc (by decide)
    · next heq =>
      cases heq
      exact absurd hc (by decide)
    · rfl

lemma local_exponentPart (negative : Bool) (n : Nat) (e : Int) :
    Local (exponentPart negative n e) := by
  intro t v r hok
  obtain ⟨s, ht, hs, hsign⟩ := exists_sign t
  have hdigital := digital_exponentDigits negative n e (signOf t).1
  rw [exponentPart_eq] at hok
  obtain ⟨ds, t', htail, hne, hd, hstart, hend⟩ := hdigital.exists hok
  obtain ⟨rfl, hv, hall⟩ := idle_exponentEnd _ _ _ _ _ t' v r hend
  rw [htail] at ht
  refine ⟨s ++ ds, by rw [List.append_assoc]; exact ht, fun r' hr' => ?_, hv, ?_⟩
  · obtain ⟨d, ds', hds⟩ := List.exists_cons_of_ne_nil hne
    have hdigit : d.isDigit = true := hd d (hds ▸ List.mem_cons_self)
    have hsplit : signOf (s ++ ds ++ r') = ((signOf t).1, ds ++ r') := by
      rw [List.append_assoc, hds]
      exact hsign d (ds' ++ r') hdigit
    rw [exponentPart_eq, hsplit, hdigital.goes ds r' hne hd hr'.undigited, hall r']
  · exact List.forall_mem_append.2 ⟨hs, fun c hc => isNumeric_of_isDigit (hd c hc)⟩

/-- A reader of what may follow digits: nothing, or one of some letters and more. -/
structure Forks (reader idle : List Char → Reading Json)
    (next : Char → List Char → Reading Json) : Prop where
  rests : Idle idle
  stops : ∀ t, Stops t → reader t = idle t
  goes : ∀ t, reader t = idle t ∨
    ∃ c r, t = c :: r ∧ isNumeric c = true ∧ Local (next c) ∧ ∀ r, reader (c :: r) = next c r

lemma Forks.local {reader idle : List Char → Reading Json}
    {next : Char → List Char → Reading Json} (h : Forks reader idle next) : Local reader := by
  intro t v r hok
  rcases h.goes t with hidle | ⟨c, r', rfl, hc, hl, hgoes⟩
  · rw [hidle] at hok
    obtain ⟨rfl, hv, hall⟩ := h.rests t v r hok
    exact ⟨[], rfl, fun r hr => (h.stops r hr).trans (hall r), hv, List.forall_mem_nil _⟩
  · rw [hgoes] at hok
    obtain ⟨u, rfl, hu⟩ := hl r' v r hok
    have hread : Numeral reader v ([c] ++ u) :=
      hu.behind (by simpa using hc) fun t _ => hgoes (u ++ t)
    exact ⟨c :: u, rfl, hread⟩

/-- What follows the digits of a fraction. -/
def fractionEnd (negative : Bool) (n : Nat) (e : Int) (ds t : List Char) : Reading Json :=
  let (n, more) := gather Word.greatest64 n ds
  let e := e - (ds.length - more.length : Nat)
  match t with
  | 'e' :: r | 'E' :: r => exponentPart negative n e r
  | _ => realOf negative n e t

lemma local_fractionEnd (negative : Bool) (n : Nat) (e : Int) (ds : List Char) :
    Local (fractionEnd negative n e ds) := by
  rcases hgather : gather Word.greatest64 n ds with ⟨n', more⟩
  have h : Forks (fractionEnd negative n e ds)
      (realOf negative n' (e - (ds.length - more.length : Nat)))
      (fun _ => exponentPart negative n' (e - (ds.length - more.length : Nat))) := by
    refine ⟨idle_realOf _ _ _, fun t ht => ?_, fun t => ?_⟩ <;>
      simp only [fractionEnd, hgather] <;> split
    · exact absurd rfl (ht 'e' rfl).2.2.1
    · exact absurd rfl (ht 'E' rfl).2.2.2
    · rfl
    · exact .inr ⟨_, _, rfl, by decide, local_exponentPart _ _ _, fun _ => rfl⟩
    · exact .inr ⟨_, _, rfl, by decide, local_exponentPart _ _ _, fun _ => rfl⟩
    · exact .inl rfl
  exact h.local

lemma local_fractionPart (negative : Bool) (n : Nat) (e : Int) :
    Local (fractionPart negative n e) := by
  have h : Digital (fractionPart negative n e) (fractionEnd negative n e) := by
    refine ⟨fun t ht => ?_, fun ds t hne hd ht => ?_⟩
    · rw [fractionPart, span_undigited ht]
      cases t with
      | nil => exact ⟨_, rfl⟩
      | cons => exact ⟨_, rfl⟩
    · obtain ⟨d, ds, rfl⟩ := List.exists_cons_of_ne_nil hne
      rw [fractionPart, span_digits hd ht]
      rfl
  exact h.local (local_fractionEnd negative n e)

lemma local_tail (negative : Bool) (n dropped : Nat) : Local (number.tail negative n dropped) := by
  have h : Forks (number.tail negative n dropped) (wholeOf negative n dropped)
      (fun c => if c = '.' then fractionPart negative n dropped
        else exponentPart negative n dropped) := by
    refine ⟨idle_wholeOf _ _ _, fun t ht => ?_, fun t => ?_⟩ <;> unfold number.tail <;> split
    · exact absurd rfl (ht '.' rfl).2.1
    · exact absurd rfl (ht 'e' rfl).2.2.1
    · exact absurd rfl (ht 'E' rfl).2.2.2
    · rfl
    · exact .inr ⟨_, _, rfl, by decide, local_fractionPart _ _ _, fun _ => rfl⟩
    · exact .inr ⟨_, _, rfl, by decide, local_exponentPart _ _ _, fun _ => rfl⟩
    · exact .inr ⟨_, _, rfl, by decide, local_exponentPart _ _ _, fun _ => rfl⟩
    · exact .inl rfl
  exact h.local

/-- What follows the digits of a number. -/
def numberEnd (negative : Bool) (ds t : List Char) : Reading Json :=
  match ds with
  | ['0'] => number.tail negative 0 0 t
  | '0' :: ds => failNext .invalidNumber (ds ++ t)
  | ds =>
    let (n, more) := gather Word.greatest64 0 ds
    number.tail negative n more.length t

lemma local_numberEnd (negative : Bool) (ds : List Char) : Local (numberEnd negative ds) := by
  unfold numberEnd
  split
  · exact local_tail _ _ _
  · intro t v r h
    cases h
  · exact local_tail _ _ _

lemma digital_number (negative : Bool) : Digital (number negative) (numberEnd negative) where
  fails := fun t ht => by
    rw [number, span_undigited ht]
    cases t with
    | nil => exact ⟨_, rfl⟩
    | cons => exact ⟨_, rfl⟩
  goes := fun ds t hne hd ht => by
    obtain ⟨d, ds, rfl⟩ := List.exists_cons_of_ne_nil hne
    rw [number, span_digits hd ht]
    by_cases hz : d = '0'
    · subst hz
      cases ds <;> rfl
    · simp [numberEnd, hz]

lemma local_number (negative : Bool) : Local (number negative) :=
  (digital_number negative).local (local_numberEnd negative)

end Mender.Json
