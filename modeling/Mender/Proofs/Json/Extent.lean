import Mender.Proofs.Json.Numeral

/-!
How far a reading reaches.

What is read is spelled by the text up to where the reading ends, and does not depend on what
follows. With the other direction this says which texts are read as a value at all.
-/

namespace Mender.Json

lemma exists_of_map_eq_ok {α β : Type} {x : Except Failure α} {f : α → β} {y : β}
    (h : x.map f = .ok y) : ∃ a, x = .ok a ∧ f a = y := by
  cases x with
  | error e => cases h
  | ok a => exact ⟨a, rfl, Except.ok.inj h⟩

lemma wordTail_eq {w t r : List Char} (h : wordTail w t = .ok r) : t = w ++ r := by
  fun_induction wordTail w t with
  | case1 t => cases h; rfl
  | case2 => cases h
  | case3 w ws r ih => rw [ih h, List.cons_append]
  | case4 => cases h

/-! ### Strings -/

/-- Whether the state stands behind a backslash. -/
def StringState.escaped : StringState → Bool
  | .escape | .pairU _ => true
  | _ => false

/-- The state reads `cs` and leaves `r`, by what stands in front of it. -/
def Reads (state : StringState) (t cs r : List Char) : Prop :=
  ∃ u, t = u ++ r ∧ Literal state.escaped u ∧ ∀ r', stringTail state (u ++ r') = .ok (cs, r')

lemma hexValue?_plain {c : Char} {d : Nat} (h : hexValue? c = some d) :
    c ≠ '"' ∧ c ≠ '\\' ∧ ¬ c.toNat < 32 := by
  refine ⟨?_, ?_, fun hlow => ?_⟩
  · rintro rfl
    cases h
  · rintro rfl
    cases h
  · have hle : ∀ d : Char, 32 ≤ d.toNat → ¬ d ≤ c := fun d hd hle => by
      have : d.toNat ≤ c.toNat := hle
      omega
    have hzero := hle '0' (by decide)
    have ha := hle 'a' (by decide)
    have hA := hle 'A' (by decide)
    simp [hexValue?, hzero, ha, hA] at h

lemma shortEscape?_visible {c d : Char} (h : shortEscape? c = some d) : ¬ c.toNat < 32 := by
  unfold shortEscape? at h
  split at h
  case h_9 => cases h
  all_goals decide

lemma finishHex_escaped {lead : Option Nat} {n : Nat} {state : StringState} {c : Option Char}
    (h : finishHex lead n = .ok (state, c)) : state.escaped = false := by
  unfold finishHex at h
  split at h <;> split_ifs at h <;> cases h <;> rfl

/-- One character more in front of what is read. -/
lemma Reads.cons {state next : StringState} {c : Char} {t cs ds r : List Char}
    (h : Reads next t cs r) (hl : ∀ u, Literal next.escaped u → Literal state.escaped (c :: u))
    (hstep : ∀ u r', stringTail next u = .ok (cs, r') → stringTail state (c :: u) = .ok (ds, r')) :
    Reads state (c :: t) ds r := by
  obtain ⟨u, rfl, hu, hall⟩ := h
  exact ⟨c :: u, rfl, hl u hu, fun r' => hstep _ _ (hall r')⟩

lemma push_ok {c : Char} {x : Reading (List Char)} {cs r : List Char} (h : x = .ok (cs, r)) :
    stringTail.push c x = .ok (c :: cs, r) := by
  rw [h]
  rfl

/-- One character more in front, which stands for itself. -/
lemma Reads.push {state next : StringState} {c d : Char} {t cs r : List Char}
    (ih : ∀ {cs r}, stringTail next t = .ok (cs, r) → Reads next t cs r)
    (hl : ∀ u, Literal next.escaped u → Literal state.escaped (c :: u))
    (hstep : ∀ u, stringTail state (c :: u) = stringTail.push d (stringTail next u))
    (h : stringTail.push d (stringTail next t) = .ok (cs, r)) : Reads state (c :: t) cs r := by
  obtain ⟨p, hp, he⟩ := exists_of_map_eq_ok h
  cases he
  exact (ih hp).cons hl fun u r' hu => (hstep u).trans (push_ok hu)

lemma reads_stringTail {state : StringState} {t cs r : List Char}
    (h : stringTail state t = .ok (cs, r)) : Reads state t cs r := by
  fun_induction stringTail state t generalizing cs r with
  | case1 | case4 | case8 | case11 | case15 | case17 => cases h
  | case9 =>
    unfold failHex at h
    split at h <;> cases h
  | case2 r =>
    cases h
    exact ⟨['"'], rfl, .close, fun _ => rfl⟩
  | case3 r _ ih => exact (ih h).cons (fun _ => .backslash) fun _ _ => id
  | case5 c r hquote hback hlow ih =>
    exact Reads.push ih (fun _ => .plain hquote hback hlow)
      (fun u => by simp [stringTail, hquote, hback, hlow]) h
  | case6 r ih => exact (ih h).cons (fun _ => .escape (by decide)) fun _ _ => id
  | case7 c r hu d hd ih =>
    exact Reads.push ih (fun _ => .escape (shortEscape?_visible hd))
      (fun u => by simp [stringTail, hu, hd]) h
  | case10 lead seen value c r d hd hseen ih =>
    obtain ⟨hquote, hback, hlow⟩ := hexValue?_plain hd
    exact (ih h).cons (fun _ => .plain hquote hback hlow)
      fun u r' hu => by simpa [stringTail, hd, hseen] using hu
  | case12 lead seen value c r d hd hseen s x hx ih =>
    obtain ⟨hquote, hback, hlow⟩ := hexValue?_plain hd
    exact Reads.push ih (finishHex_escaped hx ▸ fun _ => .plain hquote hback hlow)
      (fun u => by simp [stringTail, hd, hseen, hx]) h
  | case13 lead seen value c r d hd hseen s hx ih =>
    obtain ⟨hquote, hback, hlow⟩ := hexValue?_plain hd
    exact (ih h).cons (finishHex_escaped hx ▸ fun _ => .plain hquote hback hlow)
      fun u r' hu => by simpa [stringTail, hd, hseen, hx] using hu
  | case14 lead r ih => exact (ih h).cons (fun _ => .backslash) fun _ _ => id
  | case16 lead r ih => exact (ih h).cons (fun _ => .escape (by decide)) fun _ _ => id

lemma exists_quoted {s : String} {t r : List Char} (h : string t = .ok (s, r)) :
    ∃ u, t = u ++ r ∧ Quoted s u := by
  obtain ⟨p, hp, he⟩ := exists_of_map_eq_ok h
  cases he
  obtain ⟨u, rfl, hu, hall⟩ := reads_stringTail hp
  exact ⟨u, rfl, fun r' => by rw [string, hall]; rfl, hu⟩

/-! ### Lists, objects and values -/

/-- What the reading `item` takes is spelled, blanks in front of it apart. -/
def Takes (item : List Char → Reading Json) (P : Json → List Char → Prop) : Prop :=
  ∀ t v r, item t = .ok (v, r) → ∃ b u, t = b ++ (u ++ r) ∧ Spaces b ∧ P v u

variable {item : List Char → Reading Json} {P : Json → List Char → Prop}

lemma exists_spaces {t s : List Char} (h : skipSpace t = s) : ∃ b, t = b ++ s ∧ Spaces b := by
  obtain ⟨b, hb, ht⟩ := exists_skipSpace t
  exact ⟨b, h ▸ ht, hb⟩

lemma elements_step_ok {n i : Nat} {x : Reading Json} {r : List Char} {xs : List Json}
    (h : elements.step item n i x = .ok (xs, r)) :
    ∃ v s vs, x = .ok (v, s) ∧ elements item n (i + 1) s = .ok (vs, r) ∧ xs = v :: vs := by
  cases x with
  | error e =>
    rw [elements.step] at h
    cases h
  | ok p =>
    rw [elements.step] at h
    obtain ⟨q, hq, he⟩ := exists_of_map_eq_ok h
    cases he
    exact ⟨p.1, p.2, q.1, rfl, hq, rfl⟩

lemma exists_more_elements (ht : Takes item P) {n i : Nat} (hi : i ≠ 0) {t r : List Char}
    {xs : List Json} (h : elements item n i t = .ok (xs, r)) :
    ∃ w, t = w ++ ']' :: r ∧ More P xs w := by
  induction n generalizing i t xs with
  | zero =>
    rw [elements] at h
    cases h
  | succ n ih =>
    rw [elements] at h
    split at h
    · cases h
    · next hskip =>
      cases h
      obtain ⟨b, rfl, hb⟩ := exists_spaces hskip
      exact ⟨b, rfl, .done hb⟩
    · next c s _ hskip =>
      obtain ⟨b, rfl, hb⟩ := exists_spaces hskip
      rw [if_neg hi] at h
      split_ifs at h with hc
      · cases h
      split at h
      · cases h
      · cases h
      · next hskip =>
        obtain ⟨v, s', vs, hv, hvs, rfl⟩ := elements_step_ok h
        obtain ⟨b', hb', hs⟩ := exists_skipSpace s
        obtain ⟨b'', u, hu, hb'', hp⟩ := ht _ v s' hv
        obtain ⟨w, rfl, hw⟩ := ih (Nat.succ_ne_zero i) hvs
        obtain rfl := not_not.1 hc
        rw [hs, hu]
        exact ⟨_, by simp, .next hb (hb'.append hb'') hp hw⟩

lemma exists_row_elements (ht : Takes item P) {n : Nat} {t r : List Char} {xs : List Json}
    (h : elements item n 0 t = .ok (xs, r)) : ∃ w, t = w ++ ']' :: r ∧ Row P xs w := by
  cases n with
  | zero =>
    rw [elements] at h
    cases h
  | succ n =>
    rw [elements] at h
    split at h
    · cases h
    · next hskip =>
      cases h
      obtain ⟨b, rfl, hb⟩ := exists_spaces hskip
      exact ⟨b, rfl, .empty hb⟩
    · next c s _ hskip =>
      obtain ⟨b, rfl, hb⟩ := exists_spaces hskip
      rw [if_pos rfl] at h
      obtain ⟨v, s', vs, hv, hvs, rfl⟩ := elements_step_ok h
      obtain ⟨b', u, hu, hb', hp⟩ := ht _ v s' hv
      obtain ⟨w, rfl, hw⟩ := exists_more_elements ht (Nat.succ_ne_zero 0) hvs
      rw [hu]
      exact ⟨_, by simp, .parts (hb.append hb') hp hw⟩

lemma nextKey_none {first : Bool} {t s : List Char} (h : nextKey first t = .ok (none, s)) :
    ∃ b, t = b ++ '}' :: s.tail ∧ Spaces b := by
  unfold nextKey at h
  split at h
  · cases h
  · next hskip =>
    cases h
    exact exists_spaces hskip
  · split_ifs at h
    · cases h
    · cases h
    · cases h
    · split at h <;> cases h

lemma nextKey_first {t k s : List Char} (h : nextKey true t = .ok (some k, s)) :
    ∃ b, t = b ++ '"' :: k ∧ Spaces b := by
  unfold nextKey at h
  split at h
  · cases h
  · cases h
  · next c u _ hskip =>
    rw [if_pos rfl] at h
    split_ifs at h with hc
    · cases h
      exact exists_spaces (hc ▸ hskip)
    · cases h

lemma nextKey_more {t k s : List Char} (h : nextKey false t = .ok (some k, s)) :
    ∃ b b', t = b ++ ',' :: (b' ++ '"' :: k) ∧ Spaces b ∧ Spaces b' := by
  unfold nextKey at h
  split at h
  · cases h
  · cases h
  · next c u _ hskip =>
    rw [if_neg Bool.false_ne_true] at h
    split_ifs at h with hc
    · cases h
    obtain rfl := not_not.1 hc
    split at h
    · cases h
    · next hkey =>
      cases h
      obtain ⟨b, rfl, hb⟩ := exists_spaces hskip
      obtain ⟨b', rfl, hb'⟩ := exists_spaces hkey
      exact ⟨b, b', rfl, hb, hb'⟩
    · cases h
    · cases h

lemma colon_eq {t s : List Char} (h : colon t = .ok s) : ∃ b, t = b ++ ':' :: s ∧ Spaces b := by
  unfold colon at h
  split at h
  · next hskip =>
    cases h
    exact exists_spaces hskip
  · cases h
  · cases h

lemma exists_field (ht : Takes item P) {k : String} {v : Json} {t s r : List Char}
    (hk : string t = .ok (k, s)) (hm : member item k s = .ok (v, r)) :
    ∃ f, '"' :: t = f ++ r ∧ Field P (k, v) f := by
  obtain ⟨ks, rfl, hks⟩ := exists_quoted hk
  unfold member at hm
  cases hc : colon s with
  | error e =>
    rw [hc] at hm
    cases hm
  | ok s' =>
    rw [hc, Except.bind] at hm
    split at hm
    · cases hm
    · next hv =>
      cases hm
      obtain ⟨b, rfl, hb⟩ := colon_eq hc
      obtain ⟨b', u, rfl, hb', hp⟩ := ht _ v r hv
      exact ⟨_, by simp, .mk hks hb hb' hp⟩

/-- What is read behind a key's quote: its field, and the fields after it. -/
lemma members_ok {n : Nat} {first : Bool} {t r : List Char} {es : List (String × Json)}
    (h : members item (n + 1) first t = .ok (es, r)) :
    (∃ s, nextKey first t = .ok (none, s) ∧ es = [] ∧ r = s.tail) ∨
      ∃ k s ks s' v s'' es', nextKey first t = .ok (some ks, s) ∧ string ks = .ok (k, s') ∧
        member item k s' = .ok (v, s'') ∧ members item n false s'' = .ok (es', r) ∧
        es = (k, v) :: es' := by
  rw [members] at h
  split at h
  · cases h
  · next s hkey =>
    cases h
    exact .inl ⟨s, hkey, rfl, rfl⟩
  · next hkey =>
    split at h
    · cases h
    · next hs =>
      split at h
      · cases h
      · next hm =>
        obtain ⟨p, hp, he⟩ := exists_of_map_eq_ok h
        cases he
        exact .inr ⟨_, _, _, _, _, _, _, hkey, hs, hm, hp, rfl⟩

lemma exists_more_members (ht : Takes item P) {n : Nat} {t r : List Char}
    {es : List (String × Json)} (h : members item n false t = .ok (es, r)) :
    ∃ w, t = w ++ '}' :: r ∧ More (Field P) es w := by
  induction n generalizing t es with
  | zero => cases h
  | succ n ih =>
    rcases members_ok h with ⟨s, hkey, rfl, rfl⟩ | ⟨k, s, ks, s', v, s'', es', hkey, hk, hm, hes, rfl⟩
    · obtain ⟨b, rfl, hb⟩ := nextKey_none hkey
      exact ⟨b, rfl, .done hb⟩
    · obtain ⟨b, b', rfl, hb, hb'⟩ := nextKey_more hkey
      obtain ⟨f, hf, hfield⟩ := exists_field ht hk hm
      obtain ⟨w, rfl, hw⟩ := ih hes
      rw [hf]
      exact ⟨_, by simp, .next hb hb' hfield hw⟩

lemma exists_row_members (ht : Takes item P) {n : Nat} {t r : List Char}
    {es : List (String × Json)} (h : members item n true t = .ok (es, r)) :
    ∃ w, t = w ++ '}' :: r ∧ Row (Field P) es w := by
  cases n with
  | zero => cases h
  | succ n =>
    rcases members_ok h with ⟨s, hkey, rfl, rfl⟩ | ⟨k, s, ks, s', v, s'', es', hkey, hk, hm, hes, rfl⟩
    · obtain ⟨b, rfl, hb⟩ := nextKey_none hkey
      exact ⟨b, rfl, .empty hb⟩
    · obtain ⟨b, rfl, hb⟩ := nextKey_first hkey
      obtain ⟨f, hf, hfield⟩ := exists_field ht hk hm
      obtain ⟨w, rfl, hw⟩ := exists_more_members ht hes
      rw [hf]
      exact ⟨_, by simp, .parts hb hfield hw⟩

lemma word_eq {w t r : List Char} {x v : Json} (h : (wordTail w t).map (x, ·) = .ok (v, r)) :
    t = w ++ r ∧ v = x := by
  obtain ⟨s, hs, he⟩ := exists_of_map_eq_ok h
  cases he
  exact ⟨wordTail_eq hs, rfl⟩

lemma exists_scalar_digit {t r : List Char} {c : Char} {s : List Char} {v : Json}
    (ht : t = c :: s) (hc : c.isDigit = true) (h : number false t = .ok (v, r)) :
    ∃ u, t = u ++ r ∧ Scalar v u := by
  obtain ⟨u, rfl, hu⟩ := local_number false t v r h
  cases u with
  | nil =>
    -- a number is not empty
    have := hu.reads [] stops_nil
    cases this
  | cons d u =>
    obtain rfl := (List.cons.inj ht).1
    exact ⟨_, rfl, .number hc hu⟩

/-- **What is read is spelled**, by a list or an object only when one may be opened. -/
theorem exists_of_valueWith {inner : Option (List Char → Reading Json)}
    (hi : ∀ item ∈ inner, Takes item P) {t r : List Char} {v : Json}
    (h : valueWith inner t = .ok (v, r)) :
    ∃ b u, t = b ++ (u ++ r) ∧ Spaces b ∧ (Scalar v u ∨ inner.isSome ∧ Spells P v u) := by
  obtain ⟨b, hb, ht⟩ := exists_skipSpace t
  suffices hs : ∃ u, skipSpace t = u ++ r ∧ (Scalar v u ∨ inner.isSome ∧ Spells P v u) by
    obtain ⟨u, hu, hv⟩ := hs
    exact ⟨b, u, hu ▸ ht, hb, hv⟩
  unfold valueWith at h
  split at h
  · cases h
  · next hskip =>
    obtain ⟨rfl, rfl⟩ := word_eq h
    exact ⟨_, hskip, .inl .null⟩
  · next hskip =>
    obtain ⟨rfl, rfl⟩ := word_eq h
    exact ⟨_, hskip, .inl .true⟩
  · next hskip =>
    obtain ⟨rfl, rfl⟩ := word_eq h
    exact ⟨_, hskip, .inl .false⟩
  · next hskip =>
    obtain ⟨u, rfl, hu⟩ := local_number true _ v r h
    exact ⟨_, hskip, .inl (.negative hu)⟩
  · next hskip =>
    obtain ⟨p, hp, he⟩ := exists_of_map_eq_ok h
    cases he
    obtain ⟨u, rfl, hu⟩ := exists_quoted hp
    exact ⟨_, hskip, .inl (.string hu)⟩
  · next hskip =>
    split at h
    · cases h
    · obtain ⟨p, hp, he⟩ := exists_of_map_eq_ok h
      cases he
      obtain ⟨w, rfl, hw⟩ := exists_row_elements (hi _ rfl) hp
      exact ⟨_, by rw [hskip]; simp, .inr ⟨rfl, .list hw⟩⟩
  · next hskip =>
    split at h
    · cases h
    · obtain ⟨p, hp, he⟩ := exists_of_map_eq_ok h
      cases he
      obtain ⟨w, rfl, hw⟩ := exists_row_members (hi _ rfl) hp
      exact ⟨_, by rw [hskip]; simp, .inr ⟨rfl, .object hw⟩⟩
  · next hskip =>
    split_ifs at h with hc
    · obtain ⟨u, hu, hv⟩ := exists_scalar_digit rfl hc h
      exact ⟨u, hskip.trans hu, .inl hv⟩
    · cases h

theorem takes_value (depth : Nat) : Takes (value depth) (Spelled depth) := by
  induction depth with
  | zero =>
    intro t v r h
    obtain ⟨b, u, ht, hb, hv | ⟨hnone, -⟩⟩ :=
      exists_of_valueWith (P := fun _ _ => True) (fun _ hi => by cases hi) h
    · exact ⟨b, u, ht, hb, hv⟩
    · cases hnone
  | succ d ih =>
    intro t v r h
    obtain ⟨b, u, ht, hb, hv | ⟨-, hv⟩⟩ :=
      exists_of_valueWith (P := Spelled d) (fun _ hi => Option.mem_some.1 hi ▸ ih) h
    · exact ⟨b, u, ht, hb, .scalar hv⟩
    · exact ⟨b, u, ht, hb, hv⟩

/-- **Which texts are read as a value**: those that spell it, with blanks around. -/
theorem parse?_eq_some_iff {t : List Char} {v : Json} : parse? t = some v ↔
    ∃ b u e, t = b ++ (u ++ e) ∧ Spaces b ∧ Spaces e ∧ Spelled depthLimit v u := by
  constructor
  · intro h
    unfold parse? parse at h
    cases hv : value depthLimit t with
    | error e =>
      rw [hv] at h
      cases h
    | ok p =>
      rw [hv, finish] at h
      split at h
      · next hr =>
        cases h
        obtain ⟨b, u, ht, hb, hu⟩ := takes_value depthLimit t p.1 p.2 hv
        exact ⟨b, u, p.2, ht, hb, List.dropWhile_eq_nil_iff.1 hr, hu⟩
      · cases h
  · rintro ⟨b, u, e, rfl, hb, he, hu⟩
    have hstop : Stops e := List.append_nil e ▸ stops_behind he stops_nil
    have hblank : skipSpace e = [] := List.dropWhile_eq_nil_iff.2 he
    rw [parse?, parse, gives_value depthLimit v u hu b e hb hstop, finish, hblank]
    rfl

lemma parse?_append_spaces {t e : List Char} {v : Json} (he : Spaces e) (h : parse? t = some v) :
    parse? (t ++ e) = some v := by
  obtain ⟨b, u, e', rfl, hb, he', hu⟩ := parse?_eq_some_iff.1 h
  exact parse?_eq_some_iff.2 ⟨b, u, e' ++ e, by simp, hb, he'.append he, hu⟩

/-! ### Lists and objects -/

lemma Scalar.closer {v : Json} {u : List Char} (h : Scalar v u) : closer v = [] := by
  cases h with
  | negative h => exact h.kind
  | number _ h => exact h.kind
  | _ => rfl

lemma Spelled.object {d : Nat} {fs : List (String × Json)} {u : List Char}
    (h : Spelled d (.obj fs) u) : ∃ w, u = '{' :: (w ++ ['}']) := by
  cases d with
  | zero => cases Scalar.closer h
  | succ d =>
    cases h with
    | scalar h => cases h.closer
    | object => exact ⟨_, rfl⟩

lemma Spelled.list {d : Nat} {xs : List Json} {u : List Char} (h : Spelled d (.arr xs) u) :
    ∃ w, u = '[' :: (w ++ [']']) := by
  cases d with
  | zero => cases Scalar.closer h
  | succ d =>
    cases h with
    | scalar h => cases h.closer
    | list => exact ⟨_, rfl⟩

/-- What begins with a brace is an object. -/
lemma exists_object_of_brace {t : List Char} {v : Json} (h : parse? ('{' :: t) = some v) :
    ∃ fs, v = .obj fs := by
  obtain ⟨b, u, e, ht, hb, -, hu⟩ := parse?_eq_some_iff.1 h
  obtain ⟨c, r, rfl, -⟩ := hu.begins
  have hc : c = '{' := by
    cases b with
    | nil => exact (List.cons.inj ht).1.symm
    | cons d b =>
      have hd := hb d List.mem_cons_self
      rw [← (List.cons.inj ht).1] at hd
      cases hd
  subst hc
  cases hu with
  | object => exact ⟨_, rfl⟩
  | scalar h =>
    cases h with
    | number hc => exact absurd hc (by decide)

/-- Nothing but blanks follows the closing character of a list or an object. -/
theorem exists_closed_of_parse? {t : List Char} {v : Json} (h : parse? t = some v) :
    ∃ x r, t = x ++ closer v ++ r ∧ ∀ c ∈ r, isSpace c = true := by
  obtain ⟨b, u, e, rfl, -, he, hu⟩ := parse?_eq_some_iff.1 h
  cases v with
  | obj fs =>
    obtain ⟨w, rfl⟩ := hu.object
    exact ⟨b ++ '{' :: w, e, by simp [Json.closer], he⟩
  | arr xs =>
    obtain ⟨w, rfl⟩ := hu.list
    exact ⟨b ++ '[' :: w, e, by simp [Json.closer], he⟩
  | _ => exact ⟨b ++ u, e, by simp [Json.closer], he⟩

end Mender.Json
