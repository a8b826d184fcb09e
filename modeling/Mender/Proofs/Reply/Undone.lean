import Mender.Proofs.Reply.Defects
import Mender.Proofs.Reply.Mending

/-!
What mending undoes.

The text of a value is mended part by part: the strings as they are read, the rest as it stands,
but for a comma that nothing follows in its list or object. What comes out spells the value again.
-/

namespace Mender.Reply

open Json Text

@[simp] lemma put_put (a b : List Char) (p : List Char × Bool) :
    mendFrom.put a (mendFrom.put b p) = mendFrom.put (a ++ b) p := by
  simp [mendFrom.put]

/-! ### Outside of strings -/

/-- Neither a quote nor a mark between values or around them. -/
def isSolid (c : Char) : Bool :=
  !isBlank c && c != '"' && !isCloser c && !(",:[\x7b".toList.contains c) && !(curlyQuotes.contains c)

lemma closes_cons {c : Char} (h : isSpace c = false) (t : List Char) :
    Closes (c :: t) ↔ isCloser c = true := by
  simp [Closes, skipSpace_cons h]

lemma closes_append {b : List Char} (h : Spaces b) (t : List Char) : Closes (b ++ t) ↔ Closes t := by
  rw [Closes, skipSpace_append h, Closes]

lemma spaces_straight {b : List Char} (h : Spaces b) : Straight b := by
  intro c hc
  have := h c hc
  simp only [isSpace, Bool.or_eq_true, beq_iff_eq] at this
  rcases this with ((rfl | rfl) | rfl) | rfl <;> decide

/-- A comma may be added only behind a value and in front of a closing bracket. -/
lemma Marred.of_cons {ended : Bool} {c : Char} {t t' : List Char}
    (h : Marred (.outside ended) (c :: t) t') (hquote : c ≠ '"')
    (hc : ended = false ∨ ¬ Closes (c :: t)) :
    ∃ s, t' = c :: s ∧ Marred (.outside (endsBehind ended c)) t s := by
  cases h with
  | keep _ h => exact ⟨_, rfl, h⟩
  | comma _ _ ht => exact absurd ht (hc.resolve_left (by decide))
  | opening => exact absurd rfl hquote

lemma Marred.of_spaces {ended : Bool} {b t t' : List Char} (hb : Spaces b)
    (h : Marred (.outside ended) (b ++ t) t') (hc : ended = false ∨ ¬ Closes t) :
    ∃ s, t' = b ++ s ∧ Marred (.outside ended) t s := by
  induction b generalizing t' with
  | nil => exact ⟨t', rfl, h⟩
  | cons c b ih =>
    have hspace : isSpace c = true := hb c List.mem_cons_self
    have hquote : c ≠ '"' := by
      rintro rfl
      cases hspace
    obtain ⟨s, rfl, hs⟩ := h.of_cons hquote (hc.imp_right (mt (closes_append hb t).1))
    rw [endsBehind, if_pos hspace] at hs
    obtain ⟨s', rfl, hs'⟩ := ih (fun d hd => hb d (List.mem_cons_of_mem _ hd)) hs
    exact ⟨s', rfl, hs'⟩

/-- What mending leaves alone outside of strings. -/
def Inert (w : List Char) : Prop := ∀ c ∈ w, c ≠ '"' ∧ c ≠ ',' ∧ c ∉ curlyQuotes

lemma mendFrom_inert {w : List Char} (hw : Inert w) (t : List Char) :
    mendFrom false ((w ++ t).map straighten) =
      mendFrom.put w (mendFrom false (t.map straighten)) := by
  induction w with
  | nil => simp [mendFrom.put]
  | cons c w ih =>
    obtain ⟨⟨hquote, hcomma, hcurly⟩, hw⟩ := List.forall_mem_cons.1 hw
    rw [List.cons_append, List.map_cons, straighten_of_notMem hcurly, mendFrom, if_neg hquote,
      if_neg (fun h => hcomma h.1), ih hw, put_put, List.singleton_append]

lemma spaces_inert {b : List Char} (h : Spaces b) : Inert b := by
  intro c hc
  refine ⟨?_, ?_, spaces_straight h c hc⟩ <;>
  · rintro rfl
    cases h _ hc

lemma closesNext_spaces {b : List Char} (hb : Spaces b) {c : Char} (hc : isBlank c = false)
    (t : List Char) : closesNext (b ++ c :: t) = isCloser c := by
  have hnone : b.find? (fun c => !isBlank c) = none :=
    List.find?_eq_none.2 fun d hd => by simp [isBlank_of_isSpace (hb d hd)]
  simp [closesNext, List.find?_append, hnone, hc]

/-! ### What a text is mended into -/

/-- Of the marred text `t'`, what stands in front of `r` is mended into a text in `Q`. -/
def Mended (Q : List Char → Prop) (r t' : List Char) : Prop :=
  ∃ m r', Q m ∧ Marred (.outside true) r r' ∧
    mendFrom false (t'.map straighten) = mendFrom.put m (mendFrom false (r'.map straighten))

lemma Mended.put {Q Q' : List Char → Prop} {w r s t' : List Char} (h : Mended Q r s)
    (hs : mendFrom false (t'.map straighten) = mendFrom.put w (mendFrom false (s.map straighten)))
    (hq : ∀ m, Q m → Q' (w ++ m)) : Mended Q' r t' := by
  obtain ⟨m, r', hm, hr', hmend⟩ := h
  exact ⟨w ++ m, r', hq m hm, hr', by rw [hs, hmend, put_put]⟩

section Closer

variable {c : Char} {r : List Char} (hc : isCloser c = true)
include hc

lemma inert_closer : Inert [c] := by
  simp only [isCloser, Bool.or_eq_true, beq_iff_eq] at hc
  rcases hc with rfl | rfl <;> exact List.forall_mem_singleton.2 (by decide)

lemma endsBehind_closer (ended : Bool) : endsBehind ended c = true := by
  simp only [isCloser, Bool.or_eq_true, beq_iff_eq] at hc
  rcases hc with rfl | rfl <;> rfl

lemma isBlank_closer : isBlank c = false := by
  simp only [isCloser, Bool.or_eq_true, beq_iff_eq] at hc
  rcases hc with rfl | rfl <;> decide

lemma mendFrom_closer {b : List Char} (hb : Spaces b) (s : List Char) :
    mendFrom false ((b ++ c :: s).map straighten) =
      mendFrom.put (b ++ [c]) (mendFrom false (s.map straighten)) := by
  rw [← mendFrom_inert (List.forall_mem_append.2 ⟨spaces_inert hb, inert_closer hc⟩),
    List.append_assoc, List.singleton_append]

/-- Where no value has just ended nothing is added in front of a closing bracket. -/
lemma Marred.of_closer {b t' : List Char} (hb : Spaces b)
    (h : Marred (.outside false) (b ++ c :: r) t') :
    ∃ s, t' = b ++ c :: s ∧ Marred (.outside true) r s := by
  have hquote := (inert_closer hc c List.mem_cons_self).1
  obtain ⟨s, rfl, hs⟩ := h.of_spaces hb (.inl rfl)
  obtain ⟨s', rfl, hs'⟩ := hs.of_cons hquote (.inl rfl)
  exact ⟨s', rfl, endsBehind_closer hc false ▸ hs'⟩

/-- A comma that is added in front of a closing bracket is dropped. -/
lemma Marred.closed_added {b₁ b₂ b s : List Char} (h₁ : Spaces b₁) (h₂ : Spaces b₂)
    (hb : Spaces b) (h : Marred (.outside false) (b ++ c :: r) s) :
    Mended (fun m => ∃ b', Spaces b' ∧ m = b' ++ [c]) r (b₁ ++ ',' :: (b₂ ++ s)) := by
  obtain ⟨s, rfl, hs⟩ := h.of_closer hc hb
  refine ⟨b₁ ++ (b₂ ++ b) ++ [c], s, ⟨_, h₁.append (h₂.append hb), rfl⟩, hs, ?_⟩
  have hcloses : closesNext ((b₂ ++ (b ++ c :: s)).map straighten) = true := by
    rw [List.map_append, List.map_append, (spaces_straight h₂).map_straighten,
      (spaces_straight hb).map_straighten, List.map_cons,
      straighten_of_notMem (inert_closer hc c List.mem_cons_self).2.2, ← List.append_assoc,
      closesNext_spaces (h₂.append hb) (isBlank_closer hc), hc]
  rw [mendFrom_inert (spaces_inert h₁), List.map_cons, show straighten ',' = ',' from rfl,
    mendFrom, if_neg (by decide), if_pos ⟨rfl, hcloses⟩, ← List.append_assoc,
    mendFrom_closer hc (h₂.append hb), put_put, List.append_assoc, List.append_assoc,
    List.append_assoc]

/-- Blanks and a closing bracket, with or without a comma among them. -/
lemma Marred.closed {ended : Bool} {b t' : List Char} (hb : Spaces b)
    (h : Marred (.outside ended) (b ++ c :: r) t') :
    Mended (fun m => ∃ b', Spaces b' ∧ m = b' ++ [c]) r t' := by
  induction b generalizing t' with
  | nil =>
    cases h with
    | keep _ h =>
      exact ⟨[c], _, ⟨[], hb, rfl⟩, endsBehind_closer hc ended ▸ h, mendFrom_closer hc hb _⟩
    | comma h₁ h₂ _ h => exact h.closed_added hc h₁ h₂ hb
    | opening => cases hc
  | cons d b ih =>
    obtain ⟨hd, hb'⟩ := List.forall_mem_cons.1 hb
    cases h with
    | keep _ h =>
      rw [endsBehind, if_pos hd] at h
      refine (ih hb' h).put (mendFrom_inert (spaces_inert (List.forall_mem_singleton.2 hd)) _) ?_
      rintro _ ⟨b', hb', rfl⟩
      exact ⟨d :: b', List.forall_mem_cons.2 ⟨hd, hb'⟩, rfl⟩
    | comma h₁ h₂ _ h => exact h.closed_added hc h₁ h₂ hb
    | opening => cases hd

end Closer

/-! ### How a value begins -/

/-- The text begins with what is neither blank nor a closing bracket. -/
def Opens (u : List Char) : Prop :=
  ∃ c r, u = c :: r ∧ isBlank c = false ∧ isCloser c = false

lemma isSpace_of_isBlank {c : Char} (h : isBlank c = false) : isSpace c = false := by
  rw [← Bool.not_eq_true] at h ⊢
  exact mt isBlank_of_isSpace h

lemma isSolid_of_isDigit {c : Char} (h : c.isDigit = true) : isSolid c = true := by
  have hall : ∀ n < 58, 48 ≤ n → isSolid (Char.ofNat n) = true := by decide
  simp only [Char.isDigit, Bool.and_eq_true, decide_eq_true_eq] at h
  rw [← Char.ofNat_toNat c]
  exact hall c.toNat (Nat.lt_succ_of_le h.2) h.1

lemma isSolid_of_isNumeric {c : Char} (h : isNumeric c = true) : isSolid c = true := by
  simp only [isNumeric, Bool.or_eq_true, beq_iff_eq] at h
  rcases h with ((((h | rfl) | rfl) | rfl) | rfl) | rfl
  · exact isSolid_of_isDigit h
  all_goals decide

/-- A word or a number, or a string. -/
lemma solid_of_scalar {v : Json} {u : List Char} (h : Scalar v u) :
    (∃ s w, v = .str s ∧ u = '"' :: w ∧ Quoted s w) ∨ (u ≠ [] ∧ ∀ c ∈ u, isSolid c = true) := by
  cases h with
  | string h => exact .inl ⟨_, _, rfl, rfl, h⟩
  | null | true | false => exact .inr ⟨by decide, List.all_eq_true.1 (by decide)⟩
  | negative h =>
    exact .inr ⟨by simp, List.forall_mem_cons.2
      ⟨by decide, fun c hc => isSolid_of_isNumeric (h.chars c hc)⟩⟩
  | number _ h => exact .inr ⟨by simp, fun c hc => isSolid_of_isNumeric (h.chars c hc)⟩

lemma isSolid_iff {c : Char} : isSolid c = true ↔ isBlank c = false ∧ c ≠ '"' ∧
    isCloser c = false ∧ c ∉ [',', ':', '[', '{'] ∧ c ∉ curlyQuotes := by
  simp [isSolid, and_assoc]

lemma Marred.of_solid {ended : Bool} {w r t' : List Char} (hw : ∀ c ∈ w, isSolid c = true)
    (hne : w ≠ []) (h : Marred (.outside ended) (w ++ r) t') :
    ∃ s, t' = w ++ s ∧ Marred (.outside true) r s := by
  induction w generalizing ended t' with
  | nil => exact absurd rfl hne
  | cons c w ih =>
    obtain ⟨hc, hw⟩ := List.forall_mem_cons.1 hw
    obtain ⟨hblank, hquote, hcloser, hmark, -⟩ := isSolid_iff.1 hc
    have hspace := isSpace_of_isBlank hblank
    obtain ⟨s, rfl, hs⟩ := h.of_cons hquote
      (.inr fun hcloses => by rw [(closes_cons hspace _).1 hcloses] at hcloser; cases hcloser)
    have hend : endsBehind ended c = true := by
      simpa [endsBehind, hspace, and_assoc] using hmark
    rw [hend] at hs
    cases w with
    | nil => exact ⟨s, rfl, hs⟩
    | cons d w =>
      obtain ⟨s', rfl, hs'⟩ := ih hw (by simp) hs
      exact ⟨s', rfl, hs'⟩

/-! ### Values -/

/-- What is marred of a text in `P` is mended into one. -/
def Mends {α : Type} (P : α → List Char → Prop) : Prop :=
  ∀ x u r t', P x u → Straight (u ++ r) → Marred (.outside false) (u ++ r) t' →
    Mended (P x) r t'

lemma mends_scalar : Mends Scalar := by
  intro v u r t' hu ht h
  rcases solid_of_scalar hu with ⟨s, w, rfl, rfl, hw⟩ | ⟨hne, hsolid⟩
  · obtain ⟨m, r', hm, hr', hmend⟩ := h.exists_quoted hw ht.of_cons.2
    exact ⟨'"' :: m, r', .string hm, hr', hmend⟩
  · obtain ⟨s, rfl, hs⟩ := h.of_solid hsolid hne
    have hinert : Inert u := fun c hc => by
      obtain ⟨-, hquote, -, hmark, hcurly⟩ := isSolid_iff.1 (hsolid c hc)
      exact ⟨hquote, fun he => hmark (he ▸ List.mem_cons_self), hcurly⟩
    exact ⟨u, s, hu, hs, mendFrom_inert hinert s⟩

/-- The marred text of a value begins as its text does. -/
lemma Marred.exists_head {c : Char} {t t' : List Char}
    (h : Marred (.outside false) (c :: t) t') (hc : c ∉ curlyQuotes) :
    ∃ d s, t' = d :: s ∧ straighten d = c := by
  cases h with
  | keep => exact ⟨c, _, rfl, straighten_of_notMem hc⟩
  | @opening _ q _ s hq => exact ⟨q, s, rfl, straighten_quote hq⟩

/-- A mark and the blanks behind it, in front of a value. -/
lemma Marred.mark {ended : Bool} {c : Char} {b u r t' : List Char}
    (hc : c = ',' ∨ c = ':' ∨ c = '[' ∨ c = '{') (hb : Spaces b) (hu : Opens u)
    (hstraight : Straight (u ++ r)) (h : Marred (.outside ended) (c :: (b ++ (u ++ r))) t') :
    ∃ s, Marred (.outside false) (u ++ r) s ∧ mendFrom false (t'.map straighten) =
      mendFrom.put (c :: b) (mendFrom false (s.map straighten)) := by
  have hmark : isSpace c = false ∧ isCloser c = false ∧ c ≠ '"' ∧ straighten c = c ∧
      endsBehind ended c = false := by
    rcases hc with rfl | rfl | rfl | rfl <;> exact ⟨rfl, rfl, by decide, rfl, rfl⟩
  obtain ⟨hspace, hcloser, hquote, hcurly, hend⟩ := hmark
  obtain ⟨s, rfl, hs⟩ := h.of_cons hquote
    (.inr fun hcloses => by rw [(closes_cons hspace _).1 hcloses] at hcloser; cases hcloser)
  rw [hend] at hs
  obtain ⟨s', rfl, hs'⟩ := hs.of_spaces hb (.inl rfl)
  refine ⟨s', hs', ?_⟩
  -- the value behind the mark keeps a comma from being dropped
  have hkept : ¬ (c = ',' ∧ closesNext ((b ++ s').map straighten) = true) := by
    obtain ⟨d, u, rfl, hblank, hd⟩ := hu
    obtain ⟨e, s', rfl, he⟩ := hs'.exists_head (hstraight.of_cons.1)
    rw [List.map_append, (spaces_straight hb).map_straighten, List.map_cons, he,
      closesNext_spaces hb hblank, hd]
    exact fun h => absurd h.2 (by decide)
  rw [List.map_cons, hcurly, mendFrom, if_neg hquote, if_neg hkept,
    mendFrom_inert (spaces_inert hb), put_put, List.singleton_append]

variable {α : Type} {P : α → List Char → Prop}

lemma mends_more (hp : Mends P) (ho : ∀ x u, P x u → Opens u) {xs : List α} {w r t' : List Char}
    {c : Char} (hc : isCloser c = true) (hw : More P xs w) (ht : Straight (w ++ c :: r))
    (h : Marred (.outside true) (w ++ c :: r) t') :
    Mended (fun m => ∃ w', More P xs w' ∧ m = w' ++ [c]) r t' := by
  induction hw generalizing t' with
  | done hb =>
    obtain ⟨_, r', ⟨b', hb', rfl⟩, hr', hmend⟩ := h.closed hc hb
    exact ⟨_, r', ⟨b', .done hb', rfl⟩, hr', hmend⟩
  | @next b b' x u xs w hb hb' hx hw ih =>
    have hsplit : b ++ ',' :: (b' ++ (u ++ w)) ++ c :: r =
        b ++ (',' :: (b' ++ (u ++ (w ++ c :: r)))) := by simp
    rw [hsplit] at h ht
    have hnot : ¬ Closes (',' :: (b' ++ (u ++ (w ++ c :: r)))) := by
      rw [closes_cons (by decide)]
      decide
    have hu := ((ht.of_append.2).of_cons.2).of_append.2
    obtain ⟨s, rfl, hs⟩ := h.of_spaces hb (.inr hnot)
    obtain ⟨s', hs', hmark⟩ := hs.mark (.inl rfl) hb' (ho x u hx) hu
    obtain ⟨m, s'', hm, hs'', hmend⟩ := hp x u _ _ hx hu hs'
    refine (ih hu.of_append.2 hs'').put (w := b ++ (',' :: b' ++ m)) ?_ ?_
    · rw [mendFrom_inert (spaces_inert hb), hmark, hmend, put_put, put_put, List.append_assoc]
    · rintro _ ⟨w', hw', rfl⟩
      exact ⟨b ++ ',' :: (b' ++ (m ++ w')), .next hb hb' hm hw', by simp⟩

lemma mends_row (hp : Mends P) (ho : ∀ x u, P x u → Opens u) {xs : List α} {w r t' : List Char}
    {o c : Char} (hopen : o = '[' ∨ o = '{') (hc : isCloser c = true) (hw : Row P xs w)
    (ht : Straight (o :: (w ++ c :: r))) (h : Marred (.outside false) (o :: (w ++ c :: r)) t') :
    Mended (fun m => ∃ w', Row P xs w' ∧ m = o :: (w' ++ [c])) r t' := by
  cases hw with
  | empty hb =>
    have hinert : Inert [o] ∧ o ≠ '"' ∧ endsBehind false o = false := by
      rcases hopen with rfl | rfl <;>
        exact ⟨List.forall_mem_singleton.2 (by decide), by decide, rfl⟩
    obtain ⟨hinert, hquote, hend⟩ := hinert
    obtain ⟨s, rfl, hs⟩ := h.of_cons hquote (.inl rfl)
    rw [hend] at hs
    refine (hs.closed hc hb).put (mendFrom_inert hinert s) ?_
    rintro _ ⟨b', hb', rfl⟩
    exact ⟨b', .empty hb', rfl⟩
  | @parts b x u xs w hb hx hw =>
    have hsplit : b ++ (u ++ w) ++ c :: r = b ++ (u ++ (w ++ c :: r)) := by simp
    rw [hsplit] at h ht
    have hu := (ht.of_cons.2).of_append.2
    obtain ⟨s, hs, hmark⟩ := h.mark (.inr (.inr hopen)) hb (ho x u hx) hu
    obtain ⟨m, s', hm, hs', hmend⟩ := hp x u _ _ hx hu hs
    refine (mends_more hp ho hc hw hu.of_append.2 hs').put (w := o :: b ++ m) ?_ ?_
    · rw [hmark, hmend, put_put]
    · rintro _ ⟨w', hw', rfl⟩
      exact ⟨b ++ (m ++ w'), .parts hb hm hw', by simp⟩

lemma mends_field {P : Json → List Char → Prop} (hp : Mends P) (ho : ∀ v u, P v u → Opens u) :
    Mends (Json.Field P) := by
  intro e f r t' hf ht h
  cases hf with
  | @mk k ks b b' v u hk hb hb' hv =>
    have hsplit : '"' :: (ks ++ (b ++ ':' :: (b' ++ u))) ++ r =
        '"' :: (ks ++ (b ++ (':' :: (b' ++ (u ++ r))))) := by simp
    rw [hsplit] at h ht
    have hcolon : ¬ Closes (':' :: (b' ++ (u ++ r))) := by
      rw [closes_cons (by decide)]
      decide
    have hks := ht.of_cons.2
    have hu := ((hks.of_append.2).of_append.2.of_cons.2).of_append.2
    obtain ⟨m, s, hm, hs, hkey⟩ := h.exists_quoted hk hks
    obtain ⟨s', rfl, hs'⟩ := hs.of_spaces hb (.inr hcolon)
    obtain ⟨s'', hs'', hmark⟩ := hs'.mark (.inr (.inl rfl)) hb' (ho v u hv) hu
    refine (hp v u r s'' hv hu hs'').put (w := '"' :: (m ++ (b ++ ':' :: b'))) ?_ ?_
    · rw [hkey, mendFrom_inert (spaces_inert hb), hmark, put_put, put_put]
      simp
    · intro w hw
      have := Json.Field.mk hm hb hb' hw
      simpa using this

lemma opens_spelled {d : Nat} {v : Json} {u : List Char} (h : Spelled d v u) : Opens u := by
  have hscalar {v : Json} {u : List Char} (h : Scalar v u) : Opens u := by
    rcases solid_of_scalar h with ⟨s, w, rfl, rfl, -⟩ | ⟨hne, hsolid⟩
    · exact ⟨_, _, rfl, by decide, by decide⟩
    · obtain ⟨c, r, rfl⟩ := List.exists_cons_of_ne_nil hne
      obtain ⟨hblank, -, hcloser, -⟩ := isSolid_iff.1 (hsolid c List.mem_cons_self)
      exact ⟨c, r, rfl, hblank, hcloser⟩
  cases d with
  | zero => exact hscalar h
  | succ d =>
    cases h with
    | scalar h => exact hscalar h
    | list | object => exact ⟨_, _, rfl, by decide, by decide⟩

theorem mends_spelled (d : Nat) : Mends (Spelled d) := by
  induction d with
  | zero => exact mends_scalar
  | succ d ih =>
    intro v u r t' hu ht h
    cases hu with
    | scalar hu =>
      obtain ⟨m, r', hm, hr', hmend⟩ := mends_scalar v u r t' hu ht h
      exact ⟨m, r', .scalar hm, hr', hmend⟩
    | list hw =>
      rw [List.cons_append, List.append_assoc, List.singleton_append] at h ht
      obtain ⟨_, r', ⟨w', hw', rfl⟩, hr', hmend⟩ :=
        mends_row ih (fun _ _ => opens_spelled) (.inl rfl) rfl hw ht h
      exact ⟨_, r', Spells.list hw', hr', hmend⟩
    | object hw =>
      rw [List.cons_append, List.append_assoc, List.singleton_append] at h ht
      obtain ⟨_, r', ⟨w', hw', rfl⟩, hr', hmend⟩ :=
        mends_row (mends_field ih fun _ _ => opens_spelled)
          (fun e f hf => by cases hf; exact ⟨_, _, rfl, by decide, by decide⟩) (.inr rfl) rfl hw ht h
      exact ⟨_, r', Spells.object hw', hr', hmend⟩

theorem parse?_mendEscapes {t t' : List Char} {v : Json} (hv : parse? t = some v) (ht : Straight t)
    (h : Marred (.outside false) t t') : parse? (mendEscapes t') = some v := by
  obtain ⟨b, u, e, rfl, hb, he, hu⟩ := parse?_eq_some_iff.1 hv
  have hue := ht.of_append.2
  obtain ⟨s, rfl, hs⟩ := h.of_spaces hb (.inl rfl)
  obtain ⟨m, s', hm, hs', hmend⟩ := mends_spelled depthLimit v u e s hu hue hs
  rw [← List.append_nil e] at hs'
  have hnil : ¬ Closes [] := by simp [Closes, skipSpace]
  obtain ⟨s'', rfl, hs''⟩ := hs'.of_spaces he (.inr hnil)
  obtain rfl : s'' = [] := by
    cases hs'' with
    | done => rfl
    | comma _ _ hcloses => exact absurd hcloses hnil
  have hout : mendFrom false ((b ++ s).map straighten) = (b ++ (m ++ e), false) := by
    rw [mendFrom_inert (spaces_inert hb), hmend, mendFrom_inert (spaces_inert he)]
    simp [mendFrom, mendFrom.put]
  rw [mendEscapes, hout]
  exact parse?_eq_some_iff.2 ⟨b, m, e, rfl, hb, he, hm⟩

end Mender.Reply
