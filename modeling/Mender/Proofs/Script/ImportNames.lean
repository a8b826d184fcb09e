import Mender.Proofs.Script.Followed

/-!
The names of an import, in two scripts with a literal in common.

A list of names in front of the literal is read in the second script as it is in the first one. Before
it takes a name, the grammar looks at what comes behind the word `type`; that too stands in front of the
literal if the names do.
-/

namespace Mender.Script

open Mender.Text Reader TwoPlaces

variable {α β : Type} {m : TwoPlaces} {k k' : Nat} {t t' r : List Char}

/-! ### Names and literals -/

/-- What was read between two ends of what is to come. -/
def partBetween (t r : List Char) : Part :=
  ⟨⟨t.length, r.length⟩, String.ofList (t.take (t.length - r.length))⟩

lemma takes_moduleText (h : (skipGap .blank false t).1 = '"' :: r) :
    Takes moduleText t (partBetween ('"' :: r) r) r := by
  have hsuffix : '"' :: r <:+ t := h ▸ skipGap_suffix _ _ _
  refine takes_next.bind ?_
  rw [h]
  exact (takes_take hsuffix (List.suffix_cons _ _)).bind takes_partSince

lemma steady_moduleText : Steady moduleText := by
  refine fun c => post_bind (post_next ?_)
  split
  · next r hr =>
    have hnext : c.next = '"' :: r := string?_eq_some hr
    refine post_bind (post_take (post_partSince fun _ => next_take_le ?_))
    exact hnext ▸ List.suffix_cons _ _
  · exact post_failLast

/-- A literal in front of the one that the scripts have in common. -/
lemma follows_moduleText : m.Follows (k + 1) k moduleText moduleText m.SamePart := by
  intro c t' ht
  refine post_bind (post_next ?_)
  split
  · next r hr =>
    have hnext : c.next = '"' :: r := string?_eq_some hr
    have hsuffix : r <:+ c.next := hnext ▸ List.suffix_cons _ _
    have hrest : (c.take c.next r).rest = r := rest_take c.next_suffix hsuffix
    refine post_bind (post_take (post_partSince fun text hlt => ?_))
    have hle : m.rest.length < r.length := by
      have := (c.take c.next r).next_suffix.length_le
      rw [hrest] at this
      exact hlt.trans_le this
    have hgap := ht.gap (e := false) (hlt.trans_le (next_take_le hsuffix)) false
    rw [show (skipGap .blank false c.rest).1 = '"' :: r from hnext] at hgap
    obtain ⟨r', j, hr', hj, hahead, hbetween⟩ := hgap.cons (by decide) hle
    obtain rfl : k = j := Nat.succ_injective hj
    refine ⟨_, r', takes_moduleText hr', ?_⟩
    show m.SamePart ⟨⟨c.next.length, (c.take c.next r).rest.length⟩, text⟩ _ ∧
      m.Ahead k (c.take c.next r).rest r'
    rw [hrest, hnext, ← hr']
    exact ⟨hbetween.samePart _ _, hahead⟩
  · exact post_failLast

/-! ### Names of a list -/

/-- The reader takes the next word, if one comes next. -/
def Passes (p : Reader α) : Prop :=
  ∀ c, name? c.next ≠ none → p.Post c fun _ d => d.next.length ≤ (past c.rest).1.length

lemma passes_name : Passes name :=
  fun c _ => (post_name_past c).mono fun _ _ _ hd => hd ▸ Nat.le_refl _

section

variable {p : Reader α} {f : α → Reader β}

lemma Passes.bind (hp : Passes p) (hf : ∀ a, Steady (f a)) : Passes (p >>= f) :=
  fun c hc => post_bind ((hp c hc).mono fun a d _ hd => (hf a d).mono fun _ _ _ he => he.trans hd)

end

lemma steady_offeredName : Steady offeredName :=
  looks_next.steady.bind fun _ => steady_ite steady_moduleText
    (steady_name.bind fun _ => steady_partSince _)

lemma name?_literal (r : List Char) : name? ('"' :: r) = none := by
  rw [name?, if_neg (by decide)]

lemma passes_offeredName : Passes offeredName := by
  refine fun c hc => post_bind (post_next ?_)
  split
  · next h =>
    obtain ⟨r, hr⟩ := Option.isSome_iff_exists.1 h
    have hnext : c.next = '"' :: r := string?_eq_some hr
    exact absurd (hnext ▸ name?_literal r) hc
  · exact (passes_name.bind fun _ => steady_partSince _) c hc

lemma isSome_string?_iff {t : List Char} : (string? t).isSome = true ↔ t.head? = some '"' := by
  unfold string?
  split
  · simp
  · next hno =>
    refine iff_of_false Bool.false_ne_true fun hhead => ?_
    obtain ⟨r, hr⟩ := List.head?_eq_some_iff.1 hhead
    exact hno r hr

lemma TwoPlaces.Ahead.string? (h : m.Ahead k t t') : (Script.string? t').isSome = (Script.string? t).isSome := by
  rw [Bool.eq_iff_iff, isSome_string?_iff, isSome_string?_iff]
  exact (h.head (by decide)).symm

lemma startsName_iff {t : List Char} :
    startsName t = true ↔ ∃ c, t.head? = some c ∧ (isNameStart c = true ∨ c = '\\') := by
  cases t with
  | nil => simp [startsName]
  | cons c t => simp [startsName]

lemma TwoPlaces.Ahead.startsName (h : m.Ahead k t t') : Script.startsName t' = Script.startsName t := by
  have hblank {c : Char} (hc : isNameStart c = true ∨ c = '\\') : isBlank c = false := by
    rw [Bool.eq_false_iff]
    intro hb
    obtain ⟨hno, hescape⟩ := IsStop.endsWord (.inl hb)
    rcases hc with hc | hc
    · have hchar : isNameChar c = true := by simp only [isNameChar, hc, Bool.true_or]
      rw [hno] at hchar
      cases hchar
    · exact hescape hc
  rw [Bool.eq_iff_iff, startsName_iff, startsName_iff]
  refine exists_congr fun c => and_congr_left fun hc => ?_
  exact (h.head (hblank hc)).symm

lemma follows_offeredName : m.Follows (k + 1) k offeredName offeredName m.SamePart := by
  intro c t' ht
  have hliteral (hlt : m.rest.length < c.next.length) :
      (Script.string? (skipGap .blank false t').1).isSome = (Script.string? c.next).isSome :=
    (ht.gap hlt false).string?
  refine post_bind (post_next ?_)
  split
  · next h =>
    intro p d hread hlt
    obtain ⟨p', r', htakes, hp, hr⟩ := follows_moduleText c t' ht p d hread hlt
    have hlt' := hlt.trans_le (steady_moduleText c p d hread)
    refine ⟨p', r', takes_next.bind ?_, hp, hr⟩
    rw [if_pos ((hliteral hlt').trans h)]
    exact htakes
  · next h =>
    refine post_bind fun n d hread => post_partSince fun text hlt => ?_
    obtain ⟨r', htakes, hr, hbetween⟩ := post_name_ahead ht n d hread hlt
    have hlt' := hlt.trans_le (steady_name c n d hread)
    refine ⟨partBetween (skipGap .blank false t').1 r', r', takes_next.bind ?_,
      hbetween.samePart _ _, hr⟩
    rw [if_neg ((hliteral hlt').symm ▸ h)]
    exact htakes.bind takes_partSince

/-- The names of two lists say the same. -/
structure TwoPlaces.SameName (m : TwoPlaces) (n n' : ImportedName) : Prop where
  typeOnly : n.typeOnly = n'.typeOnly
  name : m.SamePart n.name n'.name
  newName : n.newName = n'.newName

lemma steady_behindName (typeOnly : Bool) (n : Part) : Steady (do
    if ← eatWord "as" then return (⟨typeOnly, n, some (← name)⟩ : ImportedName)
    return ⟨typeOnly, n, none⟩) :=
  (steady_eatWord "as").bind fun _ => steady_ite (steady_name.bind fun _ => steady_pure _)
    (steady_pure _)

lemma steady_namedImport (typeOnly : Bool) : Steady (namedImport typeOnly) :=
  steady_offeredName.bind fun n => steady_behindName typeOnly n

lemma passes_namedImport (typeOnly : Bool) : Passes (namedImport typeOnly) :=
  passes_offeredName.bind fun n => steady_behindName typeOnly n

lemma follows_name_within : m.Follows k k name name Eq :=
  follows_name.mono (Nat.le_succ k) (Nat.le_refl k) fun _ _ => id

lemma follows_namedImport (typeOnly : Bool) :
    m.Follows (k + 1) k (namedImport typeOnly) (namedImport typeOnly) m.SameName := by
  refine follows_offeredName.bind (fun n n' hn => ?_) fun n => steady_behindName typeOnly n
  refine (follows_eatWord "as").bind (fun b b' hb => ?_) fun _ =>
    steady_ite (steady_name.bind fun _ => steady_pure _) (steady_pure _)
  subst hb
  refine follows_ite Iff.rfl ?_ (follows_pure ⟨rfl, hn, rfl⟩)
  exact follows_name_within.bind (fun w w' hw => follows_pure ⟨rfl, hn, congrArg some hw⟩) fun _ =>
    steady_pure _

/-- Whether the word `type` marks a name, from what comes behind it. -/
def marksBehind (r : List Char) : Bool :=
  (Script.startsName r && firstWord r != "as") || (Script.string? r).isSome

lemma looks_marksName : Looks marksName fun t => marksBehind (past t).1 :=
  looks_pastWord.bind fun _ => looks_pure _

lemma TwoPlaces.Ahead.marksBehind (h : m.Ahead k t t') : Script.marksBehind t' = Script.marksBehind t := by
  rw [Script.marksBehind, Script.marksBehind, h.startsName, h.firstWord, h.string?]

/-- An imported name behind what tells whether words in front of it mark it. -/
def markedImport (w : String) (typeOnly : Bool) : Reader ImportedName := do
  if typeOnly ∨ w = "typeof" then
    let _ ← name
  namedImport typeOnly

/-- Whether a name of an import list is marked as that of a type. -/
def marksType (t : List Char) : Bool := wordOf t == "type" && marksBehind (past t).1

lemma comes_importedName (t : List Char) :
    Comes importedName t (markedImport (wordOf t) (marksType t)) t := by
  refine (looks_nextWord t).comes.trans ?_
  dsimp only
  unfold marksType
  split
  · next hw =>
    rw [hw]
    exact (looks_marksName t).comes
  · next hw =>
    rw [beq_eq_false_iff_ne.2 hw]
    exact takes_pure.comes

lemma steady_markedImport (w : String) (typeOnly : Bool) : Steady (markedImport w typeOnly) := by
  unfold markedImport
  dsimp only
  split
  · exact steady_name.bind fun _ => steady_namedImport typeOnly
  · exact steady_namedImport typeOnly

lemma passes_markedImport (w : String) (typeOnly : Bool) : Passes (markedImport w typeOnly) := by
  unfold markedImport
  dsimp only
  split
  · exact passes_name.bind fun _ => steady_namedImport typeOnly
  · exact passes_namedImport typeOnly

lemma follows_markedImport (w : String) (typeOnly : Bool) :
    m.Follows (k + 1) k (markedImport w typeOnly) (markedImport w typeOnly) m.SameName := by
  have hnamed : m.Follows k k (namedImport typeOnly) (namedImport typeOnly) m.SameName :=
    (follows_namedImport typeOnly).mono (Nat.le_succ k) (Nat.le_refl k) fun _ _ => id
  exact follows_ite Iff.rfl (follows_name.bind (fun _ _ _ => hnamed) fun _ => steady_namedImport typeOnly)
    (follows_namedImport typeOnly)

lemma wordOf_eq_empty (h : name? (skipGap .blank false t).1 = none) : wordOf t = "" := by
  rw [wordOf, firstWord, h]
  rfl

lemma follows_importedName : m.Follows (k + 1) k importedName importedName m.SameName := by
  refine fun c t' ht => post_of_comes (comes_importedName c.rest) fun d hd n e hread hlt => ?_
  have hle := steady_markedImport _ _ d n e hread
  have hgap := ht.gap (e := false) (hd ▸ hlt.trans_le hle) false
  have hword : wordOf t' = wordOf c.rest := hgap.firstWord
  have htype : marksType t' = marksType c.rest := by
    rw [marksType, marksType, hword]
    by_cases hw : wordOf c.rest = "type"
    · have hname : name? d.next ≠ none := fun hnone => by
        rw [Cursor.next, hd] at hnone
        rw [wordOf_eq_empty hnone] at hw
        exact absurd hw (by decide)
      have hpast := hlt.trans_le (passes_markedImport _ _ d hname n e hread)
      rw [hd] at hpast
      rw [(ht.past hpast).marksBehind]
    · rw [beq_eq_false_iff_ne.2 hw]
      rfl
  obtain ⟨n', r', htakes, hn, hr⟩ := follows_markedImport _ _ d t' (hd ▸ ht) n e hread hlt
  rw [← hword, ← htype] at htakes
  exact ⟨n', r', (comes_importedName t').takes htakes, hn, hr⟩

/-! ### Lists of names -/

lemma steady_closing (s : String) : Steady (closing s) := by
  have hreport : Steady (do report (← cursor).rest.length) := by
    refine steady_cursor.bind fun c => fun d a e h => ?_
    cases h
    exact Nat.le_refl _
  have hahead : Looks ahead fun t => skipGap .blank false t := fun _ => takes_ahead
  refine (steady_eat s).bind fun b => steady_ite (steady_pure _) (hahead.steady.bind fun p => ?_)
  obtain ⟨t, lineEnd⟩ := p
  dsimp only
  split
  · exact hreport
  · exact hreport
  · exact steady_ite hreport steady_failNext

lemma steady_importedName : Steady importedName := fun c =>
  post_of_comes (comes_importedName c.rest) fun d hd => (steady_markedImport _ _ d).mono
    fun _ _ _ he => he.trans_eq (by rw [Cursor.next, Cursor.next, hd])

/-- Without a comma the closing bracket comes next, or the text is over. -/
lemma post_comma (close : Char) (c : Cursor) : (comma close).Post c fun b d =>
    b = false → d = c ∧ (c.next = [] ∨ c.next.head? = some close) := by
  refine post_bind ((post_eat "," c).mono fun b d _ hd => ?_)
  cases b with
  | true => exact post_pure fun h => nomatch h
  | false =>
    obtain rfl : d = c := hd
    refine post_bind (post_next ?_)
    split
    · next x r hx =>
      split
      · next hclose =>
        refine post_pure fun _ => ⟨rfl, .inr ?_⟩
        rw [Cursor.next, hx, hclose]
        rfl
      · exact post_failNext
    · next hx => exact post_pure fun _ => ⟨rfl, .inl hx⟩

lemma takes_closing {s : String} (h : (skipGap .blank false t).1 = s.toList ++ r) :
    Takes (closing s) t () r := (takes_eat h).bind takes_pure

/-- A bracket that comes next is taken in both scripts. -/
lemma post_closing_ahead {c : Cursor} (ht : m.Ahead k c.rest t')
    (hnext : c.next.head? = some '}') : (closing closeBrace).Post c fun _ d =>
      m.rest.length < d.next.length →
        ∃ r', Takes (closing closeBrace) t' () r' ∧ m.Ahead k d.rest r' := by
  obtain ⟨r, hr⟩ := List.head?_eq_some_iff.1 hnext
  refine post_of_takes (takes_closing (r := r) (by exact hr)) fun d hd hlt => ?_
  have hle : m.rest.length < r.length := hd ▸ hlt.trans_le d.next_suffix.length_le
  have hgap := ht.gap (e := false) (by
    rw [show (skipGap .blank false c.rest).1 = '}' :: r from hr, List.length_cons]
    omega) false
  rw [show (skipGap .blank false c.rest).1 = '}' :: r from hr] at hgap
  obtain ⟨r', j, hr', rfl, hahead, -⟩ := hgap.cons (by decide) hle
  exact ⟨r', takes_closing hr', hd ▸ hahead.mono (Nat.le_succ j)⟩

/-- What is read of a list behind one of its names. -/
def moreNames (go : Rules) (x : ImportedName) : Reader (List ImportedName) := do
  if ← comma '}' then return x :: (← go .importNames)
  closing closeBrace
  return [x]

section

variable {go go' : Rules} (hsteady : Steady (go .importNames))

include hsteady

lemma steady_behindComma (x : ImportedName) (b : Bool) : Steady (do
    if b then return x :: (← go .importNames)
    closing closeBrace
    return [x]) :=
  steady_ite (hsteady.bind fun _ => steady_pure _) ((steady_closing _).bind fun _ => steady_pure _)

lemma steady_moreNames (x : ImportedName) : Steady (moreNames go x) :=
  (steady_comma _).bind fun b => steady_behindComma hsteady x b

lemma follows_moreNames
    (hmore : m.Follows k k (go .importNames) (go' .importNames) (List.Forall₂ m.SameName))
    {x x' : ImportedName} (hx : m.SameName x x') :
    m.Follows k k (moreNames go x) (moreNames go' x') (List.Forall₂ m.SameName) := by
  refine fun c t' ht => post_bind fun b d hread ns e hread' hlt => ?_
  have hle := steady_behindComma hsteady x b d ns e hread'
  obtain ⟨b', r', htakes, rfl, hr⟩ := follows_comma (by decide) c t' ht b d hread (hlt.trans_le hle)
  cases b with
  | true =>
    have hrest : m.Follows k k (do return x :: (← go .importNames))
        (do return x' :: (← go' .importNames)) (List.Forall₂ m.SameName) :=
      hmore.bind (fun ns ns' hns => follows_pure (.cons hx hns)) fun _ => steady_pure _
    obtain ⟨ns', s', htakes', hns, hs⟩ := hrest d r' hr ns e hread' hlt
    exact ⟨ns', s', htakes.bind htakes', hns, hs⟩
  | false =>
    obtain ⟨rfl, hnext⟩ := post_comma '}' c false d hread rfl
    have hclose : d.next.head? = some '}' := hnext.resolve_left fun hnil => by
      rw [hnil] at hle
      exact absurd (hlt.trans_le hle) (Nat.not_lt_zero _)
    have hpost : (do closing closeBrace; return [x] : Reader (List ImportedName)).Post d
        fun ns e => m.rest.length < e.next.length → ∃ ns' s',
          Takes (do closing closeBrace; return [x'] : Reader (List ImportedName)) r' ns' s' ∧
            List.Forall₂ m.SameName ns ns' ∧ m.Ahead k e.rest s' := by
      refine post_bind ((post_closing_ahead hr hclose).mono fun _ e _ he => post_pure fun hlt => ?_)
      obtain ⟨s', htakes', hs⟩ := he hlt
      exact ⟨[x'], s', htakes'.bind takes_pure, .cons hx .nil, hs⟩
    obtain ⟨ns', s', htakes', hns, hs⟩ := hpost ns e hread' hlt
    exact ⟨ns', s', htakes.bind htakes', hns, hs⟩

end

lemma steady_importNames (n : Nat) : Steady (run n .importNames) := by
  induction n with
  | zero => exact steady_failNext
  | succ n ih =>
    exact (steady_eat _).bind fun b => steady_ite (steady_pure _)
      (steady_importedName.bind fun x => steady_moreNames ih x)

/-- **A list of names** is the same in both scripts, with enough fuel for the second one. -/
lemma follows_importNames (n n' : Nat) (hk : k ≤ n') :
    m.Follows k k (run n .importNames) (run n' .importNames) (List.Forall₂ m.SameName) := by
  induction n generalizing k n' with
  | zero => exact follows_failNext
  | succ n ih =>
    cases k with
    | zero => exact follows_zero
    | succ j =>
      obtain ⟨n', rfl⟩ : ∃ l, n' = l + 1 := ⟨n' - 1, by omega⟩
      have hbehind (x : ImportedName) : Steady (moreNames (run n) x) :=
        steady_moreNames (steady_importNames n) x
      refine (follows_eat rfl (by decide)).bind (fun b b' hb => ?_) fun b =>
        steady_ite (steady_pure _) (steady_importedName.bind hbehind)
      subst hb
      refine follows_ite Iff.rfl (follows_pure .nil) ?_
      have hnames : m.Follows (j + 1) j (importedName >>= moreNames (run n))
          (importedName >>= moreNames (run n')) (List.Forall₂ m.SameName) :=
        follows_importedName.bind
          (fun x x' hx => follows_moreNames (steady_importNames n) (ih n' (by omega)) hx) hbehind
      exact hnames.mono (Nat.le_refl _) (Nat.le_succ j) fun _ _ => id

end Mender.Script
