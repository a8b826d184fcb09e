import Mender.Proofs.Text.Lines
import Mender.Text.Pattern

/-!
What a pattern matches.

`Spans` says which stretches of a text a pattern matches, with the blanks of a run chosen
freely; the matcher, which takes each run whole, finds a match exactly when there is one. A
pattern that keeps to its line is found on a line exactly when it matches a stretch of the whole
text that has no line feed in it.
-/

namespace Mender.Text

/-! ### Matched stretches -/

/-- A part matches the stretch `m`, with the character `before` in front of it and the text
`after` behind it. -/
inductive Part.Spans (before : Option Char) : Part → (m after : List Char) → Prop
  | char (c : Char) (after : List Char) : Spans before (.char c) [c] after
  | oneOf {cs : List Char} {c : Char} (h : c ∈ cs) (after : List Char) :
    Spans before (.oneOf cs) [c] after
  | blanks {m : List Char} (h : ∀ c ∈ m, isBlank c = true) (after : List Char) :
    Spans before .blanks m after
  | someBlanks {m : List Char} (h : ∀ c ∈ m, isBlank c = true) (hm : m ≠ []) (after : List Char) :
    Spans before .someBlanks m after
  | edge {after : List Char}
    (h : Pattern.isWordAt before ≠ Pattern.isWordAt after.head?) : Spans before .edge [] after
  | start (h : before = none) (after : List Char) : Spans before .lead [] after
  | blank {c : Char} (h : isBlank c = true) (after : List Char) : Spans before .lead [c] after

def Part.isLead : Part → Bool
  | .lead => true
  | _ => false

def Part.isEdge : Part → Bool
  | .edge => true
  | _ => false

/-- What a part other than a lead matches depends on its neighbours only by their being word
characters. -/
lemma Part.Spans.congr {part : Part} {before before' : Option Char} {m after after' : List Char}
    (h : part.Spans before m after) (hlead : part.isLead = false)
    (hb : Pattern.isWordAt before = Pattern.isWordAt before')
    (ha : Pattern.isWordAt after.head? = Pattern.isWordAt after'.head?) :
    part.Spans before' m after' := by
  cases h with
  | char => exact .char _ _
  | oneOf h => exact .oneOf h _
  | blanks h => exact .blanks h _
  | someBlanks h hm => exact .someBlanks h hm _
  | edge h => exact .edge (by rwa [← hb, ← ha])
  | start | blank => cases hlead

namespace Pattern

/-- A pattern matches the stretch `m` when its parts match stretches that make up `m`. -/
inductive Spans : (before : Option Char) → Pattern → (m after : List Char) → Prop
  | nil (before : Option Char) (after : List Char) : Spans before [] [] after
  | cons {before : Option Char} {part : Part} {p : Pattern} {m m' after : List Char}
    (h : part.Spans before m (m' ++ after)) (h' : Spans (m.getLast?.or before) p m' after) :
    Spans before (part :: p) (m ++ m') after

/-- The pattern matches the stretch `m` of the text `a ++ m ++ b`. -/
def Occurs (p : Pattern) (a m b : List Char) : Prop := p.Spans a.getLast? m b

/-- The first part is a character that is not blank. -/
def startsSolid : Pattern → Bool
  | .char c :: _ => !isBlank c
  | .oneOf cs :: _ => cs.all fun c => !isBlank c
  | _ => false

/-- What comes after a run of blanks cannot be one of them. -/
def settled : Pattern → Bool
  | [] => true
  | .blanks :: p => startsSolid p && settled p
  | .someBlanks :: p => startsSolid p && settled p
  | _ :: p => settled p

variable {before : Option Char} {p : Pattern} {m after t : List Char}

lemma Spans.starts_solid (h : p.Spans before m after) (hp : p.startsSolid = true) :
    ∃ c m', m = c :: m' ∧ isBlank c = false := by
  cases h with
  | nil => simp [startsSolid] at hp
  | @cons _ part _ _ m' _ h _ =>
    cases h with
    | char c => exact ⟨c, m', rfl, by simpa [startsSolid] using hp⟩
    | @oneOf _ c hc =>
      simp only [startsSolid, List.all_eq_true] at hp
      exact ⟨c, m', rfl, by simpa using hp c hc⟩
    | blanks | someBlanks | edge | start | blank => simp [startsSolid] at hp

/-- A run of blanks in front of something solid is the longest one. -/
lemma takeWhile_blanks (hm : ∀ c ∈ m, isBlank c = true) {c : Char} (hc : isBlank c = false)
    (r : List Char) :
    (m ++ c :: r).takeWhile isBlank = m ∧ (m ++ c :: r).dropWhile isBlank = c :: r := by
  rw [List.takeWhile_append_of_pos hm, List.dropWhile_append_of_pos hm]
  simp [hc]

/-- A pattern matches at the start of `t`. -/
def MatchesAt (before : Option Char) (p : Pattern) (t : List Char) : Prop :=
  ∃ m after, t = m ++ after ∧ p.Spans before m after

lemma matchesAt_cons_iff {part : Part} :
    MatchesAt before (part :: p) t ↔
      ∃ m r, t = m ++ r ∧ part.Spans before m r ∧ MatchesAt (m.getLast?.or before) p r := by
  constructor
  · rintro ⟨_, after, rfl, h⟩
    cases h with
    | @cons _ _ _ m m' _ h h' => exact ⟨m, m' ++ after, by simp, h, m', after, rfl, h'⟩
  · rintro ⟨m, _, rfl, h, m', after, rfl, h'⟩
    exact ⟨m ++ m', after, by simp, .cons h h'⟩

lemma matchesAt_blanks (hp : p.startsSolid = true) :
    MatchesAt before (.blanks :: p) t ↔
      MatchesAt (beforeRest before t) p (t.dropWhile isBlank) := by
  rw [matchesAt_cons_iff]
  constructor
  · rintro ⟨m, r, rfl, h, m', after, rfl, h'⟩
    obtain ⟨c, k, rfl, hc⟩ := h'.starts_solid hp
    cases h with
    | blanks h =>
      obtain ⟨htake, hdrop⟩ := takeWhile_blanks h hc (k ++ after)
      rw [beforeRest, List.cons_append, htake, hdrop]
      exact ⟨c :: k, after, rfl, h'⟩
  · intro h
    exact ⟨t.takeWhile isBlank, _, List.takeWhile_append_dropWhile.symm,
      .blanks (List.all_eq_true.1 List.all_takeWhile) _, h⟩

lemma matchesAt_someBlanks (hp : p.startsSolid = true) :
    MatchesAt before (.someBlanks :: p) t ↔
      t.head?.any isBlank = true ∧ MatchesAt before (.blanks :: p) t := by
  rw [matchesAt_cons_iff, matchesAt_cons_iff]
  constructor
  · rintro ⟨m, r, rfl, h, h'⟩
    cases h with
    | someBlanks h hm =>
      obtain ⟨c, k, rfl⟩ := List.exists_cons_of_ne_nil hm
      exact ⟨by simpa using h c List.mem_cons_self, c :: k, r, rfl, .blanks h r, h'⟩
  · rintro ⟨hhead, m, r, rfl, h, h'⟩
    cases h with
    | blanks h =>
      refine ⟨m, r, rfl, .someBlanks h ?_ r, h'⟩
      -- with no blank taken, the solid part would stand on the first one
      rintro rfl
      obtain ⟨m', after, rfl, h'⟩ := h'
      obtain ⟨c, k, rfl, hc⟩ := h'.starts_solid hp
      simp [hc] at hhead

lemma matchesAt_char {d : Char} :
    MatchesAt before (.char d :: p) t ↔ ∃ r, t = d :: r ∧ MatchesAt (some d) p r := by
  rw [matchesAt_cons_iff]
  constructor
  · rintro ⟨m, r, rfl, h, h'⟩
    cases h with
    | char => exact ⟨r, rfl, h'⟩
  · rintro ⟨r, rfl, h'⟩
    exact ⟨[d], r, rfl, .char d r, h'⟩

lemma matchesAt_oneOf {ds : List Char} :
    MatchesAt before (.oneOf ds :: p) t ↔ ∃ c r, t = c :: r ∧ c ∈ ds ∧ MatchesAt (some c) p r := by
  rw [matchesAt_cons_iff]
  constructor
  · rintro ⟨m, r, rfl, h, h'⟩
    cases h with
    | @oneOf _ c hc => exact ⟨c, r, rfl, hc, h'⟩
  · rintro ⟨c, r, rfl, hc, h'⟩
    exact ⟨[c], r, rfl, .oneOf hc r, h'⟩

lemma matchesAt_edge :
    MatchesAt before (.edge :: p) t ↔
      isWordAt before ≠ isWordAt t.head? ∧ MatchesAt before p t := by
  rw [matchesAt_cons_iff]
  constructor
  · rintro ⟨m, r, rfl, h, h'⟩
    cases h with
    | edge h => exact ⟨h, h'⟩
  · rintro ⟨h, h'⟩
    exact ⟨[], t, rfl, .edge h, h'⟩

lemma matchesAt_lead :
    MatchesAt before (.lead :: p) t ↔
      (before = none ∧ MatchesAt before p t) ∨
        ∃ c r, t = c :: r ∧ isBlank c = true ∧ MatchesAt (some c) p r := by
  rw [matchesAt_cons_iff]
  constructor
  · rintro ⟨m, r, rfl, h, h'⟩
    cases h with
    | start h => exact .inl ⟨h, h'⟩
    | @blank c hc => exact .inr ⟨c, r, rfl, hc, h'⟩
  · rintro (⟨h, h'⟩ | ⟨c, r, rfl, hc, h'⟩)
    · exact ⟨[], t, rfl, .start h t, h'⟩
    · exact ⟨[c], r, rfl, .blank hc r, h'⟩

/-- **The matcher finds what a settled pattern spans.** -/
theorem matchesHere_iff (hp : p.settled = true) :
    matchesHere before p t = true ↔ MatchesAt before p t := by
  induction p generalizing before t with
  | nil => exact ⟨fun _ => ⟨[], t, rfl, .nil _ _⟩, fun _ => by simp [matchesHere]⟩
  | cons part p ih =>
    cases part with
    | char d =>
      rw [matchesAt_char]
      cases t with
      | nil => simp [matchesHere]
      | cons c r =>
        simp only [matchesHere, Bool.and_eq_true, beq_iff_eq, ih hp]
        constructor
        · rintro ⟨rfl, h⟩
          exact ⟨r, rfl, h⟩
        · rintro ⟨_, ⟨⟩, h⟩
          exact ⟨rfl, h⟩
    | oneOf ds =>
      rw [matchesAt_oneOf]
      cases t with
      | nil => simp [matchesHere]
      | cons c r => simp [matchesHere, ih hp]
    | blanks =>
      obtain ⟨hs, hp⟩ := Bool.and_eq_true_iff.1 hp
      rw [matchesHere, ih hp, matchesAt_blanks hs]
    | someBlanks =>
      obtain ⟨hs, hp⟩ := Bool.and_eq_true_iff.1 hp
      rw [matchesHere, Bool.and_eq_true, ih hp, matchesAt_someBlanks hs, matchesAt_blanks hs]
    | edge => rw [matchesHere, Bool.and_eq_true, bne_iff_ne, ih hp, matchesAt_edge]
    | lead =>
      rw [matchesAt_lead]
      cases t with
      | nil => simp [matchesHere, ih hp]
      | cons c r => simp [matchesHere, ih hp]

lemma matchesFrom_iff (hp : p.settled = true) :
    matchesFrom p before t = true ↔
      ∃ a m b, t = a ++ m ++ b ∧ p.Spans (a.getLast?.or before) m b := by
  induction t generalizing before with
  | nil =>
    rw [matchesFrom, matchesHere_iff hp]
    constructor
    · rintro ⟨m, b, h, hs⟩
      exact ⟨[], m, b, h, hs⟩
    · rintro ⟨a, m, b, h, hs⟩
      obtain rfl : a = [] := by simp_all
      exact ⟨m, b, h, hs⟩
  | cons c r ih =>
    rw [matchesFrom, Bool.or_eq_true, matchesHere_iff hp, ih]
    constructor
    · rintro (⟨m, b, h, hs⟩ | ⟨a, m, b, rfl, hs⟩)
      · exact ⟨[], m, b, h, hs⟩
      · refine ⟨c :: a, m, b, rfl, ?_⟩
        simpa [List.getLast?_cons] using hs
    · rintro ⟨a, m, b, h, hs⟩
      cases a with
      | nil => exact .inl ⟨m, b, h, hs⟩
      | cons d a =>
        obtain ⟨rfl, rfl⟩ := List.cons.inj h
        refine .inr ⟨a, m, b, rfl, ?_⟩
        simpa [List.getLast?_cons] using hs

/-- A settled pattern is found in a text exactly when it matches a stretch of it. -/
theorem isIn_iff (hp : p.settled = true) :
    p.isIn t = true ↔ ∃ a m b, t = a ++ m ++ b ∧ p.Occurs a m b := by
  simp [isIn, matchesFrom_iff hp, Occurs]

/-! ### Matches in one line -/

/-- The last part that takes characters takes one that is not blank. -/
def endsSolid : Pattern → Bool
  | [] => false
  | .char c :: p => endsSolid p || (!isBlank c && p.all Part.isEdge)
  | _ :: p => endsSolid p

/-- A pattern that is found on a line as it is found in the text. -/
structure KeepsToLine (p : Pattern) : Prop where
  settled : p.settled = true
  leadless : ∀ part ∈ p, part.isLead = false
  solid : p.endsSolid = true

instance : DecidablePred KeepsToLine := fun p =>
  decidable_of_iff
    (p.settled = true ∧ (∀ part ∈ p, part.isLead = false) ∧ p.endsSolid = true)
    ⟨fun h => ⟨h.1, h.2.1, h.2.2⟩, fun h => ⟨h.settled, h.leadless, h.solid⟩⟩

lemma Spans.eq_nil (h : p.Spans before m after) (hp : p.all Part.isEdge = true) : m = [] := by
  induction h with
  | nil => rfl
  | cons h _ ih =>
    rw [List.all_cons, Bool.and_eq_true] at hp
    cases h with
    | edge => exact ih hp.2
    | char | oneOf | blanks | someBlanks | start | blank => cases hp.1

lemma Spans.ends_solid (h : p.Spans before m after) (hp : p.endsSolid = true) :
    ∃ k c, m = k ++ [c] ∧ isBlank c = false := by
  induction h with
  | nil => cases hp
  | @cons _ part p m m' after h h' ih =>
    have hrest : p.endsSolid = true → ∃ k c, m ++ m' = k ++ [c] ∧ isBlank c = false := by
      intro hs
      obtain ⟨k, c, rfl, hc⟩ := ih hs
      exact ⟨m ++ k, c, by simp, hc⟩
    cases h with
    | char c =>
      rcases Bool.or_eq_true_iff.1 hp with hs | hs
      · exact hrest hs
      · rw [Bool.and_eq_true] at hs
        exact ⟨[], c, by simp [h'.eq_nil hs.2], by simpa using hs.1⟩
    | oneOf | blanks | someBlanks | edge | start | blank => exact hrest hp

lemma Spans.congr (h : p.Spans before m after) (hp : ∀ part ∈ p, part.isLead = false)
    {before' : Option Char} {after' : List Char} (hb : isWordAt before = isWordAt before')
    (ha : isWordAt after.head? = isWordAt after'.head?) : p.Spans before' m after' := by
  induction h generalizing before' with
  | nil => exact .nil _ _
  | @cons before part p m m' after h h' ih =>
    have hp' := fun part hpart => hp part (List.mem_cons_of_mem _ hpart)
    refine .cons (h.congr (hp part List.mem_cons_self) hb ?_) (ih hp' ?_ ha)
    · cases m' with
      | nil => exact ha
      | cons c r => rfl
    · cases m.getLast? with
      | none => exact hb
      | some c => rfl

lemma isBlank_return : isBlank '\r' = true := by decide

lemma isWordAt_of_opened {x : List Char} (h : x = [] ∨ x.getLast? = some '\n') :
    isWordAt x.getLast? = false := by
  rcases h with rfl | h
  · rfl
  · rw [h]
    decide

lemma isWordAt_of_closed {l y : List Char} (h : LineClosed l y) : isWordAt y.head? = false := by
  cases h with
  | textEnd => rfl
  | feed => exact (by decide : isWordAt (some '\n') = false)
  | «return» => exact (by decide : isWordAt (some '\r') = false)

/-- In the middle of a line a pattern that keeps to it cannot tell the line from the text. -/
lemma occurs_iff_of_isLine (hp : p.KeepsToLine) {x a b y : List Char}
    (h : IsLine x (a ++ m ++ b) y) : p.Occurs a m b ↔ p.Occurs (x ++ a) m (b ++ y) := by
  have hb : isWordAt a.getLast? = isWordAt (x ++ a).getLast? := by
    rcases List.eq_nil_or_concat a with rfl | ⟨a, c, rfl⟩
    · rw [List.append_nil, isWordAt_of_opened h.opened]
      rfl
    · simp [List.getLast?_append]
  have ha : isWordAt b.head? = isWordAt (b ++ y).head? := by
    cases b with
    | nil =>
      rw [List.nil_append, isWordAt_of_closed h.closed]
      rfl
    | cons c b => rfl
  exact ⟨fun hs => hs.congr hp.leadless hb ha, fun hs => hs.congr hp.leadless hb.symm ha.symm⟩

/-- **Matches on a line** are the matches in the text that have no line feed. -/
theorem exists_line_isIn_iff (hp : p.KeepsToLine) :
    (∃ l ∈ lines t, p.isIn l = true) ↔
      ∃ a m b, t = a ++ m ++ b ∧ '\n' ∉ m ∧ p.Occurs a m b := by
  simp only [isIn_iff hp.settled]
  constructor
  · rintro ⟨l, hl, a, m, b, rfl, hs⟩
    obtain ⟨x, y, rfl, h⟩ := mem_lines_iff.1 hl
    have hm : '\n' ∉ m := fun hn => h.feedless (by simp [hn])
    exact ⟨x ++ a, m, b ++ y, by simp, hm, (occurs_iff_of_isLine hp h).1 hs⟩
  · rintro ⟨a, m, b, rfl, hm, hs⟩
    obtain ⟨k, c, rfl, hc⟩ := Spans.ends_solid hs hp.solid
    have hr : (k ++ [c]).getLast? ≠ some '\r' := by
      rw [List.getLast?_concat]
      rintro ⟨⟩
      rw [isBlank_return] at hc
      cases hc
    obtain ⟨x, a, b, y, rfl, rfl, h⟩ := exists_line_around (a := a) (b := b) hm (by simp) hr
    exact ⟨_, mem_lines_iff.2 ⟨x, y, by simp, h⟩, a, _, b, rfl, (occurs_iff_of_isLine hp h).2 hs⟩

end Pattern

end Mender.Text
