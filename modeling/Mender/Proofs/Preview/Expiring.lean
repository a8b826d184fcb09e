import Mathlib.Data.List.Induction
import Mathlib.Tactic.Common
import Mathlib.Tactic.Lemma
import Mender.Preview.Expiring
import Mender.Proofs.KeyMap

/-!
Expiring values against a map that is never swept.

The map keeps the latest insertion of every key with its time. What a sweep takes away has expired
and stays expired as time goes on, so the two answer alike, however often sweeps come.
-/

namespace Mender.Preview.Expiring

variable {α : Type}

/-- What can be done to expiring values. -/
inductive Op (α : Type)
  | insert (key : String) (value : α) (time : Nat)
  | get (key : String) (time : Nat)
  | sweep (time : Nat)
  | reset
  deriving DecidableEq

namespace Op

def time? : Op α → Option Nat
  | insert _ _ t | get _ t | sweep t => some t
  | reset => none

/-- Insertions and resets; the others only look. -/
def isWrite : Op α → Bool
  | insert .. | reset => true
  | get .. | sweep _ => false

/-- The operation leaves nothing of what a key had before. -/
def Replaces (key : String) : Op α → Prop
  | insert k _ _ => k = key
  | reset => True
  | get .. | sweep _ => False

def run (e : Expiry) (c : Expiring α) : Op α → Expiring α
  | insert k v t => c.insert e k v t
  | get k t => (c.get e k t).2
  | sweep t => c.swept e t
  | reset => c.reset

/-- What the operation does to the map that is never swept. -/
def record (m : KeyMap (Slot α)) : Op α → KeyMap (Slot α)
  | insert k v t => m.insert k ⟨v, t⟩
  | reset => ∅
  | get .. | sweep _ => m

end Op

/-- Times never decrease. -/
def InOrder (ops : List (Op α)) : Prop := (ops.filterMap Op.time?).Pairwise (· ≤ ·)

instance (ops : List (Op α)) : Decidable (InOrder ops) :=
  inferInstanceAs (Decidable ((ops.filterMap Op.time?).Pairwise (· ≤ ·)))

/-- What a row of operations makes of nothing. -/
def run (e : Expiry) (ops : List (Op α)) : Expiring α := ops.foldl (Op.run e) {}

/-- What a key gives after a row of operations. -/
def answer (e : Expiry) (ops : List (Op α)) (key : String) (now : Nat) : Option α :=
  ((run e ops).get e key now).1

/-- The map that is never swept, after a row of operations. -/
def record (ops : List (Op α)) : KeyMap (Slot α) := ops.foldl Op.record ∅

/-- The latest insertion of a key since the last reset put `v` at the time `t`. -/
def LatestInsert (key : String) (v : α) (t : Nat) (ops : List (Op α)) : Prop :=
  ∃ earlier later, ops = earlier ++ .insert key v t :: later ∧ ∀ o ∈ later, ¬ o.Replaces key

/-! ### The record -/

lemma record_snoc (ops : List (Op α)) (o : Op α) : record (ops ++ [o]) = o.record (record ops) := by
  simp [record]

lemma not_latestInsert_nil (key : String) (v : α) (t : Nat) :
    ¬ LatestInsert key v t ([] : List (Op α)) := by
  rintro ⟨earlier, later, h, -⟩
  simp at h

lemma latestInsert_snoc {key : String} {v : α} {t : Nat} {ops : List (Op α)} {o : Op α} :
    LatestInsert key v t (ops ++ [o]) ↔
      o = .insert key v t ∨ (¬ o.Replaces key ∧ LatestInsert key v t ops) := by
  constructor
  · rintro ⟨earlier, later, h, hl⟩
    rcases List.eq_nil_or_concat later with rfl | ⟨later, p, rfl⟩
    · obtain ⟨-, ho⟩ := List.append_inj' h rfl
      exact .inl (List.singleton_inj.1 ho)
    · rw [List.concat_eq_append] at h hl
      rw [← List.cons_append, ← List.append_assoc] at h
      obtain ⟨hops, ho⟩ := List.append_inj' h rfl
      rw [List.singleton_inj.1 ho]
      exact .inr ⟨hl p (by simp), earlier, later, hops, fun o ho => hl o (by simp [ho])⟩
  · rintro (rfl | ⟨ho, earlier, later, rfl, hl⟩)
    · exact ⟨ops, [], rfl, by simp⟩
    · refine ⟨earlier, later ++ [o], by simp, fun p hp => ?_⟩
      rcases List.mem_append.1 hp with hp | hp
      · exact hl p hp
      · rwa [List.mem_singleton.1 hp]

/-- The record holds what was inserted latest. -/
lemma get?_record_iff {ops : List (Op α)} {key : String} {s : Slot α} :
    (record ops).get? key = some s ↔ LatestInsert key s.value s.time ops := by
  induction ops using List.reverseRecOn with
  | nil => exact iff_of_false (by simp [record]) (not_latestInsert_nil _ _ _)
  | append_singleton ops o ih =>
    rw [record_snoc, latestInsert_snoc]
    cases o with
    | insert k v t =>
      rw [Op.record, KeyMap.get?_insert]
      by_cases hk : key = k
      · subst hk
        rw [if_pos rfl]
        obtain ⟨v', t'⟩ := s
        simp [Op.Replaces]
      · rw [if_neg hk, ih]
        simp [Op.Replaces, Ne.symm hk]
    | get k t => simp [Op.record, Op.Replaces, ih]
    | sweep t => simp [Op.record, Op.Replaces, ih]
    | reset => simp [Op.record, Op.Replaces]

lemma record_filter_isWrite (ops : List (Op α)) : record (ops.filter Op.isWrite) = record ops := by
  induction ops using List.reverseRecOn with
  | nil => rfl
  | append_singleton ops o ih =>
    rw [List.filter_append, record_snoc, ← ih]
    cases o with
    | insert k v t => exact record_snoc _ _
    | reset => exact record_snoc _ _
    | get k t => simp [Op.isWrite, Op.record]
    | sweep t => simp [Op.isWrite, Op.record]

/-! ### The simulation -/

/-- At a time, and ever after, the values agree with a map: they hold nothing that the map does
not, and lack only what has expired. -/
structure Agrees (e : Expiry) (now : Nat) (c : Expiring α) (m : KeyMap (Slot α)) : Prop where
  held : ∀ k s, c.slots.get? k = some s → m.get? k = some s
  lacking : ∀ k s, m.get? k = some s → c.slots.get? k = some s ∨ e.ttl < now - s.time

section

variable {e : Expiry} {now later : Nat} {c : Expiring α} {m : KeyMap (Slot α)}

lemma agrees_empty (e : Expiry) (now : Nat) : Agrees e now ({} : Expiring α) ∅ := by
  constructor
  · intro k s h
    simp at h
  · intro k s h
    simp at h

lemma Agrees.mono (h : Agrees e now c m) (hle : now ≤ later) : Agrees e later c m := by
  refine ⟨h.held, fun k s hs => (h.lacking k s hs).imp_right fun hexp => ?_⟩
  omega

/-- A sweep takes away only what has expired. -/
lemma get?_swept (e : Expiry) (now : Nat) (c : Expiring α) (k : String) :
    (c.swept e now).slots.get? k = c.slots.get? k ∨
      (c.swept e now).slots.get? k = (c.slots.get? k).filter (Slot.isAlive e now) := by
  unfold swept sweep
  split
  · exact .inl rfl
  · exact .inr (KeyMap.get?_filter c.slots (Slot.isAlive e now) k)

/-- What a sweep leaves was there before. -/
lemma get?_of_swept {k : String} {s : Slot α} (h : (c.swept e now).slots.get? k = some s) :
    c.slots.get? k = some s := by
  rcases get?_swept e now c k with hk | hk
  · rwa [← hk]
  · rw [hk] at h
    exact (Option.filter_eq_some_iff.1 h).1

lemma Agrees.swept (h : Agrees e now c m) : Agrees e now (c.swept e now) m := by
  constructor
  · intro k s hs
    exact h.held k s (get?_of_swept hs)
  · intro k s hs
    rcases h.lacking k s hs with hc | hexp
    · rcases get?_swept e now c k with hk | hk
      · exact .inl (hk ▸ hc)
      · by_cases halive : Slot.isAlive e now s = true
        · rw [hk, hc, Option.filter_some, if_pos halive]
          exact .inl rfl
        · simp only [Slot.isAlive, decide_eq_true_eq] at halive
          exact .inr (Nat.not_le.1 halive)
    · exact .inr hexp

lemma Agrees.insert (h : Agrees e now c m) (k : String) (v : α) :
    Agrees e now (c.insert e k v now) (m.insert k ⟨v, now⟩) := by
  have hs := h.swept
  unfold Expiring.insert
  constructor
  · intro k' s hk'
    rw [KeyMap.get?_insert] at hk' ⊢
    split
    · rwa [if_pos ‹_›] at hk'
    · rw [if_neg ‹_›] at hk'
      exact hs.held k' s hk'
  · intro k' s hk'
    rw [KeyMap.get?_insert] at hk' ⊢
    split
    · rw [if_pos ‹_›] at hk'
      exact .inl hk'
    · rw [if_neg ‹_›] at hk'
      exact hs.lacking k' s hk'

/-- One operation at a time that has come keeps the agreement. -/
lemma Agrees.step (h : Agrees e now c m) (o : Op α) (ht : ∀ t ∈ o.time?, t = now) :
    Agrees e now (o.run e c) (o.record m) := by
  cases o with
  | insert k v t =>
    obtain rfl := ht t rfl
    exact h.insert k v
  | get k t =>
    obtain rfl := ht t rfl
    exact h.swept
  | sweep t =>
    obtain rfl := ht t rfl
    exact h.swept
  | reset => exact agrees_empty e now

/-- What a key gives at a time is what the map holds for it, unless that has expired. -/
lemma Agrees.get (h : Agrees e now c m) (key : String) :
    (c.get e key now).1 = ((m.get? key).filter (Slot.isAlive e now)).map (·.value) := by
  have hs := h.swept
  have hget : (c.get e key now).1 =
      (((c.swept e now).slots.get? key).filter (Slot.isAlive e now)).map (·.value) := rfl
  rw [hget]
  congr 1
  cases hc : (c.swept e now).slots.get? key with
  | some s => rw [hs.held key s hc]
  | none =>
    cases hm : m.get? key with
    | none => rfl
    | some s =>
      rcases hs.lacking key s hm with hc' | hexp
      · rw [hc] at hc'
        cases hc'
      · have hdead : ¬ Slot.isAlive e now s = true := by
          rw [Slot.isAlive, decide_eq_true_eq]
          exact Nat.not_le.2 hexp
        rw [Option.filter_some, if_neg hdead]
        rfl

end

/-! ### Whole runs -/

lemma InOrder.of_snoc {ops : List (Op α)} {o : Op α} (h : InOrder (ops ++ [o])) : InOrder ops := by
  rw [InOrder, List.filterMap_append] at h
  exact (List.pairwise_append.1 h).1

lemma InOrder.le_last {ops : List (Op α)} {o p : Op α} {t now : Nat} (h : InOrder (ops ++ [o]))
    (ho : o.time? = some now) (hp : p ∈ ops) (ht : p.time? = some t) : t ≤ now := by
  rw [InOrder, List.filterMap_append] at h
  refine (List.pairwise_append.1 h).2.2 t (List.mem_filterMap.2 ⟨p, hp, ht⟩) now ?_
  exact List.mem_filterMap.2 ⟨o, List.mem_singleton_self o, ho⟩

/-- A run agrees with its record at any time that is not before its last one. -/
lemma run_agrees (e : Expiry) {ops : List (Op α)} (h : InOrder ops) {now : Nat}
    (hnow : ∀ o ∈ ops, ∀ t ∈ o.time?, t ≤ now) : Agrees e now (run e ops) (record ops) := by
  induction ops using List.reverseRecOn generalizing now with
  | nil => exact agrees_empty e now
  | append_singleton ops o ih =>
    rw [record_snoc, run, List.foldl_append]
    cases ho : o.time? with
    | some t =>
      have hlast : Agrees e t (run e ops) (record ops) :=
        ih h.of_snoc fun p hp t' ht' => h.le_last ho hp ht'
      refine Agrees.mono (hlast.step o fun t' ht' => ?_) (hnow o (by simp) t ho)
      exact Option.some.inj (ht'.symm.trans ho)
    | none =>
      have hops : Agrees e now (run e ops) (record ops) :=
        ih h.of_snoc fun p hp => hnow p (by simp [hp])
      refine hops.step o fun t ht => ?_
      rw [ho] at ht
      cases ht

lemma answer_eq (e : Expiry) {ops : List (Op α)} {key : String} {now : Nat}
    (h : InOrder (ops ++ [.get key now])) :
    answer e ops key now =
      (((record ops).get? key).filter (Slot.isAlive e now)).map (·.value) := by
  have hnow : ∀ o ∈ ops, ∀ t ∈ o.time?, t ≤ now := fun o ho t ht => h.le_last rfl ho ht
  exact (run_agrees e h.of_snoc hnow).get key

/-- **A key gives its latest insertion** since the last reset, as long as this is no older than the
time to live. Neither the interval of the sweeps nor what else is done to look or to sweep makes a
difference. -/
theorem answer_latest (e : Expiry) {before : List (Op α)} {key : String} {now : Nat}
    (h : InOrder (before ++ [.get key now])) :
    (∀ v, answer e before key now = some v ↔
      ∃ t, LatestInsert key v t before ∧ now - t ≤ e.ttl) ∧
    (answer e before key now = none ↔
      ∀ v t, LatestInsert key v t before → e.ttl < now - t) ∧
    ∀ (interval : Nat) (other : List (Op α)), InOrder (other ++ [.get key now]) →
      other.filter Op.isWrite = before.filter Op.isWrite →
      answer { e with interval } other key now = answer e before key now := by
  have hsome : ∀ v, answer e before key now = some v ↔
      ∃ t, LatestInsert key v t before ∧ now - t ≤ e.ttl := by
    intro v
    rw [answer_eq e h, Option.map_eq_some_iff]
    constructor
    · rintro ⟨s, hs, rfl⟩
      obtain ⟨hm, halive⟩ := Option.filter_eq_some_iff.1 hs
      exact ⟨s.time, get?_record_iff.1 hm, by simpa [Slot.isAlive] using halive⟩
    · rintro ⟨t, hlatest, halive⟩
      have hm : (record before).get? key = some ⟨v, t⟩ := get?_record_iff.2 hlatest
      refine ⟨⟨v, t⟩, Option.filter_eq_some_iff.2 ⟨hm, ?_⟩, rfl⟩
      simpa [Slot.isAlive] using halive
  refine ⟨hsome, ?_, ?_⟩
  · rw [Option.eq_none_iff_forall_ne_some]
    constructor
    · intro hnone v t hlatest
      by_contra halive
      exact hnone v ((hsome v).2 ⟨t, hlatest, Nat.not_lt.1 halive⟩)
    · intro hexp v hv
      obtain ⟨t, hlatest, halive⟩ := (hsome v).1 hv
      exact absurd halive (Nat.not_le.2 (hexp v t hlatest))
  · intro interval other hother hwrites
    rw [answer_eq { e with interval } hother, answer_eq e h, ← record_filter_isWrite other, hwrites,
      record_filter_isWrite]
    rfl

-- a value replaced before its first sweep, and read at the very end of its time to live
theorem answer_latest_replaced :
    InOrder ([.insert "a" 1 0, .sweep 10, .insert "a" 2 200, .get "b" 290] ++ [.get "a" 500]) ∧
      answer ⟨300, 60⟩ [.insert "a" 1 0, .sweep 10, .insert "a" 2 200, .get "b" 290] "a" 500 =
        some 2 ∧
      answer ⟨300, 0⟩ [.insert "a" 1 0, .insert "a" 2 200, .sweep 450, .sweep 499] "a" 500 =
        some 2 := by
  have horder : InOrder
      ([.insert "a" 1 0, .sweep 10, .insert "a" 2 200, .get "b" 290] ++ [.get "a" 500]) := by
    decide
  obtain ⟨hsome, -, hsame⟩ := answer_latest ⟨300, 60⟩ horder
  have hlatest : LatestInsert "a" 2 200
      [.insert "a" 1 0, .sweep 10, .insert "a" 2 200, .get "b" 290] :=
    ⟨[.insert "a" 1 0, .sweep 10], [.get "b" 290], rfl, by simp [Op.Replaces]⟩
  have hanswer := (hsome 2).2 ⟨200, hlatest, by decide⟩
  exact ⟨horder, hanswer, (hsame 0 _ (by decide) (by decide)).trans hanswer⟩

end Mender.Preview.Expiring
