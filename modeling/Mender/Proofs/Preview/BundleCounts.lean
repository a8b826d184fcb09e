import Mender.Proofs.Preview.Requests

/-!
A registry of bundles from its start: what is counted of its coming and going.

Only the first of the two sweeps of an access is counted. The second has nothing left to take away:
the first was either held back, and so is the second, or it has left what is alive at that very time.
So every bundle that is stored anew is either still there or was counted when it went.
-/

namespace Mender.Preview

open Session

/-! ### Sweeps -/

namespace Expiring

variable {α : Type} {e : Expiry} {now : Nat} {c : Expiring α}

/-- The time of a sweep, if it runs. -/
def ran (e : Expiry) (now : Nat) (c : Expiring α) : List Nat :=
  if (c.sweep e now).1.isSome then [now] else []

lemma prune_prune (m : KeyMap (Slot α)) : prune e now (prune e now m) = prune e now m := by
  simp [prune, KeyMap.filter, List.filter_filter]

/-- **A second sweep** at the same time leaves all as it is. -/
lemma swept_swept : (c.swept e now).swept e now = c.swept e now := by
  by_cases h : c.isThrottled e now = true
  · have hsame : c.swept e now = c := by rw [swept, sweep, if_pos h]
    rw [hsame, hsame]
  · have hkept : c.swept e now = ⟨prune e now c.slots, some now⟩ := by rw [swept, sweep, if_neg h]
    rw [hkept, swept, sweep, prune_prune]
    split <;> rfl

/-- What a sweep says it removed is what is missing after it. -/
lemma size_swept : (c.swept e now).size + (c.sweep e now).1.getD 0 = c.size := by
  rw [swept, sweep]
  split
  · rfl
  · have hle : (prune e now c.slots).size ≤ c.slots.size := List.length_filter_le _ _
    exact Nat.add_sub_of_le hle

lemma ran_eq_nil_or (e : Expiry) (now : Nat) (c : Expiring α) :
    ran e now c = [] ∧ (c.swept e now).lastSweep = c.lastSweep ∨
    ran e now c = [now] ∧ (c.swept e now).lastSweep = some now ∧
      ∀ last ∈ c.lastSweep, e.interval ≤ now - last := by
  by_cases h : c.isThrottled e now = true
  · refine .inl ⟨?_, ?_⟩
    · rw [ran, sweep, if_pos h]
      rfl
    · rw [swept, sweep, if_pos h]
  · refine .inr ⟨?_, ?_, fun last hlast => ?_⟩
    · rw [ran, sweep, if_neg h]
      rfl
    · rw [swept, sweep, if_neg h]
    · rw [isThrottled, hlast] at h
      simpa using h

end Expiring

namespace Bundles

/-! ### What is asked of a registry -/

/-- What a registry of bundles is asked, and when. -/
inductive Ask
  | register (code : String) (time : Nat)
  | get (id : String) (time : Nat)
  | sweep (time : Nat)
  deriving DecidableEq

namespace Ask

variable (e : Expiry) (b : Bundles)

def time : Ask → Nat
  | register _ t | get _ t | sweep t => t

def isRegistration : Ask → Bool
  | register .. => true
  | get .. | sweep _ => false

def run : Ask → Run Bundles
  | register code t => (·.2) <$> Bundles.register e code t b
  | get id t => (·.2) <$> Bundles.get e id t b
  | sweep t => (·.2) <$> Bundles.sweep e t b

/-- A registration of a module that is not stored when its sweep is done. -/
def isNew : Ask → Bool
  | register code t => !(b.swept e t).slots.contains (idOf code)
  | get .. | sweep _ => false

/-- The times of the sweeps that run; an access sweeps twice. -/
def sweeps : Ask → List Nat
  | register _ t | get _ t => Expiring.ran e t b ++ Expiring.ran e t (b.swept e t)
  | sweep t => Expiring.ran e t b

end Ask

/-- The bundles after a row of requests. -/
def runAll (e : Expiry) : Bundles → List Ask → Run Bundles
  | b, [] => return b
  | b, a :: as => do runAll e (← a.run e b) as

/-- How many registrations find their module not stored. -/
def newcomers (e : Expiry) : Session → Bundles → List Ask → Nat
  | _, _, [] => 0
  | σ, b, a :: as =>
    (if a.isNew e b then 1 else 0) + newcomers e (σ.after (a.run e b)) (σ.answer (a.run e b)) as

/-- The times of all sweeps that run. -/
def sweepTimes (e : Expiry) : Session → Bundles → List Ask → List Nat
  | _, _, [] => []
  | σ, b, a :: as =>
    a.sweeps e b ++ sweepTimes e (σ.after (a.run e b)) (σ.answer (a.run e b)) as

variable (e : Expiry) (σ : Session) (b : Bundles)

lemma after_sweep (now : Nat) : (σ.after (sweep e now b)).metrics =
    { σ.metrics with
      bundlesExpired := σ.metrics.bundlesExpired + (Expiring.sweep e now b).1.getD 0 } := by
  unfold sweep
  rw [after_bind, after_pure, after_count]

/-! ### What is counted -/

/-- Between two moments some modules were stored anew and some registrations made. -/
structure Tally (σ σ' : Session) (b b' : Bundles) (new registrations : Nat) : Prop where
  risen : σ.metrics.bundlesExpired ≤ σ'.metrics.bundlesExpired
  kept : σ'.metrics.bundlesExpired + b'.size = σ.metrics.bundlesExpired + b.size + new
  registered : σ'.metrics.bundlesRegistered = σ.metrics.bundlesRegistered + registrations

lemma Tally.trans {σ σ' σ'' : Session} {b b' b'' : Bundles} {m m' n n' : Nat}
    (h : Tally σ σ' b b' m n) (h' : Tally σ' σ'' b' b'' m' n') :
    Tally σ σ'' b b'' (m + m') (n + n') where
  risen := Nat.le_trans h.risen h'.risen
  kept := by
    rw [h'.kept, h.kept, Nat.add_assoc _ m]
  registered := by rw [h'.registered, h.registered, Nat.add_assoc]

/-- A sweep counts what it removes. -/
lemma tally_sweep (now : Nat) : Tally σ (σ.after (sweep e now b)) b (b.swept e now) 0 0 where
  risen := by
    rw [after_sweep]
    exact Nat.le_add_right _ _
  kept := by
    have hsize : (b.swept e now).size + (Expiring.sweep e now b).1.getD 0 = b.size :=
      Expiring.size_swept
    rw [after_sweep]
    dsimp only
    omega
  registered := by rw [after_sweep]; rfl

/-- Storing a module, which is counted as a registration. -/
lemma tally_register (code : String) (now : Nat) :
    Tally σ (σ.after (register e code now b)) b (registered e code now b)
      (if (Ask.register code now).isNew e b then 1 else 0) 1 := by
  have hafter : (σ.after (register e code now b)).metrics =
      { (σ.after (sweep e now b)).metrics with
        bundlesRegistered := (σ.after (sweep e now b)).metrics.bundlesRegistered + 1 } := by
    rw [register, after_bind, answer_sweep, after_bind, after_count, after_pure]
  have hsize : (registered e code now b).size =
      (b.swept e now).size + if (Ask.register code now).isNew e b then 1 else 0 := by
    rw [registered, Expiring.insert, Expiring.swept_swept, Expiring.size, KeyMap.size_insert, Ask.isNew]
    cases (b.swept e now).slots.contains (idOf code) <;> rfl
  have h := tally_sweep e σ b now
  refine ⟨?_, ?_, ?_⟩
  · rw [hafter]
    exact h.risen
  · rw [hafter, hsize, ← Nat.add_assoc, h.kept, Nat.add_zero]
  · rw [hafter, h.registered]

/-- **One request** removes no bundle uncounted. -/
lemma tally_run (a : Ask) :
    Tally σ (σ.after (a.run e b)) b (σ.answer (a.run e b)) (if a.isNew e b then 1 else 0)
      (if a.isRegistration then 1 else 0) := by
  cases a with
  | register code t =>
    rw [Ask.run, after_map, answer_map, answer_register]
    exact tally_register e σ b code t
  | get id t =>
    have hafter : σ.after (get e id t b) = σ.after (sweep e t b) := by
      rw [get, after_bind, after_pure]
    rw [Ask.run, after_map, answer_map, answer_get, Expiring.get, Expiring.swept_swept, hafter]
    exact tally_sweep e σ b t
  | sweep t =>
    rw [Ask.run, after_map, answer_map, answer_sweep]
    exact tally_sweep e σ b t

/-- **A row of requests** removes no bundle uncounted. -/
lemma tally_runAll (asks : List Ask) :
    Tally σ (σ.after (runAll e b asks)) b (σ.answer (runAll e b asks)) (newcomers e σ b asks)
      (asks.countP Ask.isRegistration) := by
  induction asks generalizing σ b with
  | nil =>
    rw [runAll, after_pure, answer_pure]
    exact ⟨Nat.le_refl _, rfl, rfl⟩
  | cons a as ih =>
    rw [runAll, after_bind, answer_bind, newcomers, List.countP_cons, Nat.add_comm (as.countP _)]
    exact (tally_run e σ b a).trans (ih _ _)

/-! ### The time between two sweeps -/

/-- Each is at least the sweep interval before all that come behind it. -/
def Spaced (e : Expiry) (times : List Nat) : Prop :=
  times.Pairwise fun s t => s + e.interval ≤ t

/-- The sweeps so far, the last of which is remembered. -/
structure Swept (e : Expiry) (b : Bundles) (times : List Nat) : Prop where
  last : b.lastSweep = times.getLast?
  spaced : Spaced e times

variable {e b} {times : List Nat}

lemma Swept.le_last (h : Swept e b times) {s last : Nat} (hs : s ∈ times)
    (hlast : b.lastSweep = some last) : s ≤ last := by
  obtain ⟨before, rfl⟩ := List.getLast?_eq_some_iff.1 (h.last.symm.trans hlast)
  rcases List.mem_append.1 hs with hs | hs
  · have := (List.pairwise_append.1 h.spaced).2.2 s hs last (List.mem_singleton_self _)
    omega
  · exact Nat.le_of_eq (List.mem_singleton.1 hs)

/-- One sweep at a time that has come. -/
lemma Swept.sweep (h : Swept e b times) (now : Nat) (hnow : ∀ t ∈ times, t ≤ now) :
    Swept e (b.swept e now) (times ++ Expiring.ran e now b) ∧
      ∀ t ∈ times ++ Expiring.ran e now b, t ≤ now := by
  rcases Expiring.ran_eq_nil_or e now b with ⟨hran, hlast⟩ | ⟨hran, hlast, hlong⟩
  · rw [hran, List.append_nil]
    exact ⟨⟨hlast.trans h.last, h.spaced⟩, hnow⟩
  · rw [hran]
    refine ⟨⟨by simp [hlast], ?_⟩, ?_⟩
    · refine List.pairwise_append.2 ⟨h.spaced, List.pairwise_singleton _ _, fun s hs t ht => ?_⟩
      obtain rfl := List.mem_singleton.1 ht
      obtain ⟨last, hl⟩ := Option.ne_none_iff_exists'.1
        (mt List.getLast?_eq_none_iff.1 (List.ne_nil_of_mem hs))
      have hlb : b.lastSweep = some last := h.last.trans hl
      have hs' : s ≤ last := h.le_last hs hlb
      have hlast' : last ≤ t := hnow last (List.mem_of_getLast? hl)
      have := hlong last hlb
      omega
    · simpa [or_imp, forall_and] using hnow

/-- One request at a time that has come. -/
lemma Swept.run (h : Swept e b times) (a : Ask) (hnow : ∀ t ∈ times, t ≤ a.time) :
    Swept e (σ.answer (a.run e b)) (times ++ a.sweeps e b) ∧
      ∀ t ∈ times ++ a.sweeps e b, t ≤ a.time := by
  cases a with
  | register code t =>
    obtain ⟨h₁, hnow₁⟩ := h.sweep t hnow
    obtain ⟨h₂, hnow₂⟩ := h₁.sweep t hnow₁
    rw [Ask.run, Session.answer_map, answer_register, Ask.sweeps, ← List.append_assoc]
    exact ⟨⟨h₂.last, h₂.spaced⟩, hnow₂⟩
  | get id t =>
    obtain ⟨h₁, hnow₁⟩ := h.sweep t hnow
    obtain ⟨h₂, hnow₂⟩ := h₁.sweep t hnow₁
    rw [Ask.run, Session.answer_map, answer_get, Ask.sweeps, ← List.append_assoc]
    exact ⟨⟨h₂.last, h₂.spaced⟩, hnow₂⟩
  | sweep t =>
    rw [Ask.run, Session.answer_map, answer_sweep]
    exact h.sweep t hnow

/-- **A row of requests** whose times never decrease keeps its sweeps apart. -/
lemma Swept.spaced_sweepTimes {asks : List Ask} (horder : (asks.map Ask.time).Pairwise (· ≤ ·))
    (h : Swept e b times) (hnow : ∀ t ∈ times, ∀ a ∈ asks, t ≤ a.time) :
    Spaced e (times ++ sweepTimes e σ b asks) := by
  induction asks generalizing σ b times with
  | nil => simpa [sweepTimes] using h.spaced
  | cons a as ih =>
    obtain ⟨ha, horder⟩ := List.pairwise_cons.1 horder
    obtain ⟨h', hnow'⟩ := h.run σ a fun t ht => hnow t ht a List.mem_cons_self
    rw [sweepTimes, ← List.append_assoc]
    refine ih _ horder h' fun t ht a' ha' => ?_
    exact Nat.le_trans (hnow' t ht) (ha _ (List.mem_map_of_mem ha'))

/-- **No bundle is removed uncounted.** After any requests, in any order of times, the registrations
that found their module not stored are as many as the bundles that are stored now and those that were
counted as expired; and all registrations are counted. If the times never decrease, the sweeps that ran
are at least the sweep interval apart. -/
theorem bundles_accounted (e : Expiry) (σ : Session) (asks : List Ask) :
    let b := σ.answer (runAll e {} asks)
    let before := σ.metrics
    let after := (σ.after (runAll e {} asks)).metrics
    before.bundlesExpired ≤ after.bundlesExpired ∧
      newcomers e σ {} asks = b.size + (after.bundlesExpired - before.bundlesExpired) ∧
      after.bundlesRegistered = before.bundlesRegistered + asks.countP Ask.isRegistration ∧
      ((asks.map Ask.time).Pairwise (· ≤ ·) → Spaced e (sweepTimes e σ {} asks)) := by
  have h := tally_runAll e σ {} asks
  have hkept := h.kept
  have hempty : Expiring.size ({} : Bundles) = 0 := rfl
  refine ⟨h.risen, ?_, h.registered, fun horder => ?_⟩
  · have := h.risen
    omega
  · have hstart : Swept e {} [] := ⟨rfl, .nil⟩
    exact hstart.spaced_sweepTimes σ horder (List.forall_mem_nil _)

/-- A module that is registered twice, goes, and is registered once more. -/
def sampleAsks : List Ask :=
  [.register "a" 0, .register "a" 3, .sweep 5, .get "b" 20, .register "a" 21]

theorem bundles_accounted_sample :
    (sampleAsks.map Ask.time).Pairwise (· ≤ ·) ∧
      sweepTimes ⟨10, 5⟩ {} {} sampleAsks = [0, 5, 20] ∧ newcomers ⟨10, 5⟩ {} {} sampleAsks = 2 ∧
      Spaced ⟨10, 5⟩ (sweepTimes ⟨10, 5⟩ {} {} sampleAsks) := by
  have horder : (sampleAsks.map Ask.time).Pairwise (· ≤ ·) := by decide
  obtain ⟨-, -, -, hspaced⟩ := bundles_accounted ⟨10, 5⟩ {} sampleAsks
  exact ⟨horder, by decide +kernel, by decide +kernel, hspaced horder⟩

end Bundles

end Mender.Preview
