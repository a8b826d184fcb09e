import Mender.Proofs.Repair.Writes
import Mender.Proofs.Store
import Mender.Proofs.Turns

/-!
A repair in turns.

Each turn calls the store once at most, and their number is limited by that of the passes. Between two
turns the store may be called by others.
-/

namespace Mender

open Session

/-! ### Turns of a repair -/

namespace Repair

section Turns

variable (w : Workshop) (r : Request) {α : Type}

/-- The passes, one a turn. -/
def passTurns (next : Progress → Turns α) : (left : Nat) → Progress → Turns α
  | 0, p => next p
  | left + 1, p =>
    if p.current.errors = 0 then next p
    else .turn (onePass w r.filename (passBudget w r) p) (passTurns next left)

/-- The writes, one a turn. -/
def writeTurns (o : Outcome) (next : Turns α) : Turns α :=
  match keptAt w r with
  | none => next
  | some (fails, key) =>
    .turn (changeStore fails (.upsertFile o.fixedCode) key) fun _ =>
      .turn (changeStore fails (.saveMemory o.memory) key) fun _ =>
        .turn (changeStore fails (.appendAudit (auditOf key o)) key) fun _ => next

/-- The end of a repair, after its passes. -/
def endTurns (given : String) (initial : Checked) (p : Progress) : Turns (Except Fault Outcome) :=
  .turn (conclude w r given initial p) fun v =>
    writeTurns w r (outcomeOf p v) (.done (.ok (outcomeOf p v)))

/-- A repair whose source is known. -/
def sourceTurns (given : String) : Turns (Except Fault Outcome) :=
  .turn (opening w r) fun loaded => .turn (checkText w r.filename given false) fun initial =>
    passTurns w r (endTurns w r given initial) (passBudget w r)
      { current := initial, memory := .ofList (loaded ++ r.memory) }

def repairTurns : Turns (Except Fault Outcome) :=
  if Reply.blank r.filename then .done (.error (.invalidRequest "filename is required"))
  else .turn (resolveSource w r) fun
    | .error e => .done (.error e)
    | .ok given => sourceTurns w r given

variable {w r}

lemma whole_passTurns (next : Progress → Turns α) (left : Nat) (p : Progress) :
    (passTurns w r next left p).whole =
      passes w r.filename (passBudget w r) left p >>= fun q => (next q).whole := by
  induction left generalizing p with
  | zero => rw [passTurns, passes, pure_bind]
  | succ left ih =>
    rw [passTurns, passes]
    split
    · rw [pure_bind]
    · rw [Turns.whole, bind_assoc]
      exact bind_congr ih

lemma whole_writeTurns (o : Outcome) (next : Turns α) :
    (writeTurns w r o next).whole = keep w r o >>= fun _ => next.whole := by
  unfold writeTurns keep
  cases keptAt w r with
  | none => rw [pure_bind]
  | some k => 
    obtain ⟨fails, key⟩ := k
    simp only [Turns.whole, persist, bind_assoc]

variable (w r) in
/-- Without a break the turns are the repair. -/
theorem whole_repairTurns : (repairTurns w r).whole = repair w r := by
  have hsource : ∀ given, (sourceTurns w r given).whole = .ok <$> repairSource w r given := by
    intro given
    unfold sourceTurns repairSource
    simp only [endTurns, Turns.whole, whole_passTurns, whole_writeTurns, map_bind, map_pure]
  unfold repairTurns repair
  split
  · rfl
  · refine bind_congr fun x => ?_
    cases x with
    | error e => rfl
    | ok given => exact hsource given

variable {P : ∀ {β : Type}, Run β → Prop}

lemma each_repairTurns (hsource : P (resolveSource w r)) (hopening : P (opening w r))
    (hcheck : ∀ given, P (checkText w r.filename given false))
    (hpass : ∀ p, P (onePass w r.filename (passBudget w r) p))
    (hconclude : ∀ given initial p, P (conclude w r given initial p))
    (hchange : ∀ fails key q, keptAt w r = some (fails, key) → q.About key →
      P (changeStore fails q key)) : (repairTurns w r).Each P := by
  have hpasses : ∀ next : Progress → Turns (Except Fault Outcome), (∀ p, (next p).Each P) →
      ∀ left p, (passTurns w r next left p).Each P := by
    intro next hnext left
    induction left with
    | zero => exact hnext
    | succ left ih =>
      intro p
      rw [passTurns]
      split
      · exact hnext p
      · exact ⟨hpass p, ih⟩
  have hwrites : ∀ o, (writeTurns w r o (.done (.ok o) : Turns (Except Fault Outcome))).Each P := by
    intro o
    unfold writeTurns
    cases hkept : keptAt w r with
    | none => trivial
    | some k =>
      exact ⟨hchange _ _ _ hkept trivial, fun _ => ⟨hchange _ _ _ hkept trivial,
        fun _ => ⟨hchange _ _ _ hkept rfl, fun _ => trivial⟩⟩⟩
  unfold repairTurns
  split
  · trivial
  · refine ⟨hsource, fun x => ?_⟩
    cases x with
    | error e => trivial
    | ok given => exact ⟨hopening, fun loaded => ⟨hcheck given, fun initial =>
        hpasses (endTurns w r given initial)
          (fun p => ⟨hconclude given initial p, fun v => hwrites _⟩) _ _⟩⟩

variable (w r) in
/-- A repair needs a turn for each pass that it may have, and seven more. -/
lemma ends_repairTurns : (repairTurns w r).EndsWithin (passBudget w r + 7) := by
  have hpasses : ∀ next : Progress → Turns (Except Fault Outcome), (∀ p, (next p).EndsWithin 4) →
      ∀ left p, (passTurns w r next left p).EndsWithin (left + 4) := by
    intro next hnext left
    induction left with
    | zero => exact fun p => (hnext p).mono (Nat.le_add_left 4 0)
    | succ left ih =>
      intro p
      rw [passTurns, Nat.succ_add]
      split
      · exact (hnext p).mono (by omega)
      · exact ih
  have hwrites : ∀ o, (writeTurns w r o (.done (.ok o) : Turns (Except Fault Outcome))).EndsWithin 3 := by
    intro o
    unfold writeTurns
    split
    · trivial
    · exact fun _ _ _ => trivial
  unfold repairTurns
  split
  · trivial
  · intro x
    cases x with
    | error e => trivial
    | ok given =>
      intro loaded initial
      exact hpasses (endTurns w r given initial) (fun p v => hwrites _) _ _

end Turns

/-! ### The store in a turn -/

/-- The store is called once, if at all. -/
def CallsStoreOnce {α : Type} (m : Run α) : Prop :=
  ∀ s : Session, ∃ l, (s.after m).calls = s.calls ++ l ∧ callsTo .store l ≤ 1

section Once

variable {w : Workshop} {r : Request} {α : Type} {m : Run α}

lemma callsStoreOnce_of_spares (h : Spares m) : CallsStoreOnce m := by
  intro s
  obtain ⟨l, hl, hspares⟩ := (h s).calls
  exact ⟨l, hl, by rw [callsTo_eq_zero hspares]; exact Nat.zero_le 1⟩

lemma callsStoreOnce_of_calls (h : ∀ s : Session, (s.after m).calls = s.calls ∨
    ∃ q key, (s.after m).calls = s.calls ++ [.store q key]) : CallsStoreOnce m := by
  intro s
  rcases h s with h | ⟨q, key, h⟩
  · exact ⟨[], by rw [h, List.append_nil], Nat.zero_le 1⟩
  · exact ⟨[.store q key], h, Nat.le_refl 1⟩

lemma callsStoreOnce_resolveSource : CallsStoreOnce (resolveSource w r) := by
  refine callsStoreOnce_of_calls fun s => ?_
  unfold resolveSource
  split
  · exact .inl (by rw [after_pure])
  · exact .inl (by rw [after_pure])
  · exact .inl (by rw [after_pure])
  · next p fails _ _ _ =>
    refine .inr ⟨.readFile, ⟨p, r.filename⟩, ?_⟩
    rw [← calls_callStore fails, after_bind]
    split
    · rw [after_pure]
    · rw [after_bind, after_get]
      split <;> rw [after_pure]

lemma callsStoreOnce_opening : CallsStoreOnce (opening w r) := by
  refine callsStoreOnce_of_calls fun s => ?_
  rw [opening, after_bind, after_count]
  cases keptAt w r with
  | none => exact .inl (by rw [loadMemory, after_pure])
  | some k => exact .inr ⟨.loadMemory, k.2, by rw [after_loadMemory, after_note]⟩

lemma each_callsStoreOnce : (repairTurns w r).Each CallsStoreOnce :=
  each_repairTurns callsStoreOnce_resolveSource callsStoreOnce_opening
    (fun _ => callsStoreOnce_of_spares (spares_of_tools (makes_checkText w _ _ _)))
    (fun p => callsStoreOnce_of_spares (spares_onePass w _ _ p))
    (fun given initial p => callsStoreOnce_of_spares (spares_conclude w r given initial p))
    fun _ _ _ _ _ => callsStoreOnce_of_calls fun _ => .inr ⟨_, _, calls_changeStore _ _ _⟩

end Once

end Repair

end Mender
