/-!
Maps from names to values, ordered by name.

The entries stand in strictly increasing order of their keys, by code point, so two maps
with the same look-ups are the same map.
-/

namespace Mender

/-- Puts a value under a key, in place of the one the key had. -/
def insertEntry {α : Type} (k : String) (v : α) : List (String × α) → List (String × α)
  | [] => [(k, v)]
  | e :: r =>
    if k < e.1 then (k, v) :: e :: r
    else if k = e.1 then (k, v) :: r
    else e :: insertEntry k v r

theorem mem_insertEntry {α : Type} {k : String} {v : α} {e : String × α}
    {r : List (String × α)} (h : e ∈ insertEntry k v r) : e = (k, v) ∨ e ∈ r := by
  induction r with
  | nil => simpa [insertEntry] using h
  | cons d r ih =>
    simp only [insertEntry] at h
    split at h
    · simpa using h
    · split at h
      · rcases List.mem_cons.1 h with h | h
        · exact .inl h
        · exact .inr (List.mem_cons_of_mem _ h)
      · rcases List.mem_cons.1 h with h | h
        · exact .inr (h ▸ List.mem_cons_self)
        · exact (ih h).imp_right (List.mem_cons_of_mem _)

/-- Strictly increasing keys. -/
def KeysIncrease {α : Type} (r : List (String × α)) : Prop :=
  r.Pairwise fun a b => a.1 < b.1

theorem KeysIncrease.insertEntry {α : Type} (k : String) (v : α) {r : List (String × α)}
    (h : KeysIncrease r) : KeysIncrease (insertEntry k v r) := by
  induction r with
  | nil => simp [Mender.insertEntry, KeysIncrease]
  | cons e r ih =>
    have he : ∀ d ∈ r, e.1 < d.1 := (List.pairwise_cons.1 h).1
    have hr : KeysIncrease r := (List.pairwise_cons.1 h).2
    simp only [Mender.insertEntry]
    split
    · next hk =>
      refine List.pairwise_cons.2 ⟨fun d hd => ?_, h⟩
      rcases List.mem_cons.1 hd with rfl | hd
      · exact hk
      · exact String.lt_trans hk (he d hd)
    · next hk =>
      split
      · next hk' => exact List.pairwise_cons.2 ⟨fun d hd => hk' ▸ he d hd, hr⟩
      · next hk' =>
        refine List.pairwise_cons.2 ⟨fun d hd => ?_, ih hr⟩
        rcases mem_insertEntry hd with rfl | hd
        · exact String.not_le.1 fun hle => hk' (String.le_antisymm hle (String.not_lt.1 hk))
        · exact he d hd

structure KeyMap (α : Type) where
  entries : List (String × α)
  increase : KeysIncrease entries

namespace KeyMap

variable {α β : Type}

def empty : KeyMap α := ⟨[], List.Pairwise.nil⟩

instance : EmptyCollection (KeyMap α) := ⟨empty⟩

instance : Inhabited (KeyMap α) := ⟨empty⟩

instance [DecidableEq α] : DecidableEq (KeyMap α) := fun a b =>
  decidable_of_iff (a.entries = b.entries) (by cases a; cases b; simp)

def insert (m : KeyMap α) (k : String) (v : α) : KeyMap α :=
  ⟨insertEntry k v m.entries, m.increase.insertEntry k v⟩

def get? (m : KeyMap α) (k : String) : Option α := m.entries.lookup k

def contains (m : KeyMap α) (k : String) : Bool := (m.get? k).isSome

def keys (m : KeyMap α) : List String := m.entries.map (·.1)

def size (m : KeyMap α) : Nat := m.entries.length

/-- Later entries win over earlier ones with the same key. -/
def ofList (l : List (String × α)) : KeyMap α := l.foldl (fun m e => m.insert e.1 e.2) ∅

/-- The entries of the second map win. -/
def union (m n : KeyMap α) : KeyMap α := n.entries.foldl (fun m e => m.insert e.1 e.2) m

def map (f : α → β) (m : KeyMap α) : KeyMap β :=
  ⟨m.entries.map fun e => (e.1, f e.2), by
    simpa [KeysIncrease, List.pairwise_map] using m.increase⟩

/-- The entries whose values satisfy `p`. -/
def filter (p : α → Bool) (m : KeyMap α) : KeyMap α :=
  ⟨m.entries.filter fun e => p e.2, m.increase.filter _⟩

end KeyMap

end Mender
