import Mender.Proofs.Preview.Requests

/-!
A module can be fetched for a while after the preview that answered with it.

The results and the bundles of a service grow old apart from each other; but whoever is given a
result has its module registered on the way. So it is enough to follow the bundles against a
registry that is never swept.
-/

namespace Mender.Preview

open Session

/-! ### Registering -/

variable {s : Service} {m : Moments} {r : Request} {h : Holdings}

/-- The module that a preview registers: that of a result which is kept, or else a new one, once
the component has been compiled both ways. -/
def registered? (s : Service) (m : Moments) (r : Request) (h : Holdings) (σ : Session) :
    Option String :=
  if Reply.blank r.source then none
  else match cached? s m.asked r h with
    | some o => some o.code
    | none => (σ.answer (s.modules r)).toOption.map (·.1.compiled.code)

/-- **What a preview registers** is all that it does to the bundles. -/
lemma bundles_compileAt (σ : Session) (m : Moments) (r : Request) (h : Holdings) :
    (σ.answer (s.compileAt m r h)).2.bundles = (registered? s m r h σ).elim h.bundles fun code =>
      Bundles.registered s.expiry code m.registered h.bundles := by
  unfold registered?
  by_cases hb : Reply.blank r.source = true
  · rw [compileAt_of_blank hb, answer_pure, if_pos hb]
    rfl
  · rw [if_neg hb]
    cases ho : cached? s m.asked r h with
    | some o =>
      rw [compileAt_of_cached hb ho, answer_map, Bundles.answer_register]
      rfl
    | none =>
      rw [compileAt_of_uncached hb ho]
      cases hm : σ.answer (s.modules r) with
      | error e =>
        rw [makePreview_of_error s m r _ σ hm]
        rfl
      | ok x =>
        rw [(makePreview_of_modules s m r _ σ hm).1]
        rfl

/-- A preview that is new has the digest of its module, which it has registered. -/
lemma registered_of_new {σ : Session} {o : Output} (hnew : IsNew s m r h)
    (hok : (σ.answer (s.compileAt m r h)).1 = .ok o) :
    registered? s m r h σ = some o.code ∧ o.id = Bundles.idOf o.code := by
  rw [hnew.compileAt] at hok
  rw [registered?, if_neg hnew.given, hnew.unknown]
  cases hm : σ.answer (s.modules r) with
  | error e =>
    rw [makePreview_of_error s m r _ σ hm] at hok
    cases hok
  | ok x =>
    rw [(makePreview_of_modules s m r _ σ hm).1, previewOf] at hok
    generalize (Session.answer _ (pictureOf s r _ x.1 x.2)).1 = p at hok
    cases p with
    | error e => cases hok
    | ok p =>
      obtain rfl := Except.ok.inj hok
      exact ⟨rfl, rfl⟩

/-- Whoever is given a result has its module registered. -/
lemma registered_of_ok {σ : Session} {o : Output}
    (hok : (σ.answer (s.compileAt m r h)).1 = .ok o) : registered? s m r h σ = some o.code := by
  rcases isNew_or_cached hok with hnew | ⟨hb, ho⟩
  · exact (registered_of_new hnew hok).1
  · rw [registered?, if_neg hb, ho]

/-- **The id of an answered preview** is the digest of its module. -/
theorem id_of_answered {es : List Event} {σ : Session} {o : Output}
    (hok : (σ.answer (s.compileAt m r (heldAfter s es))).1 = .ok o) :
    o.id = Bundles.idOf o.code := by
  rcases isNew_or_cached hok with hnew | ⟨-, ho⟩
  · exact (registered_of_new hnew hok).2
  · obtain ⟨q, ⟨before, σ', m', later, -, hnew, hmade⟩, -⟩ := exists_madeIn_of_cached ho
    exact (registered_of_new hnew hmade).2

/-! ### The registry that is never swept -/

namespace Event

/-- What an event does to the registry. -/
def record (s : Service) (h : Holdings) (b : KeyMap (Slot Bundle)) : Event → KeyMap (Slot Bundle)
  | preview σ m r => (registered? s m r h σ).elim b fun code =>
      b.insert (Bundles.idOf code) ⟨⟨Bundles.idOf code, code⟩, m.registered⟩
  | fetch .. => b
  | resetBundles | reset => ∅

end Event

/-- The registry after some events. -/
def registry (s : Service) (es : List Event) : KeyMap (Slot Bundle) :=
  (es.foldl (fun (p : Holdings × KeyMap (Slot Bundle)) e => (e.run s p.1, e.record s p.1 p.2))
    ({}, ∅)).2

lemma registry_snoc (s : Service) (es : List Event) (e : Event) :
    registry s (es ++ [e]) = e.record s (heldAfter s es) (registry s es) := by
  have hheld : ∀ (p : Holdings × KeyMap (Slot Bundle)), (es.foldl (fun
      (p : Holdings × KeyMap (Slot Bundle)) e => (e.run s p.1, e.record s p.1 p.2)) p).1 =
      es.foldl (Event.run s) p.1 := by
    induction es with
    | nil => exact fun _ => rfl
    | cons e es ih => exact fun p => ih _
  rw [registry, List.foldl_append, List.foldl_cons, List.foldl_nil, hheld]
  rfl

open Expiring in
/-- The bundles agree with the registry at any time that is not before the last one. -/
lemma agrees_registry {es : List Event} (hin : Event.InOrder es) {now : Nat}
    (hnow : ∀ t ∈ es.flatMap Event.times, t ≤ now) :
    Agrees s.expiry now (heldAfter s es).bundles (registry s es) := by
  induction es using List.reverseRecOn generalizing now with
  | nil => exact agrees_empty _ _
  | append_singleton es e ih =>
    obtain ⟨hes, -, hle⟩ := Event.inOrder_append.1 hin
    have hlast {t : Nat} (ht : t ∈ e.times) :
        Agrees s.expiry t (heldAfter s es).bundles (registry s es) :=
      ih hes fun t' ht' => hle t' ht' t (by simpa using ht)
    rw [registry_snoc, heldAfter_snoc]
    cases e with
    | preview σ m r =>
      have hbefore := hlast (t := m.registered) (by simp [Event.times])
      have hregistered : m.registered ≤ now := hnow _ (by simp [Event.times])
      rw [Event.run, Event.record, bundles_compileAt]
      cases registered? s m r (heldAfter s es) σ with
      | none => exact hbefore.mono hregistered
      | some code => exact (hbefore.swept.insert _ _).mono hregistered
    | fetch σ t id =>
      have hbefore := hlast (t := t) (by simp [Event.times])
      rw [Event.run, Event.record, answer_bundle]
      exact hbefore.swept.swept.mono (hnow _ (by simp [Event.times]))
    | resetBundles => exact agrees_empty _ _
    | reset => exact agrees_empty _ _

/-- **What is fetched** is what the registry holds, unless it has expired. -/
lemma fetched_eq {es : List Event} {τ : Session} {now : Nat} {id : String}
    (hin : Event.InOrder (es ++ [.fetch τ now id])) :
    (τ.answer (s.bundle now id (heldAfter s es))).1 =
      (((registry s es).get? id).filter (Expiring.Slot.isAlive s.expiry now)).map (·.value) := by
  obtain ⟨hes, -, hle⟩ := Event.inOrder_append.1 hin
  have hagrees := agrees_registry (s := s) hes fun t ht =>
    hle t ht now (by simp [Event.times])
  rw [answer_bundle]
  exact hagrees.swept.get id

/-! ### Registered again -/

/-- After the events `es` one of `later` registers a module under an id at a time, and the bundles
are not dropped any more. -/
def RegisteredIn (s : Service) (es later : List Event) (id code : String) (t : Nat) : Prop :=
  ∃ before σ m r behind, later = before ++ .preview σ m r :: behind ∧
    (∀ e ∈ behind, ¬ e.IsReset) ∧ Bundles.idOf code = id ∧ m.registered = t ∧
    registered? s m r (heldAfter s (es ++ before)) σ = some code

section Later

variable {es later : List Event} {id : String}

lemma not_registeredIn_nil {code : String} {t : Nat} : ¬ RegisteredIn s es [] id code t := by
  rintro ⟨before, σ, m, r, behind, h, -⟩
  simp at h

lemma RegisteredIn.snoc {code : String} {t : Nat} (h : RegisteredIn s es later id code t) {e : Event}
    (he : ¬ e.IsReset) : RegisteredIn s es (later ++ [e]) id code t := by
  obtain ⟨before, σ, m, r, behind, rfl, hbehind, hreg⟩ := h
  refine ⟨before, σ, m, r, behind ++ [e], by simp, fun e' he' => ?_, hreg⟩
  rcases List.mem_append.1 he' with he' | he'
  · exact hbehind e' he'
  · rwa [List.mem_singleton.1 he']

lemma forall_not_isReset_snoc {e : Event} :
    (∀ e' ∈ later ++ [e], ¬ e'.IsReset) ↔ (∀ e' ∈ later, ¬ e'.IsReset) ∧ ¬ e.IsReset := by
  rw [List.forall_mem_append, List.forall_mem_singleton]

/-- What the registry holds was there before, or has been registered since. -/
lemma registry_append {slot : Slot Bundle} (h : (registry s (es ++ later)).get? id = some slot) :
    ((registry s es).get? id = some slot ∧ ∀ e ∈ later, ¬ e.IsReset) ∨
      slot.value.id = id ∧ RegisteredIn s es later id slot.value.code slot.time := by
  induction later using List.reverseRecOn with
  | nil =>
    rw [List.append_nil] at h
    exact .inl ⟨h, by simp⟩
  | append_singleton later e ih =>
    have hold (hold : (registry s (es ++ later)).get? id = some slot) (he : ¬ e.IsReset) :
        ((registry s es).get? id = some slot ∧ ∀ e' ∈ later ++ [e], ¬ e'.IsReset) ∨
          slot.value.id = id ∧ RegisteredIn s es (later ++ [e]) id slot.value.code slot.time :=
      (ih hold).imp (fun ⟨hs, hno⟩ => ⟨hs, forall_not_isReset_snoc.2 ⟨hno, he⟩⟩)
        fun ⟨hid, hreg⟩ => ⟨hid, hreg.snoc he⟩
    rw [← List.append_assoc, registry_snoc] at h
    cases e with
    | preview σ m r =>
      rw [Event.record] at h
      cases hreg : registered? s m r (heldAfter s (es ++ later)) σ with
      | none =>
        rw [hreg] at h
        exact hold h not_false
      | some code =>
        rw [hreg, Option.elim_some, KeyMap.get?_insert] at h
        split at h
        · next hid =>
          obtain rfl := Option.some.inj h
          exact .inr ⟨hid.symm, later, σ, m, r, [], rfl, by simp, hid.symm, rfl, hreg⟩
        · exact hold h not_false
    | fetch σ now id => exact hold h not_false
    | resetBundles =>
      rw [Event.record, KeyMap.get?_empty] at h
      cases h
    | reset =>
      rw [Event.record, KeyMap.get?_empty] at h
      cases h

/-- As long as the bundles are not dropped, the registry goes on holding something for an id. -/
lemma registry_keeps {slot : Slot Bundle} (h : (registry s es).get? id = some slot)
    (hno : ∀ e ∈ later, ¬ e.IsReset) : ∃ slot, (registry s (es ++ later)).get? id = some slot := by
  induction later using List.reverseRecOn with
  | nil => exact ⟨slot, by rwa [List.append_nil]⟩
  | append_singleton later e ih =>
    obtain ⟨hlater, he⟩ := forall_not_isReset_snoc.1 hno
    obtain ⟨slot', hslot⟩ := ih hlater
    rw [← List.append_assoc, registry_snoc]
    cases e with
    | preview σ m r =>
      rw [Event.record]
      cases registered? s m r (heldAfter s (es ++ later)) σ with
      | none => exact ⟨slot', hslot⟩
      | some code =>
        rw [Option.elim_some, KeyMap.get?_insert]
        split
        · exact ⟨_, rfl⟩
        · exact ⟨slot', hslot⟩
    | fetch σ now id => exact ⟨slot', hslot⟩
    | resetBundles => exact absurd trivial he
    | reset => exact absurd trivial he

end Later

/-! ### Fetching -/

/-- How a module can be fetched at a time. It was registered at the time `t` with the id `id` by the
last of the events `es`, and the events `later` have come after it. -/
structure Servable (s : Service) (es later : List Event) (id code : String) (t now : Nat)
    (fetched : Option Bundle) : Prop where
  /-- Within the time to live there is a module with this id. It is another one only if that was
  registered later, with the same digest. -/
  served : now - t ≤ s.expiry.ttl → (∀ e ∈ later, ¬ e.IsReset) →
    ∃ code', fetched = some ⟨id, code'⟩ ∧
      (code' = code ∨ ∃ t', RegisteredIn s es later id code' t')
  /-- After the time to live, or when the bundles have been dropped, what is fetched has been
  registered again. -/
  gone : s.expiry.ttl < now - t ∨ (∃ e ∈ later, e.IsReset) → ∀ b, fetched = some b →
    b.id = id ∧ ∃ t', now - t' ≤ s.expiry.ttl ∧ RegisteredIn s es later id b.code t'

/-- What has been registered is servable. -/
lemma servable_of_registered {es later : List Event} {σ τ : Session} {m : Moments} {r : Request}
    {code : String} {now : Nat} (hreg : registered? s m r (heldAfter s es) σ = some code)
    (hin : Event.InOrder (es ++ [.preview σ m r] ++ later ++ [.fetch τ now (Bundles.idOf code)])) :
    Servable s (es ++ [.preview σ m r]) later (Bundles.idOf code) code m.registered now
      (τ.answer (s.bundle now (Bundles.idOf code)
        (heldAfter s (es ++ [.preview σ m r] ++ later)))).1 := by
  have hfirst : (registry s (es ++ [.preview σ m r])).get? (Bundles.idOf code) =
      some ⟨⟨Bundles.idOf code, code⟩, m.registered⟩ := by
    rw [registry_snoc, Event.record, hreg, Option.elim_some, KeyMap.get?_insert_self]
  -- a later registration is younger, so it is alive while this one is
  have hyounger {code' : String} {t' : Nat} (hlater : RegisteredIn s (es ++ [.preview σ m r]) later
      (Bundles.idOf code) code' t') : m.registered ≤ t' := by
    obtain ⟨before, σ', m', r', behind, rfl, -, -, rfl, -⟩ := hlater
    have hrun := (Event.inOrder_append.1 hin).1
    have hold : Event.preview σ m r ∈ es ++ [.preview σ m r] := by simp
    have hnew : Event.preview σ' m' r' ∈ before ++ .preview σ' m' r' :: behind := by simp
    exact hrun.le hold hnew (by simp [Event.times]) (by simp [Event.times])
  rw [fetched_eq hin]
  constructor
  · intro halive hno
    obtain ⟨slot, hslot⟩ := registry_keeps hfirst hno
    rw [hslot]
    rcases registry_append hslot with ⟨hsame, -⟩ | ⟨hid, hlater⟩
    · obtain rfl := Option.some.inj (hfirst.symm.trans hsame)
      have halive : Expiring.Slot.isAlive s.expiry now
          (⟨⟨Bundles.idOf code, code⟩, m.registered⟩ : Slot Bundle) = true := decide_eq_true halive
      exact ⟨code, by rw [Option.filter_some, if_pos halive, Option.map_some], .inl rfl⟩
    · have halive : Expiring.Slot.isAlive s.expiry now slot = true := by
        have := hyounger hlater
        exact decide_eq_true (by omega)
      refine ⟨slot.value.code, ?_, .inr ⟨slot.time, hlater⟩⟩
      rw [Option.filter_some, if_pos halive, Option.map_some, ← hid]
  · intro hgone b hb
    obtain ⟨slot, hslot, rfl⟩ := Option.map_eq_some_iff.1 hb
    obtain ⟨hslot, halive⟩ := Option.filter_eq_some_iff.1 hslot
    have halive : now - slot.time ≤ s.expiry.ttl := of_decide_eq_true halive
    rcases registry_append hslot with ⟨hsame, hno⟩ | ⟨hid, hlater⟩
    · obtain rfl := Option.some.inj (hfirst.symm.trans hsame)
      rcases hgone with hdead | ⟨e, he, hreset⟩
      · exact absurd halive (Nat.not_le.2 hdead)
      · exact absurd hreset (hno e he)
    · exact ⟨hid, slot.time, halive, hlater⟩

/-- A service that compiles everything to itself and shows the source. Modules are served for 300, and
results are kept as long. -/
def briefService : Service where
  compiler := fun _ _ _ source => .ok { code := source }
  expiry := ⟨300, 60⟩
  executes := false

def smallRequest : Request := { source := "<p>1</p>" }

/-- The first preview takes from 0 to 20. -/
def firstPreview : Event := .preview {} ⟨0, 5, 20⟩ smallRequest

/-- It is asked for again. -/
def secondMoments : Moments := ⟨310, 311, 312⟩

end Mender.Preview
