import Mathlib.Data.List.Induction
import Mender.Preview.Service
import Mender.Proofs.Preview.Expiring
import Mender.Proofs.Session

/-!
What a service does with a request, and what it holds after many.

A blank source is refused, and a result that is kept is given once more. Otherwise a preview is made:
when both modules have been compiled, the interactive one is registered, and a picture of the static
one completes the preview, which is kept.

The clock may go on while a preview is made, so a preview has three times of its own. Whatever a
service holds was put there by one of the previews before.
-/

namespace Mender

lemma Digest.hex_inj {d d' : Digest} : d.hex = d'.hex ↔ d = d' := by
  cases d
  cases d'
  simp

namespace Preview

open Session

/-! ### Bundles -/

namespace Bundles

/-- The bundles with one more module. -/
def registered (e : Expiry) (code : String) (now : Nat) (b : Bundles) : Bundles :=
  (b.swept e now).insert e (idOf code) ⟨idOf code, code⟩ now

section

variable (e : Expiry) (now : Nat) (b : Bundles) (σ : Session)

lemma answer_sweep : σ.answer (sweep e now b) = Expiring.sweep e now b := by
  unfold sweep
  rw [answer_bind, answer_pure]

lemma answer_register (code : String) :
    σ.answer (register e code now b) = (idOf code, registered e code now b) := by
  unfold register
  rw [answer_bind, answer_sweep, answer_bind, answer_pure]
  rfl

lemma answer_get (id : String) : σ.answer (get e id now b) = (b.swept e now).get e id now := by
  unfold get
  rw [answer_bind, answer_sweep, answer_pure]
  rfl

end

end Bundles

/-- Only the bundles are concerned when one of them is fetched. -/
lemma answer_bundle (s : Service) (now : Nat) (id : String) (h : Holdings) (σ : Session) :
    let b := (h.bundles.swept s.expiry now).get s.expiry id now
    σ.answer (s.bundle now id h) = (b.1, { h with bundles := b.2 }) := by
  unfold Service.bundle
  rw [answer_bind, Bundles.answer_get, answer_pure]

/-! ### A preview that is made -/

section Making

variable (s : Service) (m : Moments) (r : Request) (h : Holdings) (σ : Session)

/-- The session in which the static module is rendered. -/
def renderSession (i : Interactive) : Session :=
  (σ.after (s.modules r)).after
    (Bundles.register s.expiry i.compiled.code m.registered h.bundles)

/-- The picture of a component whose modules have both been compiled. -/
def pictureOf (i : Interactive) (static : Tool.Compiled) :
    Run (Except Failure Picture × Breaker) :=
  s.picture static.code i.source (i.inputs r.dependencies) h.breaker

/-- The preview of a component whose modules have both been compiled, unless it fails. -/
def previewOf (i : Interactive) (static : Tool.Compiled) : Except Failure Output :=
  ((renderSession s m r h σ i).answer (pictureOf s r h i static)).1.map
    (i.output static (Bundles.idOf i.compiled.code))

/-- The results with one more, unless the preview has failed. -/
def keeping (a : Except Failure Output) : Expiring Output :=
  a.toOption.elim h.results fun o => h.results.insert s.expiry r.digest.hex o m.done

lemma makePreview_of_error {e : Failure} (hm : σ.answer (s.modules r) = .error e) :
    σ.answer (s.makePreview m r h) = (.error e, h) := by
  unfold Service.makePreview
  rw [answer_bind, hm]
  exact answer_pure _ _

/-- **A preview that is made** of both modules. -/
lemma makePreview_of_modules {i : Interactive} {static : Tool.Compiled}
    (hm : σ.answer (s.modules r) = .ok (i, static)) :
    σ.answer (s.makePreview m r h) = (previewOf s m r h σ i static,
        { results := keeping s m r h (previewOf s m r h σ i static)
          bundles := Bundles.registered s.expiry i.compiled.code m.registered h.bundles
          breaker := ((renderSession s m r h σ i).answer (pictureOf s r h i static)).2 }) ∧
      σ.after (s.makePreview m r h) =
        (renderSession s m r h σ i).after (pictureOf s r h i static) := by
  unfold Service.makePreview previewOf
  rw [answer_bind, after_bind, hm]
  dsimp only
  rw [answer_bind, after_bind, Bundles.answer_register, ← renderSession]
  dsimp only
  rw [answer_bind, after_bind, ← pictureOf]
  generalize (renderSession s m r h σ i).answer (pictureOf s r h i static) = x
  generalize (renderSession s m r h σ i).after (pictureOf s r h i static) = τ
  obtain ⟨x, b⟩ := x
  cases x with
  | error e => exact ⟨answer_pure _ _, after_pure _ _⟩
  | ok p => exact ⟨answer_pure _ _, after_pure _ _⟩

end Making

/-! ### A request -/

/-- The result that is kept for a request, if there is one that has not expired. -/
def cached? (s : Service) (now : Nat) (r : Request) (h : Holdings) : Option Output :=
  (h.results.get s.expiry r.digest.hex now).1

/-- The holdings after a sweep of the results. -/
def sweptHoldings (s : Service) (now : Nat) (h : Holdings) : Holdings :=
  { h with results := h.results.swept s.expiry now }

variable {s : Service} {m : Moments} {r : Request} {h : Holdings}

lemma compileAt_of_blank (hb : Reply.blank r.source = true) (m : Moments) (h : Holdings) :
    s.compileAt m r h = pure (.error (.invalidRequest "source is required"), h) := by
  rw [Service.compileAt, if_pos hb]

lemma compileAt_of_cached (hb : ¬ Reply.blank r.source = true) {o : Output}
    (ho : cached? s m.asked r h = some o) :
    s.compileAt m r h = (fun b => (.ok o, { sweptHoldings s m.asked h with bundles := b.2 })) <$>
      Bundles.register s.expiry o.code m.registered h.bundles := by
  have hget : h.results.get s.expiry r.digest.hex m.asked =
      (some o, h.results.swept s.expiry m.asked) := Prod.ext ho rfl
  rw [Service.compileAt, if_neg hb, hget]
  rfl

lemma compileAt_of_uncached (hb : ¬ Reply.blank r.source = true)
    (ho : cached? s m.asked r h = none) :
    s.compileAt m r h = s.makePreview m r (sweptHoldings s m.asked h) := by
  have hget : h.results.get s.expiry r.digest.hex m.asked =
      (none, h.results.swept s.expiry m.asked) := Prod.ext ho rfl
  rw [Service.compileAt, if_neg hb, hget, sweptHoldings]

/-- The request is neither refused nor answered with a result that is kept. -/
structure IsNew (s : Service) (m : Moments) (r : Request) (h : Holdings) : Prop where
  given : ¬ Reply.blank r.source = true
  unknown : cached? s m.asked r h = none

lemma IsNew.compileAt (hnew : IsNew s m r h) :
    s.compileAt m r h = s.makePreview m r (sweptHoldings s m.asked h) :=
  compileAt_of_uncached hnew.given hnew.unknown

/-- An answered preview is new, or it has been made before. -/
lemma isNew_or_cached {σ : Session} {o : Output} (hok : (σ.answer (s.compileAt m r h)).1 = .ok o) :
    IsNew s m r h ∨ ¬ Reply.blank r.source = true ∧ cached? s m.asked r h = some o := by
  by_cases hb : Reply.blank r.source = true
  · rw [compileAt_of_blank hb, answer_pure] at hok
    cases hok
  · cases ho : cached? s m.asked r h with
    | none => exact .inl ⟨hb, ho⟩
    | some o' =>
      rw [compileAt_of_cached hb ho, answer_map] at hok
      exact .inr ⟨hb, congrArg some (Except.ok.inj hok)⟩

/-- **A preview keeps** only what it has just made, under the key of its request. -/
lemma kept_compileAt (σ : Session) {k : String} {slot : Slot Output}
    (hk : (σ.answer (s.compileAt m r h)).2.results.slots.get? k = some slot) :
    h.results.slots.get? k = some slot ∨ k = r.digest.hex ∧ IsNew s m r h ∧
      slot.time = m.done ∧ (σ.answer (s.compileAt m r h)).1 = .ok slot.value := by
  by_cases hb : Reply.blank r.source = true
  · rw [compileAt_of_blank hb, answer_pure] at hk
    exact .inl hk
  · cases ho : cached? s m.asked r h with
    | some o =>
      rw [compileAt_of_cached hb ho, answer_map] at hk
      exact .inl (Expiring.get?_of_swept hk)
    | none =>
      rw [compileAt_of_uncached hb ho] at hk ⊢
      cases hm : σ.answer (s.modules r) with
      | error e =>
        rw [makePreview_of_error s m r _ σ hm] at hk
        exact .inl (Expiring.get?_of_swept hk)
      | ok x =>
        rw [(makePreview_of_modules s m r _ σ hm).1] at hk ⊢
        dsimp only [keeping] at hk ⊢
        cases ha : previewOf s m r (sweptHoldings s m.asked h) σ x.1 x.2 with
        | error e =>
          rw [ha] at hk
          exact .inl (Expiring.get?_of_swept hk)
        | ok o =>
          rw [ha, Except.toOption, Option.elim_some, Expiring.insert, KeyMap.get?_insert] at hk
          split at hk
          · next hkey =>
            obtain rfl := Option.some.inj hk
            exact .inr ⟨hkey, ⟨hb, ho⟩, rfl, rfl⟩
          · exact .inl (Expiring.get?_of_swept (Expiring.get?_of_swept hk))

/-! ### Events -/

/-- What a service is asked, and when. Every call may come in a session of its own. -/
inductive Event
  | preview (σ : Session) (m : Moments) (r : Request)
  | fetch (σ : Session) (now : Nat) (id : String)
  | resetBundles
  | reset

namespace Event

/-- When the clock is looked at. -/
def times : Event → List Nat
  | preview _ m _ => [m.asked, m.registered, m.done]
  | fetch _ now _ => [now]
  | resetBundles | reset => []

/-- The bundles are dropped. -/
def IsReset : Event → Prop
  | preview .. | fetch .. => False
  | resetBundles | reset => True

def run (s : Service) (h : Holdings) : Event → Holdings
  | preview σ m r => (σ.answer (s.compileAt m r h)).2
  | fetch σ now id => (σ.answer (s.bundle now id h)).2
  | resetBundles => h.resetBundles
  | reset => h.reset

/-- Times never decrease. -/
def InOrder (es : List Event) : Prop := (es.flatMap times).Pairwise (· ≤ ·)

instance (es : List Event) : Decidable (InOrder es) :=
  inferInstanceAs (Decidable ((es.flatMap times).Pairwise (· ≤ ·)))

lemma inOrder_append {es es' : List Event} : InOrder (es ++ es') ↔
    InOrder es ∧ InOrder es' ∧ ∀ t ∈ es.flatMap times, ∀ t' ∈ es'.flatMap times, t ≤ t' := by
  rw [InOrder, List.flatMap_append, List.pairwise_append]
  rfl

lemma InOrder.le {es es' : List Event} (h : InOrder (es ++ es')) {e e' : Event} (he : e ∈ es)
    (he' : e' ∈ es') {t t' : Nat} (ht : t ∈ e.times) (ht' : t' ∈ e'.times) : t ≤ t' :=
  (inOrder_append.1 h).2.2 t (List.mem_flatMap.2 ⟨e, he, ht⟩) t' (List.mem_flatMap.2 ⟨e', he', ht'⟩)

/-- As soon as a preview is done something can be fetched. -/
lemma InOrder.then_fetch {es : List Event} {σ τ : Session} {m : Moments} {r : Request} {id : String}
    (h : InOrder (es ++ [.preview σ m r])) :
    InOrder (es ++ [.preview σ m r] ++ [.fetch τ m.done id]) := by
  refine inOrder_append.2 ⟨h, by simp [InOrder, times], fun t ht t' ht' => ?_⟩
  obtain ⟨-, hpreview, hle⟩ := inOrder_append.1 h
  obtain rfl : t' = m.done := by simpa [times] using ht'
  rw [List.flatMap_append, List.mem_append] at ht
  rcases ht with ht | ht
  · exact hle t ht m.done (by simp [times])
  · simp only [InOrder, List.flatMap_singleton, times, List.pairwise_cons, List.mem_cons,
      List.not_mem_nil, or_false] at hpreview ht
    obtain ⟨hasked, hregistered, -⟩ := hpreview
    rcases ht with rfl | rfl | rfl
    · exact hasked _ (.inr rfl)
    · exact hregistered _ rfl
    · exact Nat.le_refl _

end Event

/-- What a service holds after some events. -/
def heldAfter (s : Service) (es : List Event) : Holdings := es.foldl (Event.run s) {}

variable {s : Service} {es : List Event}

lemma heldAfter_snoc (s : Service) (es : List Event) (e : Event) :
    heldAfter s (es ++ [e]) = e.run s (heldAfter s es) := by
  simp [heldAfter]

/-! ### Results -/

/-- One of the events was a preview that had no result yet, and got this one. -/
def MadeIn (s : Service) (es : List Event) (q : Request) (o : Output) : Prop :=
  ∃ before σ m later, es = before ++ .preview σ m q :: later ∧
    IsNew s m q (heldAfter s before) ∧
    (σ.answer (s.compileAt m q (heldAfter s before))).1 = .ok o

lemma MadeIn.snoc {q : Request} {o : Output} (h : MadeIn s es q o) (e : Event) :
    MadeIn s (es ++ [e]) q o := by
  obtain ⟨before, σ, m, later, rfl, hmade⟩ := h
  exact ⟨before, σ, m, later ++ [e], by simp, hmade⟩

/-- **Every result** was made by one of the events, for a request of its key. -/
theorem exists_madeIn {k : String} {slot : Slot Output}
    (hk : (heldAfter s es).results.slots.get? k = some slot) :
    ∃ q, MadeIn s es q slot.value ∧ q.digest.hex = k := by
  induction es using List.reverseRecOn with
  | nil => cases hk
  | append_singleton es e ih =>
    have hold (hk : (heldAfter s es).results.slots.get? k = some slot) :
        ∃ q, MadeIn s (es ++ [e]) q slot.value ∧ q.digest.hex = k := by
      obtain ⟨q, hmade, hq⟩ := ih hk
      exact ⟨q, hmade.snoc e, hq⟩
    rw [heldAfter_snoc] at hk
    cases e with
    | preview σ m r =>
      rcases kept_compileAt σ hk with hk | ⟨rfl, hnew, -, hok⟩
      · exact hold hk
      · exact ⟨r, ⟨es, σ, m, [], rfl, hnew, hok⟩, rfl⟩
    | fetch σ now id =>
      rw [Event.run, answer_bundle] at hk
      exact hold hk
    | resetBundles => exact hold hk
    | reset => cases hk

/-- A result that is given once more was made for a request with the same digest. -/
lemma exists_madeIn_of_cached {now : Nat} {r : Request} {o : Output}
    (ho : cached? s now r (heldAfter s es) = some o) :
    ∃ q, MadeIn s es q o ∧ q.digest = r.digest := by
  obtain ⟨slot, hslot, rfl⟩ := Option.map_eq_some_iff.1 ho
  obtain ⟨q, hmade, hkey⟩ :=
    exists_madeIn (Expiring.get?_of_swept (Option.filter_eq_some_iff.1 hslot).1)
  exact ⟨q, hmade, Digest.hex_inj.1 hkey⟩

end Preview

end Mender
