import Mender.Proofs.Session

/-!
Two computations side by side.

Sessions may be alike in some respect. Two computations are coupled if from alike sessions they come
to answers that fit, and leave alike sessions behind; this passes from the parts of computations that
go the same way to the whole.
-/

namespace Mender.Session

variable {α β α' β' : Type} {R : Session → Session → Prop} {Q : α → α' → Prop} {P : β → β' → Prop}

/-- From sessions in the relation `R` the two come to answers in the relation `Q`, and the sessions are
in the relation `R` again. -/
def Coupled (R : Session → Session → Prop) (Q : α → α' → Prop) (m : Run α) (m' : Run α') : Prop :=
  ∀ s t, R s t → Q (s.answer m) (t.answer m') ∧ R (s.after m) (t.after m')

namespace Coupled

variable {m : Run α} {m' : Run α'} {f : α → Run β} {f' : α' → Run β'}

lemma pure {a : α} {a' : α'} (h : Q a a') : Coupled R Q (pure a) (pure a') := by
  intro s t hst
  rw [answer_pure, answer_pure, after_pure, after_pure]
  exact ⟨h, hst⟩

/-- What is known of the first parts in two sessions is enough for the whole in these. -/
lemma bind_at {s t : Session}
    (hm : Q (s.answer m) (t.answer m') ∧ R (s.after m) (t.after m'))
    (hf : ∀ a a', Q a a' → Coupled R P (f a) (f' a')) :
    P (s.answer (m >>= f)) (t.answer (m' >>= f')) ∧ R (s.after (m >>= f)) (t.after (m' >>= f')) := by
  rw [answer_bind, answer_bind, after_bind, after_bind]
  exact hf _ _ hm.1 _ _ hm.2

/-- The first parts are known to be coupled, and the rest in the sessions that they leave. -/
lemma then_at {s t : Session} (hm : Coupled R Q m m') (hst : R s t)
    (hf : Q (s.answer m) (t.answer m') → R (s.after m) (t.after m') →
      P ((s.after m).answer (f (s.answer m))) ((t.after m').answer (f' (t.answer m'))) ∧
        R ((s.after m).after (f (s.answer m))) ((t.after m').after (f' (t.answer m')))) :
    P (s.answer (m >>= f)) (t.answer (m' >>= f')) ∧ R (s.after (m >>= f)) (t.after (m' >>= f')) := by
  rw [answer_bind, answer_bind, after_bind, after_bind]
  exact hf (hm s t hst).1 (hm s t hst).2

lemma bind (hm : Coupled R Q m m') (hf : ∀ a a', Q a a' → Coupled R P (f a) (f' a')) :
    Coupled R P (m >>= f) (m' >>= f') :=
  fun s t hst => bind_at (hm s t hst) hf

lemma mono {Q' : α → α' → Prop} (hm : Coupled R Q m m') (h : ∀ a a', Q a a' → Q' a a') :
    Coupled R Q' m m' :=
  fun s t hst => ⟨h _ _ (hm s t hst).1, (hm s t hst).2⟩

/-- The first parts answer the same. -/
lemma bind_eq {m m' : Run α} {f : α → Run β} {f' : α → Run β'} (hm : Coupled R Eq m m')
    (hf : ∀ a, Coupled R P (f a) (f' a)) : Coupled R P (m >>= f) (m' >>= f') :=
  hm.bind fun a _ h => h ▸ hf a

lemma get : Coupled R R get get := by
  intro s t hst
  rw [answer_get, answer_get, after_get, after_get]
  exact ⟨hst, hst⟩

/-- The same change is made to both sessions. -/
lemma modify {g : Session → Session} (h : ∀ s t, R s t → R (g s) (g t)) :
    Coupled R Eq (modify g) (modify g) := by
  intro s t hst
  rw [after_modify, after_modify]
  exact ⟨rfl, h s t hst⟩

/-- A computation does the same in the same session. -/
lemma refl (m : Run α) : Coupled Eq Eq m m := by
  rintro s _ rfl
  exact ⟨rfl, rfl⟩

end Coupled

/-- Alike sessions get the same answer, and are left alike. -/
abbrev Steady (R : Session → Session → Prop) (m : Run α) : Prop := Coupled R Eq m m

/-! ### One computation -/

section Since

variable {γ : Type} {p : Call → Prop} {part : Session → γ} {m : Run α}

/-- One session, which has come from `s₀` by calls that satisfy `p`, and agrees with it on `part`. -/
def Since (p : Call → Prop) (part : Session → γ) (s₀ s t : Session) : Prop :=
  s = t ∧ Extends p part s₀ s

lemma Makes.steady (h : Makes p part m) (s₀ : Session) : Steady (Since p part s₀) m := by
  rintro s _ ⟨rfl, hs⟩
  exact ⟨rfl, rfl, hs.trans (h s)⟩

/-- With one session on both sides, what keeps sessions alike says what becomes of that session. -/
lemma makes_of_steady (h : ∀ s₀, Steady (Since p part s₀) m) : Makes p part m :=
  fun s => (h s s s ⟨rfl, ⟨[], by simp, by simp⟩, rfl⟩).2.2

end Since

end Mender.Session
