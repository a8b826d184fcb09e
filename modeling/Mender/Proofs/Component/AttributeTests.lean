import Mender.Proofs.Component.OpenTags
import Mender.Proofs.Text.Pattern

/-!
What the tests for attributes say of a widened text.

The patterns are made of signs and of blanks with a sign behind them, and none of these signs can stand
in what is left of a tag. So no attribute is put into a match, and no match reaches into what is left
of a tag. An attribute that is added takes no part in a match for another one.
-/

namespace Mender.Component

open Mender.Text

/-! ### Firm patterns -/

/-- The part is one sign. -/
def accepts : Part → Char → Bool
  | .char d, c => c == d
  | .oneOf ds, c => ds.contains c
  | _, _ => false

/-- The part is a sign that stands in no end of a tag. -/
def isFirm : Part → Bool
  | .char c => !endsTagName c
  | .oneOf cs => cs.all fun c => !endsTagName c
  | _ => false

/-- Signs, and runs of blanks with a sign behind them. -/
def firm : Pattern → Bool
  | [] => true
  | .blanks :: part :: p => isFirm part && firm p
  | part :: p => isFirm part && firm p

lemma firm_sign {part : Part} {p : Pattern} (hnot : ∀ part' p', part = .blanks → p = part' :: p' → False)
    (hp : firm (part :: p) = true) : isFirm part = true ∧ firm p = true := by
  rwa [firm.eq_3 _ _ hnot, Bool.and_eq_true] at hp

/-- What a firm pattern finds at the start of a text. -/
inductive Reads : Pattern → List Char → Prop
  | nil (t : List Char) : Reads [] t
  | sign {part : Part} {p : Pattern} {c : Char} {r : List Char} (h : accepts part c = true)
    (hc : endsTagName c = false) (hr : Reads p r) : Reads (part :: p) (c :: r)
  | blanks {part : Part} {p : Pattern} {m r : List Char} {c : Char}
    (hm : ∀ d ∈ m, isBlank d = true) (h : accepts part c = true) (hc : endsTagName c = false)
    (hr : Reads p r) : Reads (.blanks :: part :: p) (m ++ c :: r)

variable {p : Pattern} {part : Part} {t x y w : List Char}

lemma endsTagName_of_accepts {c : Char} (hfirm : isFirm part = true) (h : accepts part c = true) :
    endsTagName c = false := by
  cases part with
  | char d =>
    obtain rfl : c = d := beq_iff_eq.1 h
    simpa [isFirm] using hfirm
  | oneOf ds => simpa using List.all_eq_true.1 hfirm c (List.contains_iff_mem.1 h)
  | blanks | someBlanks | edge | lead => cases h

lemma matchesAt_sign_iff (hfirm : isFirm part = true) {before : Option Char} :
    Pattern.MatchesAt before (part :: p) t ↔
      ∃ c r, t = c :: r ∧ accepts part c = true ∧ Pattern.MatchesAt (some c) p r := by
  cases part with
  | char d =>
    rw [Pattern.matchesAt_char]
    constructor
    · rintro ⟨r, rfl, hr⟩
      exact ⟨d, r, rfl, beq_self_eq_true d, hr⟩
    · rintro ⟨c, r, rfl, hc, hr⟩
      obtain rfl : c = d := beq_iff_eq.1 hc
      exact ⟨r, rfl, hr⟩
  | oneOf ds =>
    rw [Pattern.matchesAt_oneOf]
    simp only [accepts, List.contains_iff_mem]
  | blanks | someBlanks | edge | lead => cases hfirm

lemma reads_sign_iff (hfirm : isFirm part = true) :
    Reads (part :: p) t ↔ ∃ c r, t = c :: r ∧ accepts part c = true ∧ Reads p r := by
  constructor
  · intro h
    cases h with
    | sign hc _ hr => exact ⟨_, _, rfl, hc, hr⟩
    | blanks => cases hfirm
  · rintro ⟨c, r, rfl, hc, hr⟩
    exact .sign hc (endsTagName_of_accepts hfirm hc) hr

/-- **A firm pattern** does not look at what is in front of it. -/
theorem matchesAt_iff_reads (hp : firm p = true) {before : Option Char} :
    p.MatchesAt before t ↔ Reads p t := by
  induction p using firm.induct generalizing before t with
  | case1 => exact iff_of_true ⟨[], t, rfl, .nil _ _⟩ (.nil t)
  | case2 part p ih =>
    obtain ⟨hfirm, hp⟩ := Bool.and_eq_true_iff.1 hp
    rw [Pattern.matchesAt_cons_iff]
    simp only [matchesAt_sign_iff hfirm, ih hp]
    constructor
    · rintro ⟨m, _, rfl, hm, c, r, rfl, hc, hr⟩
      cases hm with
      | blanks hm => exact .blanks hm hc (endsTagName_of_accepts hfirm hc) hr
    · intro h
      cases h with
      | sign h => cases h
      | blanks hm hc _ hr => exact ⟨_, _, rfl, .blanks hm _, _, _, rfl, hc, hr⟩
  | case3 part p hnot ih =>
    have hboth := firm_sign hnot hp
    simp only [matchesAt_sign_iff hboth.1, reads_sign_iff hboth.1, ih hboth.2]

namespace Reads

/-- A pattern that begins with a sign reads one. -/
lemma exists_cons (hp : p.head?.any isFirm = true) (h : Reads p t) :
    ∃ c r, t = c :: r ∧ endsTagName c = false := by
  cases h with
  | nil => cases hp
  | sign _ hc => exact ⟨_, _, rfl, hc⟩
  | blanks => cases hp

lemma append (h : Reads p t) (w : List Char) : Reads p (t ++ w) := by
  induction h with
  | nil t => exact .nil _
  | sign h hc _ ih => exact .sign h hc ih
  | blanks hm h hc _ ih =>
    rw [List.append_assoc]
    exact .blanks hm h hc ih

/-- Nothing is read in what is left of a tag. -/
lemma of_append (hw : ∀ c ∈ w, endsTagName c = true) (h : Reads p t) (ht : t = x ++ w) : Reads p x := by
  have hnot {c : Char} (hc : endsTagName c = false) : c ∉ w := fun hmem => by
    rw [hw c hmem] at hc
    cases hc
  induction h generalizing x with
  | nil => exact .nil x
  | @sign part p c r h hc _ ih =>
    cases x with
    | nil =>
      rw [List.nil_append] at ht
      exact absurd (ht ▸ List.mem_cons_self) (hnot hc)
    | cons d x =>
      obtain ⟨rfl, rfl⟩ := List.cons.inj ht
      exact .sign h hc (ih rfl)
  | @blanks part p m r c hm h hc _ ih =>
    rcases List.append_eq_append_iff.1 ht with ⟨k, rfl, hk⟩ | ⟨k, rfl, hk⟩
    · cases k with
      | nil =>
        rw [List.nil_append] at hk
        exact absurd (hk ▸ List.mem_cons_self) (hnot hc)
      | cons d k =>
        obtain ⟨rfl, hr⟩ := List.cons.inj hk
        exact .blanks hm h hc (ih hr)
    · exact absurd (hk ▸ List.mem_append_right k List.mem_cons_self) (hnot hc)

/-- A match is not broken by what is added. -/
lemma widened (h : Reads p x) (hy : Widened x y) : Reads p y := by
  have hsign {c : Char} (hc : endsTagName c = false) (r : List Char) :
      ¬ closesTag false (c :: r) = true := by
    rw [← Bool.not_eq_true] at hc
    exact mt endsTagName_of_closesTag hc
  induction h generalizing y with
  | nil => exact .nil y
  | sign h hc _ ih =>
    obtain ⟨z, rfl, hz⟩ := Interspersed.of_notAt (hsign hc _) hy
    exact .sign h hc (ih hz)
  | blanks hm h hc _ ih =>
    obtain ⟨u, rfl, hu⟩ := Interspersed.append hy fun u v hv _ hcloses => by
      rw [closesTag_blanks fun d hd => hm d (hv ▸ List.mem_append_right u hd)] at hcloses
      exact hsign hc _ hcloses
    obtain ⟨z, rfl, hz⟩ := Interspersed.of_notAt (hsign hc _) hu
    exact .blanks hm h hc (ih hz)

end Reads

/-- What stands behind blanks of a widened text stands behind them in the text, if no attribute that is
added begins with it. -/
lemma Widened.of_blanks {m r : List Char} {c : Char} (h : Widened x (m ++ c :: r))
    (hm : ∀ d ∈ m, isBlank d = true) (hc : c ≠ 'a' ∧ c ≠ 'r') : ∃ y, x = m ++ y ∧ Widened y (c :: r) := by
  induction m generalizing x with
  | nil => exact ⟨x, rfl, h⟩
  | cons d m ih =>
    obtain ⟨-, hm⟩ := List.forall_mem_cons.1 hm
    generalize hy : d :: m ++ c :: r = y at h
    cases h with
    | nil => cases hy
    | keep f h =>
      obtain ⟨rfl, rfl⟩ := List.cons.inj hy
      obtain ⟨y, rfl, hy⟩ := ih h hm
      exact ⟨y, rfl, hy⟩
    | put he =>
      obtain ⟨n, s, rfl, hn⟩ := he.exists_name
      obtain ⟨-, hrest⟩ := List.cons.inj hy
      cases m with
      | nil =>
        obtain rfl : c = n := (List.cons.inj hrest).1
        exact absurd hn (not_or.2 hc)
      | cons f m =>
        have hblank := hm f List.mem_cons_self
        rw [(List.cons.inj hrest).1] at hblank
        rcases hn with rfl | rfl <;> exact absurd hblank (by decide)

/-- What follows blanks is no sign that an added attribute begins with. -/
def unmixed : Pattern → Bool
  | [] => true
  | .blanks :: part :: p => !(accepts part 'a' || accepts part 'r') && unmixed p
  | _ :: p => unmixed p

/-- A match does not come about by what is added. -/
lemma Reads.of_widened (hp : unmixed p = true) (h : Reads p y) (hx : Widened x y) : Reads p x := by
  induction h generalizing x with
  | nil => exact .nil x
  | @sign part p c r h hc _ ih =>
    have hp : unmixed p = true := by
      cases part with
      | blanks => cases h
      | _ => exact hp
    obtain ⟨z, rfl, hz⟩ := Widened.of_name (m := [c]) (by simp [hc]) hx
    exact .sign h hc (ih hp hz)
  | @blanks part p m r c hm h hc hr ih =>
    obtain ⟨hhead, hp⟩ := Bool.and_eq_true_iff.1 hp
    have hadd : c ≠ 'a' ∧ c ≠ 'r' := by
      constructor <;> rintro rfl <;> simp [h] at hhead
    obtain ⟨z, rfl, hz⟩ := hx.of_blanks hm hadd
    obtain ⟨w, rfl, hw⟩ := Widened.of_name (m := [c]) (by simp [hc]) hz
    exact .blanks hm h hc (ih hp hw)

/-! ### Matches in a text -/

/-- The text ends with a blank, or there is none and `before` is nothing or blank. -/
def Leads (before : Option Char) (a : List Char) : Prop :=
  ∀ c, a.getLast?.or before = some c → isBlank c = true

lemma leads_append {before : Option Char} {e k : List Char} {c : Char} :
    Leads before (e ++ [c] ++ k) ↔ Leads (some c) k := by
  have hlast : (e ++ [c] ++ k).getLast?.or before = k.getLast?.or (some c) := by
    rcases List.eq_nil_or_concat k with rfl | ⟨k, d, rfl⟩
    · simp
    · simp [← List.append_assoc]
  simp only [Leads, hlast]

lemma leads_cons {before : Option Char} {c : Char} {a : List Char} :
    Leads before (c :: a) ↔ Leads (some c) a := leads_append (e := [])

/-- The pattern is read behind the start of the text or a blank. -/
def StandsAlone (p : Pattern) (t : List Char) : Prop :=
  ∃ a r, t = a ++ r ∧ Leads none a ∧ Reads p r

/-- The pattern is read somewhere in the text. -/
def Stands (p : Pattern) (t : List Char) : Prop := ∃ a r, t = a ++ r ∧ Reads p r

lemma settled_of_firm (hp : firm p = true) : p.settled = true := by
  have hsolid {c : Char} (hc : endsTagName c = false) : (!isBlank c) = true := by
    simp only [endsTagName, Bool.or_eq_false_iff] at hc
    rw [hc.1.1]
    rfl
  induction p using firm.induct with
  | case1 => rfl
  | case2 part p ih =>
    obtain ⟨hfirm, hp⟩ := Bool.and_eq_true_iff.1 hp
    have hrest := ih hp
    cases part with
    | char c => exact Bool.and_eq_true_iff.2 ⟨hsolid (by simpa [isFirm] using hfirm), hrest⟩
    | oneOf cs =>
      refine Bool.and_eq_true_iff.2 ⟨List.all_eq_true.2 fun c hc => hsolid ?_, hrest⟩
      simpa using List.all_eq_true.1 hfirm c hc
    | blanks | someBlanks | edge | lead => cases hfirm
  | case3 part p hnot ih =>
    have hboth := firm_sign hnot hp
    cases part with
    | char c => exact ih hboth.2
    | oneOf cs => exact ih hboth.2
    | blanks | someBlanks | edge | lead => cases hboth.1

lemma isIn_iff_exists (hp : p.settled = true) :
    p.isIn t = true ↔ ∃ a r, t = a ++ r ∧ p.MatchesAt a.getLast? r := by
  rw [Pattern.isIn_iff hp]
  constructor
  · rintro ⟨a, m, b, rfl, h⟩
    exact ⟨a, m ++ b, List.append_assoc _ _ _, m, b, rfl, h⟩
  · rintro ⟨a, r, rfl, m, b, rfl, h⟩
    exact ⟨a, m, b, (List.append_assoc _ _ _).symm, h⟩

lemma isIn_iff_stands (hp : firm p = true) : p.isIn t = true ↔ Stands p t := by
  simp only [isIn_iff_exists (settled_of_firm hp), matchesAt_iff_reads hp]
  rfl

lemma isIn_iff_standsAlone (hp : firm p = true) :
    Pattern.isIn (.lead :: p) t = true ↔ StandsAlone p t := by
  have hsettled : Pattern.settled (.lead :: p) = true := by
    rw [Pattern.settled]
    · exact settled_of_firm hp
    all_goals simp
  simp only [isIn_iff_exists hsettled, Pattern.matchesAt_lead, matchesAt_iff_reads hp]
  constructor
  · rintro ⟨a, r, rfl, ⟨ha, hr⟩ | ⟨c, r, rfl, hc, hr⟩⟩
    · refine ⟨a, r, rfl, fun c h => ?_, hr⟩
      rw [ha] at h
      cases h
    · refine ⟨a ++ [c], r, by simp, fun d h => ?_, hr⟩
      simp only [List.getLast?_concat, Option.some_or, Option.some.injEq] at h
      exact h ▸ hc
  · rintro ⟨a, r, rfl, ha, hr⟩
    rcases List.eq_nil_or_concat a with rfl | ⟨a, c, rfl⟩
    · exact ⟨[], r, rfl, .inl ⟨rfl, hr⟩⟩
    · exact ⟨a, c :: r, by simp, .inr ⟨c, r, rfl, ha c (by simp), hr⟩⟩

lemma Reads.not_of_ends (hp : p.head?.any isFirm = true) (hw : ∀ c ∈ w, endsTagName c = true)
    {a r : List Char} (h : w = a ++ r) : ¬ Reads p r := by
  intro hr
  obtain ⟨c, r, rfl, hc⟩ := hr.exists_cons hp
  rw [hw c (h ▸ by simp)] at hc
  cases hc

/-- A match lies before what is left of a tag. -/
lemma exists_of_reads_append (hp : p.head?.any isFirm = true) (hw : ∀ c ∈ w, endsTagName c = true)
    {a r : List Char} (h : x ++ w = a ++ r) (hr : Reads p r) : ∃ k, x = a ++ k ∧ Reads p k := by
  rcases List.append_eq_append_iff.1 h with ⟨k, -, hk⟩ | ⟨k, hk, hrk⟩
  · exact absurd hr (Reads.not_of_ends hp hw hk)
  · exact ⟨k, hk, hr.of_append hw hrk⟩

lemma stands_append_iff (hp : p.head?.any isFirm = true) (hw : ∀ c ∈ w, endsTagName c = true) :
    Stands p (x ++ w) ↔ Stands p x := by
  constructor
  · rintro ⟨a, r, h, hr⟩
    obtain ⟨k, hk, hread⟩ := exists_of_reads_append hp hw h hr
    exact ⟨a, k, hk, hread⟩
  · rintro ⟨a, r, rfl, hr⟩
    exact ⟨a, r ++ w, List.append_assoc _ _ _, hr.append w⟩

lemma standsAlone_append_iff (hp : p.head?.any isFirm = true) (hw : ∀ c ∈ w, endsTagName c = true) :
    StandsAlone p (x ++ w) ↔ StandsAlone p x := by
  constructor
  · rintro ⟨a, r, h, ha, hr⟩
    obtain ⟨k, hk, hread⟩ := exists_of_reads_append hp hw h hr
    exact ⟨a, k, hk, ha, hread⟩
  · rintro ⟨a, r, rfl, ha, hr⟩
    exact ⟨a, r ++ w, List.append_assoc _ _ _, ha, hr.append w⟩

lemma Stands.widened (h : Stands p x) (hy : Widened x y) : Stands p y := by
  obtain ⟨a, r, rfl, hr⟩ := h
  obtain ⟨b, z, rfl, -, hz⟩ := hy.split
  exact ⟨b, z, rfl, hr.widened hz⟩

lemma Leads.widened {a b : List Char} (h : Leads none a) (hb : Widened a b) : Leads none b := by
  rcases List.eq_nil_or_concat a with rfl | ⟨a, c, rfl⟩
  · rw [hb.eq_nil]
    exact h
  · rw [List.concat_eq_append] at hb
    obtain ⟨b, z, rfl, -, hz⟩ := Widened.split hb
    have hc : isBlank c = true := h c (by simp)
    obtain ⟨e, rfl⟩ : ∃ e, z = e ++ [c] := by
      cases hz with
      | keep _ hz => exact ⟨[], by rw [hz.eq_nil]; rfl⟩
      | put _ _ hz => exact ⟨_, by rw [hz.eq_nil]⟩
    intro d hd
    rw [← List.append_assoc, List.getLast?_concat, Option.some_or, Option.some.injEq] at hd
    exact hd ▸ hc

lemma StandsAlone.widened (h : StandsAlone p x) (hy : Widened x y) : StandsAlone p y := by
  obtain ⟨a, r, rfl, ha, hr⟩ := h
  obtain ⟨b, z, rfl, hb, hz⟩ := hy.split
  exact ⟨b, z, rfl, ha.widened hb, hr.widened hz⟩

/-- Behind the blanks of an added attribute stands no `t`. -/
lemma IsAddition.blank_t {e a r : List Char} {c : Char} (he : IsAddition e)
    (h : e = a ++ c :: 't' :: r) : isBlank c = false := by
  have hall : ∀ e : List Char, (e.tails.any fun s => s.tail.head? == some 't' && s.head?.any isBlank) =
      false → ∀ a c r, e = a ++ c :: 't' :: r → isBlank c = false := by
    intro e hany a c r h
    have := List.any_eq_false.1 hany (c :: 't' :: r) ((List.mem_tails _ _).2 ⟨a, h.symm⟩)
    simpa using this
  cases he <;> exact hall _ (by decide) a c r h

/-- A match in the second text stands in the first one as well, and as much by itself. -/
def Traces (p : Pattern) (x y : List Char) : Prop :=
  ∀ before a r, y = a ++ r → Leads before a → Reads p r → ∃ b z, x = b ++ z ∧ Leads before b ∧ Reads p z

lemma exists_t_of_reads (hhead : p.head? = some (.char 't')) {r : List Char} (hr : Reads p r) :
    ∃ s, r = 't' :: s := by
  obtain ⟨q, rfl⟩ := List.head?_eq_some_iff.1 hhead
  cases hr with
  | sign h => exact ⟨_, by rw [beq_iff_eq.1 h]⟩

namespace Traces

lemma keep {c : Char} (hp : unmixed p = true) (hx : Widened x y) (h : Traces p x y) :
    Traces p (c :: x) (c :: y) := by
  intro before a r hy ha hr
  cases a with
  | nil =>
    obtain rfl : c :: y = r := hy
    exact ⟨[], c :: x, rfl, ha, hr.of_widened hp (.keep c hx)⟩
  | cons d a =>
    obtain ⟨rfl, rfl⟩ := List.cons.inj hy
    rw [leads_cons] at ha
    obtain ⟨b, z, rfl, hb, hz⟩ := h _ a r rfl ha hr
    exact ⟨c :: b, z, rfl, leads_cons.2 hb, hz⟩

/-- No match begins in an attribute that is added, nor right behind it. -/
lemma put {e : List Char} {c : Char} (hhead : p.head? = some (.char 't')) (he : IsAddition e)
    (hc : endsTagName c = true) (h : Traces p (c :: x) (c :: y)) : Traces p (c :: x) (e ++ c :: y) := by
  intro before a r hy ha hr
  rcases List.append_eq_append_iff.1 hy with ⟨k, rfl, hk⟩ | ⟨k, rfl, rfl⟩
  · obtain ⟨f, rfl⟩ := he.exists_concat
    rw [leads_append] at ha
    obtain ⟨b, z, hx, hb, hz⟩ := h _ k r hk ha hr
    cases b with
    | nil => exact absurd (hb '"' rfl) (by decide)
    | cons d b => exact ⟨d :: b, z, hx, leads_cons.2 (leads_cons.1 hb), hz⟩
  · obtain ⟨s, hs⟩ := exists_t_of_reads hhead hr
    cases k with
    | nil =>
      obtain ⟨rfl, -⟩ := List.cons.inj hs
      exact absurd hc (by decide)
    | cons d k =>
      obtain ⟨rfl, -⟩ := List.cons.inj hs
      rcases List.eq_nil_or_concat a with rfl | ⟨a, f, rfl⟩
      · obtain ⟨_, h⟩ := he.exists_cons
        exact absurd (List.cons.inj h).1 (by decide)
      · rw [List.concat_eq_append] at he ha
        have hblank := he.blank_t (a := a) (c := f) (r := k) (by simp)
        rw [ha f (by simp)] at hblank
        cases hblank

end Traces

/-- A match for an attribute whose name begins with `t` does not come about by what is added. -/
lemma StandsAlone.of_widened (hhead : p.head? = some (.char 't')) (hp : unmixed p = true)
    (h : StandsAlone p y) (hx : Widened x y) : StandsAlone p x := by
  have htraces : Traces p x y := by
    clear h
    induction hx with
    | nil =>
      intro before a r h _ hr
      obtain ⟨s, rfl⟩ := exists_t_of_reads hhead hr
      exact absurd h.symm (by simp)
    | keep c hx ih => exact ih.keep hp hx
    | put he hc hx ih => exact .put hhead he (endsTagName_of_closesTag hc) (ih.keep hp hx)
  obtain ⟨a, r, hy, ha, hr⟩ := h
  exact htraces _ a r hy ha hr

/-! ### The tests -/

lemma hasText_iff : hasText t = true ↔
    StandsAlone (valued "alt").tail t ∨ Stands (Pattern.literal "\x7balt\x7d") t := by
  rw [← isIn_iff_standsAlone (by decide), ← isIn_iff_stands (by decide), hasText, Bool.or_eq_true]
  rfl

/-- What stands behind the lead of the pattern for links that open a window. -/
def windowPattern : Pattern :=
  (valued "target").tail ++ .blanks :: .oneOf ['"', '\''] :: Pattern.literal "_blank" ++ [.oneOf ['"', '\'']]

lemma opensWindow_iff : opensWindow t = true ↔ StandsAlone windowPattern t := by
  rw [← isIn_iff_standsAlone (by decide)]
  rfl

lemma hasRelation_iff : hasRelation t = true ↔ StandsAlone (valued "rel").tail t := by
  rw [← isIn_iff_standsAlone (by decide)]
  rfl

/-- What is left of a tag says nothing to the tests. -/
lemma tests_append (hw : ∀ c ∈ w, endsTagName c = true) :
    (hasText (x ++ w) = true ↔ hasText x = true) ∧
      (opensWindow (x ++ w) = true ↔ opensWindow x = true) ∧
        (hasRelation (x ++ w) = true ↔ hasRelation x = true) := by
  simp only [hasText_iff, opensWindow_iff, hasRelation_iff]
  refine ⟨or_congr (standsAlone_append_iff (by decide) hw) (stands_append_iff (by decide) hw),
    standsAlone_append_iff (by decide) hw, standsAlone_append_iff (by decide) hw⟩

/-- **What is added** takes no attribute away, and opens no window. -/
theorem tests_widened (h : Widened x y) :
    (hasText x = true → hasText y = true) ∧ (hasRelation x = true → hasRelation y = true) ∧
      (opensWindow y = true → opensWindow x = true) := by
  simp only [hasText_iff, opensWindow_iff, hasRelation_iff]
  exact ⟨Or.imp (·.widened h) (·.widened h), (·.widened h), (·.of_widened rfl (by decide) h)⟩

variable {opening body : List Char}

lemma IsTag.imageExtra_eq_none_iff (h : IsTag opening body) :
    imageExtra (attributesOf body.dropLast) = none ↔ hasText body = true := by
  obtain ⟨w, hw, hends, -⟩ := h.exists_attributes
  have htest := (tests_append (x := attributesOf body.dropLast) hends).1
  rw [← hw] at htest
  rw [htest, imageExtra]
  cases hasText (attributesOf body.dropLast) with
  | true => exact iff_of_true (if_pos rfl) rfl
  | false =>
    rw [if_neg Bool.false_ne_true]
    exact iff_of_false (Option.some_ne_none _) Bool.false_ne_true

lemma IsTag.linkExtra_eq_none_iff (h : IsTag opening body) :
    linkExtra (attributesOf body.dropLast) = none ↔
      (opensWindow body = true → hasRelation body = true) := by
  obtain ⟨w, hw, hends, -⟩ := h.exists_attributes
  have htests := (tests_append (x := attributesOf body.dropLast) hends).2
  rw [← hw] at htests
  rw [htests.1, htests.2, linkExtra]
  cases opensWindow (attributesOf body.dropLast) with
  | false => exact iff_of_true (if_neg Bool.false_ne_true) fun h => absurd h Bool.false_ne_true
  | true =>
    cases hasRelation (attributesOf body.dropLast) with
    | true => exact iff_of_true (if_neg Bool.false_ne_true) fun _ => rfl
    | false =>
      rw [Bool.not_false, Bool.and_true, if_pos rfl]
      exact iff_of_false (Option.some_ne_none _) fun h => absurd (h rfl) Bool.false_ne_true

end Mender.Component
