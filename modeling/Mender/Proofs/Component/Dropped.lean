import Mathlib.Data.List.DropRight
import Mender.Proofs.Component.AmendedBlocks
import Mender.Proofs.Script.Extents

/-!
A source whose repeated imports are dropped.

An import starts where nothing is unfinished, so what stands before a dropped one never runs into what
stands behind it to make a closing tag. The blocks stay, and each script loses its repeats and no more.
-/

namespace Mender.Component

open Mender.Text Mender.Markup Mender.Script
open Mender.Module (splice splice_copy)

variable {t : List Char}

/-! ### Repeats -/

/-- A stretch is dropped for an import that an earlier one of the script repeats up to blanks, with
blanks around it. -/
inductive IsRepeat (t : List Char) : Extent → Prop
  | mk {s s' : Statement} {i i' : Import} {a u m v b : List Char}
    (hs : List.Sublist [s, s'] (parse t).statements) (hi : s.form = .imports i)
    (hi' : s'.form = .imports i')
    (hkey : collapse (slice s.extent.first s.extent.last t) = collapse m)
    (ht : t = a ++ ((u ++ (m ++ v)) ++ b))
    (hm : s'.extent = ⟨width (a ++ u), width (a ++ u) + width m⟩)
    (hu : ∀ c ∈ u, isBlank c = true) (hv : ∀ c ∈ v, isBlank c = true) (ha : Rests a) :
    IsRepeat t ⟨width a, width a + width (u ++ (m ++ v))⟩

/-- What comes before the last line is nothing or ends a line. -/
lemma rests_rdropWhile (x : List Char) : Rests (x.rdropWhile (· != '\n')) := by
  by_cases hne : x.rdropWhile (· != '\n') = []
  · exact .inl hne
  · have hlast := List.rdropWhile_last_not (· != '\n') x hne
    simp only [bne_iff_ne, ne_eq, not_not] at hlast
    have happ := List.dropLast_append_getLast hne
    rw [hlast] at happ
    exact .inr (happ ▸ .sign _ (.inl (by decide)))

/-- The start of the last line of a text, if it is blank. -/
lemma exists_lineStart {x : List Char} (h : ∀ c ∈ x.reverse.takeWhile (· != '\n'), isBlank c = true) :
    ∃ a u, x = a ++ u ∧ Rests a ∧ (∀ c ∈ u, isBlank c = true ∧ c ≠ '\n') ∧
      width (x.reverse.takeWhile (· != '\n')) = width u := by
  refine ⟨x.rdropWhile (· != '\n'), x.rtakeWhile (· != '\n'), List.rdropWhile_append_rtakeWhile.symm,
    rests_rdropWhile x, fun c hc => ⟨h c (List.mem_reverse.1 hc), ?_⟩, (width_reverse _).symm⟩
  have hline : (c != '\n') = true := List.mem_rtakeWhile_imp (p := (· != '\n')) hc
  exact bne_iff_ne.1 hline

/-- The first line of a text with its end, if it is blank. -/
lemma exists_lineEnd {y : List Char} (h : ∀ c ∈ y.takeWhile (· != '\n'), isBlank c = true) :
    ∃ v b, y = v ++ b ∧ (∀ c ∈ v, isBlank c = true) ∧
      width v = width (y.takeWhile (· != '\n')) +
        if (y.takeWhile (· != '\n')).length < y.length then 1 else 0 := by
  have hy : y.takeWhile (· != '\n') ++ y.dropWhile (· != '\n') = y := List.takeWhile_append_dropWhile
  cases hrest : y.dropWhile (· != '\n') with
  | nil =>
    rw [hrest, List.append_nil] at hy
    rw [hy] at h ⊢
    exact ⟨y, [], (List.append_nil y).symm, h, by simp⟩
  | cons c b =>
    obtain rfl : c = '\n' := by
      have hhead := List.head?_dropWhile_not (· != '\n') y
      simpa [hrest] using hhead
    rw [hrest] at hy
    have hlonger : (y.takeWhile (· != '\n')).length < y.length := by
      conv_rhs => rw [← hy]
      simp
    refine ⟨y.takeWhile (· != '\n') ++ ['\n'], b, by simpa using hy.symm, ?_, ?_⟩
    · intro c hc
      rcases List.mem_append.1 hc with hc | hc
      · exact h c hc
      · rw [List.mem_singleton.1 hc]
        decide
    · have hline : width ['\n'] = 1 := rfl
      rw [if_pos hlonger, width_append, hline]

/-- The whole lines of a stretch are the stretch with blanks around it. -/
lemma exists_wholeLines {x m y : List Char} (hx : Rests x) :
    ∃ a u v b, x = a ++ u ∧ y = v ++ b ∧ Rests a ∧ (∀ c ∈ u, isBlank c = true ∧ c ≠ '\n') ∧
      (∀ c ∈ v, isBlank c = true) ∧
      wholeLines (x ++ (m ++ y)) ⟨width x, width x + width m⟩ =
        ⟨width a, width a + width (u ++ (m ++ v))⟩ := by
  have hbefore : slice 0 (width x) (x ++ (m ++ y)) = x := by
    rw [slice, dropWidth_zero, Nat.sub_zero, takeWidth_width]
  have hrest : dropWidth (width x + width m) (x ++ (m ++ y)) = y := by
    rw [dropWidth_width_add, dropWidth_width]
  unfold wholeLines
  simp only [hbefore, hrest]
  split
  · next hblank =>
    rw [Bool.and_eq_true, List.all_eq_true, List.all_eq_true] at hblank
    obtain ⟨a, u, hxa, ha, hu, hfirst⟩ := exists_lineStart hblank.1
    obtain ⟨v, b, hyb, hv, hlast⟩ := exists_lineEnd hblank.2
    refine ⟨a, u, v, b, hxa, hyb, ha, hu, hv, ?_⟩
    have hwidth : width x = width a + width u := by rw [hxa, width_append]
    rw [hfirst, Nat.add_assoc, ← hlast, hwidth]
    simp only [width_append, Nat.add_sub_cancel, Nat.add_assoc]
  · exact ⟨x, [], [], y, (List.append_nil x).symm, rfl, hx, by simp, by simp, by simp⟩

/-- What a statement says up to blanks. -/
def keyOf (t : List Char) (s : Statement) : List Char :=
  collapse (slice s.extent.first s.extent.last t)

/-- What is dropped is an import with the key of an earlier one. -/
lemma exists_of_mem_repeated {seen : List (List Char)} {ss : List Statement} {e : Extent}
    (pre : List Statement)
    (hseen : ∀ k ∈ seen, ∃ s ∈ pre, (∃ i, s.form = .imports i) ∧ keyOf t s = k)
    (h : e ∈ repeated t seen ss) :
    ∃ s s', List.Sublist [s, s'] (pre ++ ss) ∧ (∃ i, s.form = .imports i) ∧
      (∃ i, s'.form = .imports i) ∧ keyOf t s = keyOf t s' ∧ e = wholeLines t s'.extent := by
  induction ss generalizing seen pre with
  | nil => cases h
  | cons s ss ih =>
    have happ : pre ++ s :: ss = pre ++ [s] ++ ss := List.append_cons pre s ss
    have hmore : ∀ k ∈ seen, ∃ r ∈ pre ++ [s], (∃ i, r.form = .imports i) ∧ keyOf t r = k := by
      intro k hk
      obtain ⟨r, hr, hkey⟩ := hseen k hk
      exact ⟨r, List.mem_append_left _ hr, hkey⟩
    rw [repeated] at h
    split at h
    · next i hi =>
      dsimp only at h
      split at h
      · next hin =>
        rcases List.mem_cons.1 h with rfl | h
        · obtain ⟨r, hr, hform, hkey⟩ := hseen _ (List.contains_iff_mem.1 hin)
          refine ⟨r, s, ?_, hform, ⟨i, hi⟩, hkey, rfl⟩
          exact (List.singleton_sublist.2 hr).append (List.singleton_sublist.2 List.mem_cons_self)
        · exact happ ▸ ih _ hmore h
      · refine happ ▸ ih _ (List.forall_mem_cons.2 ⟨⟨s, by simp, ⟨i, hi⟩, rfl⟩, hmore⟩) h
    · exact happ ▸ ih _ hmore h

/-- **What is dropped of a script** are repeats. -/
theorem isRepeat_of_mem {e : Extent} (h : e ∈ repeated t [] (parse t).statements) : IsRepeat t e := by
  obtain ⟨s, s', hs, ⟨i, hi⟩, ⟨i', hi'⟩, hkey, rfl⟩ :=
    exists_of_mem_repeated [] (List.forall_mem_nil _) h
  rw [List.nil_append] at hs
  have hmem : s' ∈ (parse t).statements := hs.subset (by simp)
  obtain ⟨x, m, y, ht, hextent, hrests⟩ := exists_import hmem hi'
  obtain ⟨a, u, v, b, rfl, rfl, ha, hu, hv, hlines⟩ := exists_wholeLines (m := 'i' :: m) (y := y) hrests
  have hkey' : keyOf t s' = collapse ('i' :: m) := by
    rw [keyOf, hextent, ht, slice_between]
  rw [hextent, ht, hlines, ← ht]
  exact .mk (b := b) hs hi hi' (hkey.trans hkey') (by rw [ht]; simp) hextent
    (fun c hc => (hu c hc).1) hv ha

/-! ### Names do not come about -/

/-- A name begins nowhere in the text, however the text goes on. -/
def Shut (name x : List Char) : Prop := ∀ s, s <:+ x → s ≠ [] → ∀ r, beginsWith name (s ++ r) = false

section

variable {name x y : List Char}

lemma Shut.suffix (h : Shut name x) (hy : y <:+ x) : Shut name y :=
  fun s hs => h s (hs.trans hy)

lemma Shut.lacks_append (h : Shut name x) (hy : Lacks name y) : Lacks name (x ++ y) := by
  intro s hs
  rcases List.suffix_or_suffix_of_suffix hs (List.suffix_append x y) with hin | ⟨u, rfl⟩
  · exact hy s hin
  · by_cases hu : u = []
    · rw [hu]
      exact hy _ (List.suffix_refl _)
    · exact h u (List.suffix_append_self_iff.1 hs) hu y

end

/-- A sign that a pause ends with. -/
def isPause (c : Char) : Bool := isGap c || [';', '}', ')', '*'].contains c

lemma isPause_capital {c : Char} (hlow : 65 ≤ c.toNat) (hhigh : c.toNat ≤ 90) :
    isPause c = false := by
  have hne : ∀ d : Char, d.toNat < 65 ∨ 90 < d.toNat → c ≠ d := by
    rintro d hd rfl
    omega
  have hblank : isBlank c = false := by
    simp only [isBlank, Bool.or_eq_false_iff, Bool.and_eq_false_iff, decide_eq_false_iff_not,
      beq_eq_false_iff_ne, ne_eq]
    omega
  simp [isPause, isGap, hblank, hne]

/-- No sign of a pause stands in a closing tag. -/
lemma notMem_closing {k : Kind} {c : Char} (h : isPause c = true) : c.toLower ∉ k.closing := by
  rcases toLower_cases c with hc | ⟨hlow, hhigh, -⟩
  · have hclosing : (k.closing.all fun d => !isPause d) = true := by cases k <;> decide
    rw [hc]
    intro hmem
    have hno := List.all_eq_true.1 hclosing c hmem
    rw [h] at hno
    cases hno
  · rw [isPause_capital hlow hhigh] at h
    cases h

/-- A tag that has begun in front of a pause has a sign of it. -/
lemma exists_isPause {s x : List Char} (hx : Pauses x) (hs : '<' :: s <:+ x) :
    ∃ c ∈ '<' :: s, isPause c = true := by
  obtain ⟨p, hp⟩ := hs
  cases hx with
  | sign x hc =>
    obtain ⟨u, hu⟩ : ∃ u, '<' :: s = u ++ [_] :=
      List.getLast?_eq_some_iff.1 (by
        have hlast := congrArg List.getLast? hp
        rwa [List.getLast?_append_of_ne_nil _ (List.cons_ne_nil _ _), List.getLast?_concat] at hlast)
    refine ⟨_, hu ▸ List.mem_append_right u (List.mem_singleton_self _), ?_⟩
    rw [isPause, Bool.or_eq_true]
    refine hc.imp_right fun hc => ?_
    rw [List.contains_iff_mem]
    exact List.mem_append_left ['*'] hc
  | comment x =>
    refine ⟨'*', ?_, by decide⟩
    rcases List.append_eq_append_iff.1 hp with ⟨u, -, hu⟩ | ⟨u, -, hu⟩
    · rw [hu]
      simp
    · have hin : '<' ∈ ['*', '/'] := hu ▸ List.mem_append_right u List.mem_cons_self
      exact absurd hin (by decide)

/-- **Where nothing is unfinished** no closing tag has begun. -/
lemma shut_of_rests {k : Kind} {x : List Char} (hx : Rests x) (hlacks : Lacks k.closing x) :
    Shut k.closing x := by
  intro s hs hne r
  rw [Bool.eq_false_iff]
  intro hbegins
  obtain ⟨z, hz⟩ := startsTag_of_beginsWith (isTagName_closing k) hbegins
  obtain ⟨c, s, rfl⟩ := List.exists_cons_of_ne_nil hne
  obtain rfl : c = '<' := (List.cons.inj hz).1
  obtain ⟨m, w, hm, hname⟩ := beginsWith_iff.1 hbegins
  rcases List.append_eq_append_iff.1 hm with ⟨u, rfl, -⟩ | ⟨u, hu, -⟩
  · have hpauses : Pauses x := hx.resolve_left fun hnil => by
      rw [hnil] at hs
      exact List.cons_ne_nil _ _ (List.suffix_nil.1 hs)
    obtain ⟨c, hc, hpause⟩ := exists_isPause hpauses hs
    refine notMem_closing hpause (k := k) ?_
    rw [← hname]
    exact List.mem_map_of_mem (List.mem_append_left u hc)
  · have hin : beginsWith k.closing ('<' :: s) = true := beginsWith_iff.2 ⟨m, u, hu, hname⟩
    rw [hlacks _ hs] at hin
    cases hin

/-! ### A script without its repeats -/

/-- The script without its repeats. -/
def withoutRepeats (t : List Char) : List Char :=
  splice t 0 ((repeated t [] (parse t).statements).map (·, []))

lemma IsRepeat.exists_cut {e : Extent} (h : IsRepeat t e) :
    ∃ a m b, t = a ++ (m ++ b) ∧ e = ⟨width a, width a + width m⟩ ∧ Rests a := by
  cases h with
  | mk _ _ _ _ ht _ _ _ ha => exact ⟨_, _, _, ht, rfl, ha⟩

/-- No closing tag comes about where repeats are dropped. -/
lemma lacks_splice {k : Kind} {es : List Extent} (hes : ∀ e ∈ es, IsRepeat t e)
    (hlacks : Lacks k.closing t) {u v : List Char} (hu : t = u ++ v) :
    Lacks k.closing (splice t (width u) (es.map (·, []))) := by
  induction es generalizing u v with
  | nil =>
    rw [List.map_nil, splice, hu, dropWidth_width]
    exact hlacks.suffix (hu ▸ List.suffix_append u v)
  | cons e es ih =>
    obtain ⟨he, hmore⟩ := List.forall_mem_cons.1 hes
    obtain ⟨x, m, y, ht, rfl, hx⟩ := he.exists_cut
    have hlacksx : Lacks k.closing x := by
      rw [lacks_iff] at hlacks ⊢
      intro n hn hin
      exact hlacks n hn (hin.trans (ht ▸ (List.prefix_append x _).isInfix))
    obtain ⟨c, hc, hslice⟩ := exists_slice hu ht
    have hcopied : slice (width u) (width x) t = c := by simpa using hslice [] []
    have hrest := ih hmore (ht.trans (List.append_assoc x m y).symm)
    rw [List.map_cons, splice, hcopied, List.append_nil, ← width_append]
    exact ((shut_of_rests hx hlacksx).suffix hc).lacks_append hrest

/-- A script without its repeats has no closing tag. -/
lemma lacks_withoutRepeats {k : Kind} (h : Lacks k.closing t) :
    Lacks k.closing (withoutRepeats t) :=
  lacks_splice (fun _ => isRepeat_of_mem) h (u := []) rfl

/-- Repeats are dropped from a part of a text as they are from the part by itself. -/
lemma splice_within {a b : List Char} {es : List Extent} {rest : List (Extent × List Char)}
    (hes : ∀ e ∈ es, IsRepeat t e) (hrest : ∀ e ∈ rest, width a + width t ≤ e.1.first)
    {u v : List Char} (hu : t = u ++ v) :
    splice (a ++ (t ++ b)) (width a + width u)
        ((es.map fun e => ⟨width a + e.first, width a + e.last⟩).map (·, []) ++ rest) =
      splice t (width u) (es.map (·, [])) ++ splice (a ++ (t ++ b)) (width a + width t) rest := by
  induction es generalizing u v with
  | nil =>
    have hcopy : splice (a ++ u ++ (v ++ b)) (width (a ++ u)) rest =
        v ++ splice (a ++ u ++ (v ++ b)) (width (a ++ u) + width v) rest := by
      refine splice_copy (a ++ u) v b fun e he => ?_
      have := hrest e he
      rw [hu, width_append] at this
      rw [width_append]
      omega
    have hrow : a ++ u ++ (v ++ b) = a ++ (t ++ b) := by simp [hu]
    have hplace : width (a ++ u) + width v = width a + width t := by
      rw [hu, width_append, width_append, Nat.add_assoc]
    have hleft : splice t (width u) [] = v := by rw [splice, hu, dropWidth_width]
    rw [hrow, hplace, width_append] at hcopy
    rw [List.map_nil, List.map_nil, List.nil_append, hleft, hcopy]
  | cons e es ih =>
    obtain ⟨he, hmore⟩ := List.forall_mem_cons.1 hes
    obtain ⟨x, m, y, ht, rfl, -⟩ := he.exists_cut
    obtain ⟨c, -, hslice⟩ := exists_slice hu ht
    have hcopied : slice (width u) (width x) t = c := by simpa using hslice [] []
    have hrest' := ih hmore (ht.trans (List.append_assoc x m y).symm)
    rw [width_append] at hrest'
    simp only [List.map_cons, List.cons_append, splice, hcopied, hslice, hrest', List.append_assoc,
      List.append_nil]

/-! ### Blocks -/

/-- The block without the repeats of its script. -/
def leaveOut (b : Block) : Block :=
  if b.kind = .script then { b with content := withoutRepeats b.content } else b

/-- What is dropped of the scripts of some blocks, the first of which starts at `place`. -/
def droppedFrom (place : Nat) (bs : List Block) : List (Extent × List Char) :=
  ((scriptTexts place bs).flatMap fun p => droppedIn p.2 p.1).map (·, [])

lemma droppedFrom_cons (place : Nat) (b : Block) (bs : List Block) :
    droppedFrom place (b :: bs) =
      (if b.kind = .script then
        (droppedIn b.content (place + width b.gap + width b.tag)).map (·, []) else []) ++
      droppedFrom (place + width b.text) bs := by
  rw [droppedFrom, scriptTexts, List.flatMap_append, List.map_append, ← droppedFrom]
  split <;> simp

lemma le_of_mem_droppedFrom {place : Nat} {bs : List Block} {e : Extent × List Char}
    (h : e ∈ droppedFrom place bs) : place ≤ e.1.first := by
  obtain ⟨d, hd, rfl⟩ := List.mem_map.1 h
  obtain ⟨p, hp, hd⟩ := List.mem_flatMap.1 hd
  obtain ⟨f, -, rfl⟩ := List.mem_map.1 hd
  exact Nat.le_add_right_of_le (le_of_mem_scriptTexts hp)

/-- Repeats are dropped from a script, and what stands around it is copied. -/
lemma splice_script (a opening c close r : List Char) {rest : List (Extent × List Char)}
    (hrest : ∀ e ∈ rest, width (a ++ opening ++ c ++ close) ≤ e.1.first) :
    splice (a ++ opening ++ c ++ close ++ r) (width a)
        ((droppedIn c (width (a ++ opening))).map (·, []) ++ rest) =
      opening ++ withoutRepeats c ++ close ++
        splice (a ++ opening ++ c ++ close ++ r) (width (a ++ opening ++ c ++ close)) rest := by
  have hall : ∀ e ∈ (droppedIn c (width (a ++ opening))).map (·, []) ++ rest,
      width a + width opening ≤ e.1.first := by
    intro e he
    rcases List.mem_append.1 he with he | he
    · obtain ⟨d, hd, rfl⟩ := List.mem_map.1 he
      obtain ⟨f, -, rfl⟩ := List.mem_map.1 hd
      rw [width_append]
      exact Nat.le_add_right _ _
    · have := hrest e he
      simp only [width_append] at this
      omega
  have hwithin : ∀ e ∈ rest, width (a ++ opening) + width c ≤ e.1.first := by
    intro e he
    have := hrest e he
    simp only [width_append] at this ⊢
    omega
  have hbehind : ∀ e ∈ rest, width (a ++ opening ++ c) + width close ≤ e.1.first := by
    intro e he
    rw [← width_append]
    exact hrest e he
  have hopening := splice_copy a opening (c ++ close ++ r) hall
  have hscript := splice_within (a := a ++ opening) (b := close ++ r) (t := c) (u := [])
    (fun _ => isRepeat_of_mem) hwithin rfl
  have hclosing := splice_copy (a ++ opening ++ c) close r hbehind
  rw [width_nil, Nat.add_zero] at hscript
  simp only [← width_append, List.append_assoc] at hopening hscript hclosing ⊢
  rw [hopening, droppedIn, hscript, hclosing]
  rfl

/-- Block by block the repeats are left out. -/
lemma splice_droppedFrom (a : List Char) (bs : List Block) (t : List Char) :
    splice (a ++ textOf bs t) (width a) (droppedFrom (width a) bs) = textOf (bs.map leaveOut) t := by
  induction bs generalizing a with
  | nil => exact dropWidth_width a t
  | cons b bs ih =>
    have hnext := ih (a ++ b.text)
    have hbehind : ∀ e ∈ droppedFrom (width (a ++ b.text)) bs, width (a ++ b.text) ≤ e.1.first :=
      fun e he => le_of_mem_droppedFrom he
    rw [droppedFrom_cons, List.map_cons, leaveOut, ← width_append, ← width_append, ← width_append]
    rw [List.append_assoc, ← textOf_eq] at hnext
    split
    · have hrow : a ++ (b.gap ++ b.tag) ++ b.content ++ b.close = a ++ b.text := by
        simp [Block.text, Block.element]
      have hblock := splice_script a (b.gap ++ b.tag) b.content b.close (textOf bs t)
        (hrow.symm ▸ hbehind)
      rw [hrow, List.append_assoc a b.text, ← textOf_eq, hnext, ← List.append_assoc a b.gap] at hblock
      rw [hblock, textOf_cons]
      simp
    · rw [width_append] at hbehind
      have hcopy := splice_copy a b.text (textOf bs t) hbehind
      rw [← textOf_eq, ← width_append, hnext] at hcopy
      rw [List.nil_append, hcopy, textOf_eq]

lemma laidOut_leaveOut {bs : List Block} (h : LaidOut bs t) : LaidOut (bs.map leaveOut) t := by
  have begins {b : Block} (hb : b.Begins) : (leaveOut b).Begins := by
    unfold leaveOut
    split
    · exact { hb with content := lacks_withoutRepeats hb.content }
    · exact hb
  have ends {b : Block} : (leaveOut b).kind = b.kind ∧ (leaveOut b).close = b.close := by
    unfold leaveOut
    split <;> exact ⟨rfl, rfl⟩
  induction h with
  | tail h => exact .tail h
  | @closed b _ _ hb hc h ih =>
    refine .closed (begins hb) ?_ ih
    rwa [ends.1, ends.2]
  | @broken b hb hc =>
    refine .broken (begins hb) ?_
    rwa [ends.1, ends.2]

lemma scriptContents_leaveOut (bs : List Block) :
    scriptContents (bs.map leaveOut) = (scriptContents bs).map withoutRepeats := by
  induction bs with
  | nil => rfl
  | cons b bs ih =>
    rw [scriptContents, scriptContents] at ih ⊢
    rw [List.map_cons, List.filter_cons, List.filter_cons]
    obtain ⟨gap, kind, tag, content, close⟩ := b
    cases kind with
    | script => exact congrArg (withoutRepeats content :: ·) ih
    | style => exact ih

/-- What is dropped of a row of blocks. -/
lemma flatMap_droppedIn {bs : List Block} (h : LaidOut bs t) :
    ((scripts (textOf bs t)).flatMap fun e =>
      droppedIn (e.content.of (textOf bs t)) e.content.first) =
      (scriptTexts 0 bs).flatMap fun p => droppedIn p.2 p.1 := by
  rw [← h.scripts_eq, List.flatMap_map]

lemma dropRepeated_textOf {bs : List Block} (h : LaidOut bs t) (hs : scripts (textOf bs t) ≠ []) :
    dropRepeated (textOf bs t) = textOf (bs.map leaveOut) t := by
  have hspliced := splice_droppedFrom [] bs t
  rw [width_nil, List.nil_append, droppedFrom, ← flatMap_droppedIn h] at hspliced
  rw [dropRepeated, ← hspliced]
  cases hscripts : scripts (textOf bs t) with
  | nil => exact absurd hscripts hs
  | cons e es => rfl

/-- **The scripts of a source whose repeated imports are dropped**. -/
theorem contentsOf_dropRepeated {source : List Char} (h : scripts source ≠ []) :
    contentsOf (dropRepeated source) = (contentsOf source).map withoutRepeats := by
  obtain ⟨bs, t, hl, rfl⟩ := exists_laidOut source
  rw [dropRepeated_textOf hl h, contentsOf_textOf (laidOut_leaveOut hl), contentsOf_textOf hl,
    scriptContents_leaveOut]

end Mender.Component
