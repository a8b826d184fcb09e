import Mender.Proofs.Reply.Kept
import Mender.Proofs.Reply.Fenced

/-!
Replies without the first mark.

Such a reply is read from its first brace or bracket on. Failing that, its balanced blocks are
tried, the longest first. The text of an object is a block, and it is the first one when no brace
stands around it.
-/

namespace Mender.Reply

open Mender.Text

/-! ### What is tried -/

/-- The first balanced block that can be read, or the last refusal. -/
def searched (allowLists : Bool) (raw text : List Char) (last : Option Refusal) : Extraction :=
  (tryBlocks allowLists (balancedBlocks text)).getD
    (.failed (last.getD (if raw.any isOpener then .malformed else .noStructure))
      (raw.take fragmentLimit))

/-- What is made of a reply whose text is tried as `verdict`. -/
def settled (allowLists : Bool) (raw text : List Char) : Attempt → Extraction
  | .parsed data => found data .direct text
  | .rejected .listRoot => .failed .listRoot (raw.take fragmentLimit)
  | .rejected refusal => searched allowLists raw text (some refusal)
  | .unreadable => searched allowLists raw text none

lemma extractWith_of_unmarked {raw : List Char} (h : ¬ startMark <:+: dropFences raw)
    (allowLists : Bool) : extractWith allowLists raw =
      settled allowLists raw (dropPreamble (dropFences raw))
        (attempt allowLists (dropPreamble (dropFences raw))) := by
  rw [extractWith, candidates_of_unmarked h, tryAll]
  cases attempt allowLists (dropPreamble (dropFences raw)) with
  | parsed data => rfl
  | unreadable =>
    rw [tryAll, settled, searched]
    cases tryBlocks allowLists (balancedBlocks (dropPreamble (dropFences raw))) <;> rfl
  | rejected refusal =>
    cases refusal with
    | listRoot => rfl
    | _ =>
      simp only [tryAll, settled, searched]
      cases tryBlocks allowLists (balancedBlocks (dropPreamble (dropFences raw))) <;> rfl

lemma exists_of_tryBlocks {allowLists : Bool} {bs : List (List Char)} {e : Extraction}
    (h : tryBlocks allowLists bs = some e) :
    ∃ b ∈ bs, ∃ data, attempt allowLists b = .parsed data ∧ e = found data .balancedBlock b := by
  induction bs with
  | nil => cases h
  | cons b bs ih =>
    rw [tryBlocks] at h
    split at h
    · next hp =>
      cases h
      exact ⟨b, List.mem_cons_self, _, hp, rfl⟩
    · obtain ⟨b', hb', hrest⟩ := ih h
      exact ⟨b', List.mem_cons_of_mem _ hb', hrest⟩

/-- Nothing but what stands between marks is found as such. -/
lemma strategy_of_unmarked {raw : List Char} (h : ¬ startMark <:+: dropFences raw)
    {allowLists : Bool} {data : Json} {fragment : List Char} :
    extractWith allowLists raw ≠ .found data .delimited fragment := by
  have hsearched (last : Option Refusal) (text : List Char) :
      searched allowLists raw text last ≠ .found data .delimited fragment := by
    rw [searched]
    cases hblocks : tryBlocks allowLists (balancedBlocks text) with
    | none =>
      intro heq
      cases heq
    | some e =>
      obtain ⟨b, -, x, -, rfl⟩ := exists_of_tryBlocks hblocks
      intro heq
      cases heq
  rw [extractWith_of_unmarked h]
  unfold settled
  split
  · intro heq
    cases heq
  · intro heq
    cases heq
  · exact hsearched _ _
  · exact hsearched _ _

/-! ### Braces of objects -/

/-- Behind the text as many braces are open as in front of it. -/
def Balanced (u : List Char) : Prop :=
  ∀ d r, closed? (d + 1) .code (u ++ r) = (closed? (d + 1) .code r).map (u ++ ·)

lemma closed?_literal {escaped : Bool} {u : List Char} (h : Json.Literal escaped u)
    (d : Nat) (r : List Char) :
    closed? (d + 1) (if escaped then .escape else .string) (u ++ r) =
      (closed? (d + 1) .code r).map (u ++ ·) := by
  induction h with
  | close => simp [closed?]
  | plain hquote hback _ _ ih => simp [closed?, hquote, hback] at ih ⊢; simp [ih, Function.comp_def]
  | backslash _ ih => simp [closed?] at ih ⊢; simp [ih, Function.comp_def]
  | escape _ _ ih => simp [closed?] at ih ⊢; simp [ih, Function.comp_def]

lemma composes_balanced : Json.Composes Balanced where
  nil := fun d r => by simp
  append := fun ha hb d r => by
    rw [List.append_assoc, ha, hb, Option.map_map]
    simp [Function.comp_def]
  plain := fun {c} hc d r => by
    have hne : ∀ e, Json.isPlain e = false → c ≠ e := by
      rintro e he rfl
      rw [hc] at he
      cases he
    simp [closed?, hne '"' (by decide), hne '{' (by decide), hne '}' (by decide)]
  string := fun {u} h d r => by
    have := closed?_literal h d r
    rw [if_neg Bool.false_ne_true] at this
    simp [closed?, this, Function.comp_def]
  object := fun {w} hw d r => by
    have := hw (d + 1) ('}' :: r)
    simp [closed?, this, Function.comp_def]

/-- The text of an object is closed by its last brace, whatever follows. -/
lemma closed?_object {d : Nat} {fs : List (String × Json)} {u : List Char}
    (h : Json.Spelled d (.obj fs) u) (r : List Char) : closed? 0 .code (u ++ r) = some u := by
  obtain ⟨w, rfl, hw⟩ := composes_balanced.object_inner h
  have := hw 0 ('}' :: r)
  simp [closed?, this]

/-! ### The balanced blocks -/

lemma mem_openings {o t : List Char} : o ∈ openings t ↔ o <:+ t ∧ o.head? = some '{' := by
  induction t with
  | nil =>
    simp only [openings, List.not_mem_nil, List.suffix_nil, false_iff, not_and]
    rintro rfl
    simp
  | cons c t ih =>
    rw [openings, List.suffix_cons_iff]
    split
    · next hc =>
      rw [List.mem_cons, ih]
      constructor
      · rintro (rfl | ⟨ho, hhead⟩)
        · exact ⟨.inl rfl, by rw [hc]; rfl⟩
        · exact ⟨.inr ho, hhead⟩
      · rintro ⟨rfl | ho, hhead⟩
        · exact .inl rfl
        · exact .inr ⟨ho, hhead⟩
    · next hc =>
      rw [ih]
      constructor
      · rintro ⟨ho, hhead⟩
        exact ⟨.inr ho, hhead⟩
      · rintro ⟨rfl | ho, hhead⟩
        · exact absurd (Option.some.inj hhead) hc
        · exact ⟨ho, hhead⟩

/-- A block is the beginning of a text, up to a closing brace. -/
lemma closed?_eq_some {d : Nat} {state : BlockState} {t b : List Char}
    (h : closed? d state t = some b) : ∃ r, t = b ++ r ∧ b.getLast? = some '}' := by
  have hcons : ∀ {d state c r b}, (∀ {b}, closed? d state r = some b →
      ∃ s, r = b ++ s ∧ b.getLast? = some '}') → (closed? d state r).map (c :: ·) = some b →
      ∃ s, c :: r = b ++ s ∧ b.getLast? = some '}' := by
    intro d state c r b ih h
    obtain ⟨b, hb, rfl⟩ := Option.map_eq_some_iff.1 h
    obtain ⟨s, rfl, hlast⟩ := ih hb
    refine ⟨s, rfl, ?_⟩
    rw [List.getLast?_cons, hlast]
    rfl
  fun_induction closed? d state t generalizing b with
  | case1 | case6 => cases h
  | case7 r =>
    cases h
    exact ⟨r, rfl, rfl⟩
  | case2 _ _ _ ih => exact hcons ih h
  | case3 _ _ _ ih => exact hcons ih h
  | case4 _ _ ih => exact hcons ih h
  | case5 _ _ _ ih => exact hcons ih h
  | case8 _ _ _ _ ih => exact hcons ih h
  | case9 _ _ _ _ _ _ ih => exact hcons ih h

lemma loop_eraseReps_subset {r : List Char → List Char → Bool} (a : List Char)
    (l acc : List (List Char)) :
    List.eraseRepsBy.loop r a l acc ⊆ acc.reverse ++ a :: l := by
  induction l generalizing a acc with
  | nil => simp [List.eraseRepsBy.loop]
  | cons b l ih =>
    rw [List.eraseRepsBy.loop]
    split
    · refine List.Subset.trans (ih a acc) fun x hx => ?_
      simp only [List.mem_append, List.mem_cons] at hx ⊢
      tauto
    · refine List.Subset.trans (ih b (a :: acc)) fun x hx => ?_
      simp only [List.mem_append, List.mem_cons, List.mem_reverse] at hx ⊢
      tauto

lemma loop_eraseReps_head {r : List Char → List Char → Bool} (a : List Char)
    (l acc : List (List Char)) :
    ∃ more, List.eraseRepsBy.loop r a l acc = acc.reverse ++ a :: more := by
  induction l generalizing a acc with
  | nil => exact ⟨[], by simp [List.eraseRepsBy.loop]⟩
  | cons b l ih =>
    rw [List.eraseRepsBy.loop]
    split
    · exact ih a acc
    · obtain ⟨more, hmore⟩ := ih b (a :: acc)
      exact ⟨b :: more, by rw [hmore]; simp⟩

/-- The order in which blocks are tried. -/
def notWider (a b : List Char) : Bool := width b ≤ width a

lemma exists_of_mem_balancedBlocks {b t : List Char} (h : b ∈ balancedBlocks t) :
    ∃ o ∈ openings t, closed? 0 .code o = some b := by
  rw [balancedBlocks] at h
  have hmem : b ∈ ((openings t).take openingLimit).filterMap (closed? 0 .code) := by
    rw [← @List.mem_mergeSort _ notWider]
    unfold List.eraseReps List.eraseRepsBy at h
    split at h
    · cases h
    · next hsort => exact hsort ▸ loop_eraseReps_subset _ _ _ h
  obtain ⟨o, ho, hb⟩ := List.mem_filterMap.1 hmem
  exact ⟨o, (List.take_subset _ _) ho, hb⟩

/-- A first block that none is wider than is tried first. -/
lemma head?_balancedBlocks {t u : List Char} {bs : List (List Char)}
    (h : ((openings t).take openingLimit).filterMap (closed? 0 .code) = u :: bs)
    (hbs : ∀ b ∈ bs, width b ≤ width u) : (balancedBlocks t).head? = some u := by
  have htrans : ∀ a b c, notWider a b = true → notWider b c = true → notWider a c = true := by
    simp only [notWider, decide_eq_true_eq]
    omega
  have htotal : ∀ a b, (notWider a b || notWider b a) = true := by
    simp only [notWider, Bool.or_eq_true, decide_eq_true_eq]
    omega
  obtain ⟨l₁, l₂, hsort, hrest, hless⟩ := List.mergeSort_cons htrans htotal u bs
  have hnil : l₁ = [] := List.eq_nil_iff_forall_not_mem.2 fun b hb => by
    have hmem : b ∈ bs := by
      rw [← @List.mem_mergeSort _ notWider, hrest]
      exact List.mem_append_left _ hb
    have := hless b hb
    simp [notWider, hbs b hmem] at this
  rw [hnil, List.nil_append] at hsort
  obtain ⟨more, hmore⟩ := loop_eraseReps_head (r := fun a b => a == b) u l₂ []
  have hblocks : balancedBlocks t = ((u :: bs).mergeSort notWider).eraseReps := by
    rw [balancedBlocks, h]
    rfl
  rw [hblocks, hsort, List.eraseReps, List.eraseRepsBy, hmore]
  rfl

/-- What ends in a closing brace does not reach into a text without one. -/
lemma width_le_of_closed {x b r v s : List Char} (h : x ++ (b ++ r) = v ++ s)
    (hlast : b.getLast? = some '}') (hs : '}' ∉ s) : width b ≤ width v := by
  obtain ⟨b, rfl⟩ := List.getLast?_eq_some_iff.1 hlast
  have hsplit : x ++ b ++ '}' :: r = v ++ s := by rw [← h]; simp
  rcases List.append_eq_append_iff.1 hsplit with ⟨v', hv, hr⟩ | ⟨s', -, hr⟩
  · rcases List.cons_eq_append_iff.1 hr with ⟨-, hs'⟩ | ⟨v', rfl, -⟩
    · exact absurd (hs' ▸ List.mem_cons_self) hs
    · rw [hv]
      simp only [width_append, width_cons, width_nil]
      omega
  · exact absurd (hr ▸ List.mem_append_right s' List.mem_cons_self) hs

/-- **The text of an object is the first block** of the text that it begins, when no closing brace
follows. -/
theorem head?_balancedBlocks_object {d : Nat} {fs : List (String × Json)} {u : List Char}
    (h : Json.Spelled d (.obj fs) u) {s : List Char} (hs : '}' ∉ s) :
    (balancedBlocks (u ++ s)).head? = some u := by
  have hclosed := closed?_object h s
  obtain ⟨w, rfl⟩ := h.object
  have hopen : openings ('{' :: (w ++ ['}']) ++ s) =
      ('{' :: (w ++ ['}']) ++ s) :: openings (w ++ ['}'] ++ s) := rfl
  have hblocks : ((openings ('{' :: (w ++ ['}']) ++ s)).take openingLimit).filterMap
      (closed? 0 .code) = ('{' :: (w ++ ['}'])) ::
        ((openings (w ++ ['}'] ++ s)).take 63).filterMap (closed? 0 .code) := by
    rw [hopen, openingLimit, List.take_succ_cons, List.filterMap_cons_some hclosed]
  refine head?_balancedBlocks hblocks fun b hb => ?_
  obtain ⟨o, ho, hb⟩ := List.mem_filterMap.1 hb
  obtain ⟨⟨x, hx⟩, -⟩ := mem_openings.1 (List.take_subset _ _ ho)
  obtain ⟨r, rfl, hlast⟩ := closed?_eq_some hb
  have := width_le_of_closed hx hlast hs
  simp only [width_cons]
  omega

/-- A block that can be read is an object. -/
lemma attempt_block {t b : List Char} (h : b ∈ balancedBlocks t) (allowLists : Bool) :
    read? b = none ∧ attempt allowLists b = .unreadable ∨
      ∃ fs, read? b = some (.obj fs) ∧ attempt allowLists b = .parsed (.obj fs) := by
  obtain ⟨o, ho, hb⟩ := exists_of_mem_balancedBlocks h
  obtain ⟨o, rfl⟩ := List.head?_eq_some_iff.1 (mem_openings.1 ho).2
  obtain ⟨r, hr, hlast⟩ := closed?_eq_some hb
  obtain ⟨w, rfl⟩ := List.getLast?_eq_some_iff.1 hlast
  -- a block begins with the brace that it closes
  obtain ⟨w, rfl⟩ : ∃ w', w = '{' :: w' := by
    cases w with
    | nil => exact absurd (List.cons.inj hr).1 (by decide)
    | cons c w => exact ⟨w, by rw [(List.cons.inj hr).1]⟩
  have htrim : trim ('{' :: w ++ ['}']) = '{' :: w ++ ['}'] :=
    trim_cons_concat (by decide) (by decide) w
  have hread : ∀ v, read? ('{' :: w ++ ['}']) = some v → ∃ fs, v = .obj fs := by
    intro v hv
    rcases Option.or_eq_some_iff.1 hv with hv | ⟨-, hv⟩
    · exact Json.exists_object_of_brace hv
    · obtain ⟨r, hr⟩ := exists_mendEscapes_brace (w ++ ['}'])
      rw [List.cons_append, hr] at hv
      exact Json.exists_object_of_brace hv
  rw [attempt_eq (by rw [htrim]; simp), htrim]
  cases hv : read? ('{' :: w ++ ['}']) with
  | none => exact .inl ⟨rfl, rfl⟩
  | some v =>
    obtain ⟨fs, rfl⟩ := hread v hv
    exact .inr ⟨fs, rfl, rfl⟩

lemma tryBlocks_eq_none_iff {allowLists : Bool} {bs : List (List Char)} :
    tryBlocks allowLists bs = none ↔ ∀ b ∈ bs, ∀ data, attempt allowLists b ≠ .parsed data := by
  induction bs with
  | nil => simp [tryBlocks]
  | cons b bs ih =>
    rw [tryBlocks, List.forall_mem_cons]
    split
    · next data hp => simp [hp]
    · next hp =>
      rw [ih]
      exact (and_iff_right fun data hd => hp data hd).symm

section Search

variable (allowLists : Bool) (raw t : List Char) (last : Option Refusal)

/-- A search finds objects only. -/
lemma exists_searched_data {data : Json}
    (h : (searched allowLists raw t last).data? = some data) : ∃ fs, data = .obj fs := by
  rw [searched] at h
  cases hblocks : tryBlocks allowLists (balancedBlocks t) with
  | none =>
    rw [hblocks] at h
    cases h
  | some e =>
    obtain ⟨b, hb, x, hx, rfl⟩ := exists_of_tryBlocks hblocks
    rw [hblocks] at h
    cases h
    rcases attempt_block hb allowLists with ⟨-, hp⟩ | ⟨fs, -, hp⟩
    · rw [hp] at hx
      cases hx
    · rw [hp] at hx
      cases hx
      exact ⟨fs, rfl⟩

/-- A search fails when no block can be read. -/
lemma isFailure_searched_iff : (searched allowLists raw t last).isFailure = true ↔
    ∀ b ∈ balancedBlocks t, read? b = none := by
  have hnone : tryBlocks allowLists (balancedBlocks t) = none ↔
      ∀ b ∈ balancedBlocks t, read? b = none := by
    rw [tryBlocks_eq_none_iff]
    refine forall₂_congr fun b hb => ?_
    rcases attempt_block hb allowLists with ⟨hr, hp⟩ | ⟨fs, hr, hp⟩
    · simp [hr, hp]
    · simp [hr, hp]
  rw [← hnone, searched]
  cases hblocks : tryBlocks allowLists (balancedBlocks t) with
  | none => simp [Extraction.isFailure]
  | some e =>
    obtain ⟨b, -, x, -, rfl⟩ := exists_of_tryBlocks hblocks
    simp [found, Extraction.isFailure]

/-- Other than a text that is tried, a search refuses no list. -/
lemma searched_ne_listRoot (hl : last ≠ some .listRoot) (fragment : List Char) :
    searched allowLists raw t last ≠ .failed .listRoot fragment := by
  rw [searched]
  cases hblocks : tryBlocks allowLists (balancedBlocks t) with
  | none =>
    cases last with
    | none =>
      intro h
      rw [Option.getD_none, Option.getD_none] at h
      split_ifs at h <;> cases h
    | some refusal =>
      intro h
      cases h
      exact hl rfl
  | some e =>
    obtain ⟨b, -, x, -, rfl⟩ := exists_of_tryBlocks hblocks
    intro h
    cases h

end Search

/-- **The search finds the object** that the text begins with. -/
lemma searched_object {fs : List (String × Json)} {u s : List Char}
    (h : Json.Spelled Json.depthLimit (.obj fs) u) (hs : '}' ∉ s) (allowLists : Bool)
    (raw : List Char) (last : Option Refusal) :
    searched allowLists raw (u ++ s) last = found (.obj fs) .balancedBlock u := by
  have hparse : Json.parse? u = some (.obj fs) :=
    Json.parse?_eq_some_iff.2 ⟨[], u, [], by simp, Json.spaces_nil, Json.spaces_nil, h⟩
  obtain ⟨more, hmore⟩ := List.head?_eq_some_iff.1 (head?_balancedBlocks_object h hs)
  have hfirst := (attempt_of_parse? hparse (by simp [Json.closer]) allowLists).1
  rw [searched, hmore, tryBlocks, hfirst]
  rfl

end Mender.Reply
