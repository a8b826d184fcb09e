import Mender.Proofs.Component.Filled

/-!
The text of a source that is prepared.

It is put together from the blocks of the source, with lines in one of the scripts or in a script of
their own. Either way it is that of some blocks filled in.
-/

namespace Mender.Component

open Mender.Text Mender.Markup Mender.Script Mender.Module

variable {keys : List String} {xs : List Task} {tail : List Char}

/-! ### Replacements and additions -/

/-- One text comes from another by replacements of some stretches and by some texts put in. -/
def IsEdit (old new : List Char) (swapped : List (Extent × List Char)) (put : List (List Char)) : Prop :=
  ∃ ps, oldText ps = old ∧ newText ps = new ∧ swaps 0 ps = swapped ∧ added ps = put

lemma insertAt_append {place : Nat} {new : List Char} {es fs : List (Extent × List Char)}
    (hes : ∀ e ∈ es, e.1.first < place) (hfs : ∀ f ∈ fs, place ≤ f.1.first) :
    insertAt place new (es ++ fs) = es ++ (⟨place, place⟩, new) :: fs := by
  induction es with
  | nil =>
    cases fs with
    | nil => rfl
    | cons f fs => exact if_pos (hfs f List.mem_cons_self)
  | cons e es ih =>
    obtain ⟨he, hes⟩ := List.forall_mem_cons.1 hes
    rw [List.cons_append, insertAt, if_neg (Nat.not_le.2 he), ih hes, List.cons_append]

/-- An addition among replacements is an insertion. -/
lemma edits_insertAt {ps qs : List Module.Piece} {new : List Char} (hps : added ps = [])
    (hqs : added qs = []) (hfirst : ∀ e ∈ swaps 0 ps, e.1.first < width (oldText ps)) :
    edits 0 (ps ++ .added new :: qs) =
      insertAt (width (oldText ps)) new (swaps 0 (ps ++ .added new :: qs)) := by
  have hswaps : swaps 0 (ps ++ .added new :: qs) = swaps 0 ps ++ swaps (width (oldText ps)) qs := by
    have hadded (place : Nat) : swaps place (.added new :: qs) = swaps (place + 0) qs := rfl
    rw [swaps_append, hadded, Nat.add_zero, Nat.zero_add]
  have hlast : ∀ f ∈ swaps (width (oldText ps)) qs, width (oldText ps) ≤ f.1.first := by
    rw [← edits_eq_swaps hqs]
    exact fun f hf => (edits_within hf).1
  rw [hswaps, insertAt_append hfirst hlast, edits_append, edits_eq_swaps hps, Nat.zero_add, edits]
  · rw [Piece.old, width_nil, Nat.add_zero, edits_eq_swaps hqs]
    rfl
  · intro t ht
    cases ht

/-! ### Stand-ins for modules only -/

/-- The tasks of a source whose tags are all bound. -/
def plainTasks (bs : List Block) : List Task := bs.map Task.plain

@[simp] lemma blocksOf_plainTasks (bs : List Block) : blocksOf (plainTasks bs) = bs := by
  simp [blocksOf, plainTasks, Function.comp_def, Task.plain]

@[simp] lemma namesFor_plainTasks (bs : List Block) : namesFor (plainTasks bs) = [] :=
  List.flatMap_eq_nil_iff.2 fun x hx => by
    obtain ⟨b, -, rfl⟩ := List.mem_map.1 hx
    rfl

lemma added_sourcePieces : added (sourcePieces keys xs tail) =
    xs.flatMap fun x => if x.names = [] then [] else [x.lines] := by
  induction xs with
  | nil => rfl
  | cons x xs ih =>
    rw [sourcePieces, List.flatMap_cons, List.append_assoc, added_append, added_pieces, ← sourcePieces,
      ih, List.flatMap_cons]

@[simp] lemma added_plainTasks (bs : List Block) : added (sourcePieces keys (plainTasks bs) tail) = [] := by
  rw [added_sourcePieces]
  refine List.flatMap_eq_nil_iff.2 fun x hx => ?_
  obtain ⟨b, -, rfl⟩ := List.mem_map.1 hx
  rfl

section

variable {bs : List Block} (h : LaidOut bs tail)

include h

lemma swaps_plainTasks : swaps 0 (sourcePieces keys (plainTasks bs) tail) =
    (missingImports keys (textOf bs tail)).map redirection := by
  have hlaid : LaidOut (blocksOf (plainTasks bs)) tail := by rwa [blocksOf_plainTasks]
  have hswaps : swaps 0 (sourcePieces keys (plainTasks bs) tail) = _ := swaps_missingImports hlaid
  rwa [blocksOf_plainTasks] at hswaps

/-- The redirections of a source put it together from its blocks. -/
lemma splice_plainTasks :
    splice (textOf bs tail) 0 ((missingImports keys (textOf bs tail)).map redirection) =
      textOf (filledBlocks keys (plainTasks bs)) tail := by
  have hold : oldText (sourcePieces keys (plainTasks bs) tail) = textOf bs tail := by
    rw [oldText_sourcePieces, blocksOf_plainTasks]
  have hsplice := splice_edits [] (sourcePieces keys (plainTasks bs) tail)
  rw [← newText_sourcePieces, ← hsplice, List.nil_append, width_nil, edits_eq_swaps (added_plainTasks bs),
    swaps_plainTasks h, hold]

lemma isEdit_plainTasks : IsEdit (textOf bs tail) (textOf (filledBlocks keys (plainTasks bs)) tail)
    ((missingImports keys (textOf bs tail)).map redirection) [] :=
  ⟨sourcePieces keys (plainTasks bs) tail, by rw [oldText_sourcePieces, blocksOf_plainTasks],
    newText_sourcePieces, swaps_plainTasks h, added_plainTasks bs⟩

end

/-! ### Lines in the instance script -/

section

variable {as cs : List Block} {b : Block} {ns : List String}

/-- The tasks of a source with lines for one of its scripts. -/
def tasksWith (as : List Block) (b : Block) (hb : b.kind = .script) (cs : List Block) (ns : List String) :
    List Task :=
  plainTasks as ++ ⟨ns, b, .inr hb⟩ :: plainTasks cs

variable (hb : b.kind = .script)

@[simp] lemma blocksOf_tasksWith : blocksOf (tasksWith as b hb cs ns) = as ++ b :: cs := by
  rw [blocksOf, tasksWith, List.map_append, List.map_cons, ← blocksOf, ← blocksOf, blocksOf_plainTasks,
    blocksOf_plainTasks]

@[simp] lemma namesFor_tasksWith : namesFor (tasksWith as b hb cs ns) = ns := by
  rw [namesFor, tasksWith, List.flatMap_append, List.flatMap_cons, ← namesFor, ← namesFor,
    namesFor_plainTasks, namesFor_plainTasks, List.nil_append, List.append_nil]

lemma added_tasksWith (hns : ns ≠ []) : added (sourcePieces keys (tasksWith as b hb cs ns) tail) =
    [importLines (ns.map standInForTag)] := by
  have hplain (bs : List Block) :
      ((plainTasks bs).flatMap fun x => if x.names = [] then [] else [x.lines]) = [] := by
    have hadded : added (sourcePieces [] (plainTasks bs) []) = [] := added_plainTasks bs
    rwa [added_sourcePieces] at hadded
  rw [added_sourcePieces, tasksWith, List.flatMap_append, List.flatMap_cons, hplain, hplain, if_neg hns]
  rfl

/-- The pieces before and behind the lines. -/
lemma sourcePieces_tasksWith (hns : ns ≠ []) : sourcePieces keys (tasksWith as b hb cs ns) tail =
    ((plainTasks as).flatMap (·.pieces keys) ++ [.kept b.gap, .kept b.tag]) ++
      .added (importLines (ns.map standInForTag)) ::
        (scriptPieces keys b.content ++ .kept b.close :: sourcePieces keys (plainTasks cs) tail) := by
  have hpieces : (⟨ns, b, .inr hb⟩ : Task).pieces keys = [.kept b.gap, .kept b.tag] ++
      (.added (importLines (ns.map standInForTag)) :: (scriptPieces keys b.content ++ [.kept b.close])) := by
    simp only [Task.pieces, Task.linePieces, if_neg hns, Task.contentPieces, if_pos hb]
    rfl
  rw [sourcePieces, tasksWith, List.flatMap_append, List.flatMap_cons, hpieces]
  simp [sourcePieces]

lemma oldText_plainPieces (as : List Block) :
    oldText ((plainTasks as).flatMap (·.pieces keys)) = textOf as [] := by
  have h : oldText (sourcePieces keys (plainTasks as) []) = _ := oldText_sourcePieces
  rw [blocksOf_plainTasks, sourcePieces, oldText_append] at h
  exact (List.append_nil _).symm.trans h

lemma added_plainPieces (as : List Block) : added ((plainTasks as).flatMap (·.pieces keys)) = [] := by
  have h : added (sourcePieces keys (plainTasks as) []) = [] := added_plainTasks as
  rw [sourcePieces, added_append] at h
  exact (List.append_eq_nil_iff.1 h).1

/-- Replacements in front of a tag end before it does. -/
lemma first_lt_of_mem_swaps (hb : b.tag ≠ []) {e : Extent × List Char}
    (he : e ∈ swaps 0 ((plainTasks as).flatMap (·.pieces keys) ++ [.kept b.gap, .kept b.tag])) :
    e.1.first < width (oldText ((plainTasks as).flatMap (·.pieces keys) ++ [.kept b.gap, .kept b.tag])) := by
  have hnone (place : Nat) : swaps place [.kept b.gap, .kept b.tag] = [] := rfl
  have htag : width b.tag ≠ 0 := mt width_eq_zero hb
  rw [swaps_append, hnone, List.append_nil, ← edits_eq_swaps (added_plainPieces as)] at he
  obtain ⟨-, hle, hlast⟩ := edits_within he
  rw [oldText_append, width_append]
  simp only [oldText_cons, Piece.old, width_append]
  omega

/-- **Lines in the instance script** are put in at the start of its content. -/
theorem splice_tasksWith (h : LaidOut (as ++ b :: cs) tail) (hns : ns ≠ []) :
    splice (textOf (as ++ b :: cs) tail) 0
        (insertAt (b.toElement (width (textOf as []))).content.first (importLines (ns.map standInForTag))
          ((missingImports keys (textOf (as ++ b :: cs) tail)).map redirection)) =
      textOf (filledBlocks keys (tasksWith as b hb cs ns)) tail := by
  have hlaid : LaidOut (blocksOf (tasksWith as b hb cs ns)) tail := by rwa [blocksOf_tasksWith]
  have hswaps : swaps 0 (sourcePieces keys (tasksWith as b hb cs ns) tail) = _ := swaps_missingImports hlaid
  have hsplice := splice_edits [] (sourcePieces keys (tasksWith as b hb cs ns) tail)
  have hold : oldText (sourcePieces keys (tasksWith as b hb cs ns) tail) = textOf (as ++ b :: cs) tail := by
    rw [oldText_sourcePieces, blocksOf_tasksWith]
  rw [blocksOf_tasksWith] at hswaps
  have hfirst : width (oldText ((plainTasks as).flatMap (·.pieces keys) ++ [.kept b.gap, .kept b.tag])) =
      (b.toElement (width (textOf as []))).content.first := by
    rw [oldText_append, width_append, oldText_plainPieces]
    simp [oldText, Piece.old, Block.toElement, Nat.add_assoc]
  have hbefore : added ((plainTasks as).flatMap (·.pieces keys) ++ [.kept b.gap, .kept b.tag]) = [] := by
    rw [added_append, added_plainPieces]
    rfl
  have hbehind : added (scriptPieces keys b.content ++ .kept b.close ::
      sourcePieces keys (plainTasks cs) tail) = [] := by
    rw [added_append, scriptPieces, added_cellPieces]
    exact added_plainTasks cs
  have htag : b.tag ≠ [] := by
    obtain ⟨m, c, r, hm, -⟩ := (h.begins b (by simp)).opens
    rw [hm]
    simp
  rw [← newText_sourcePieces, ← hsplice, List.nil_append, width_nil, hold, ← hswaps, ← hfirst,
    sourcePieces_tasksWith hb hns,
    edits_insertAt hbefore hbehind fun e he => first_lt_of_mem_swaps htag he]

end

/-! ### A script of its own for the lines -/

/-- A script with a line end for its content. -/
def emptyScript : Block where
  gap := []
  kind := .script
  tag := "<script>".toList
  content := ['\n']
  close := "</script>".toList

lemma kind_emptyScript : emptyScript.kind = .script := rfl

lemma begins_emptyScript : emptyScript.Begins := by
  refine ⟨quiet_nil, ?_, by decide, ?_⟩
  · exact opens_iff.1 (by decide)
  · intro s hs
    rcases List.suffix_cons_iff.1 hs with rfl | hs
    · decide
    · rw [List.suffix_nil.1 hs]
      rfl

lemma closes_emptyScript : Closes emptyScript.kind emptyScript.close := ⟨by decide, by decide⟩

lemma parse_newline : (parse ['\n']).fault = none := rfl

/-- The blocks with a line end in front. -/
def pushNewline : List Block → List Char → List Block × List Char
  | [], t => ([], '\n' :: t)
  | b :: bs, t => ({ b with gap := '\n' :: b.gap } :: bs, t)

lemma pushNewline_eq (bs : List Block) (t : List Char) : pushNewline bs t = behind ['\n'] bs t := by
  cases bs <;> rfl

lemma laidOut_pushNewline {bs : List Block} (h : LaidOut bs tail) :
    LaidOut (pushNewline bs tail).1 (pushNewline bs tail).2 := by
  rw [pushNewline_eq]
  refine h.behind fun s hs hne k hk => ?_
  -- a line end begins no tag
  obtain rfl : s = ['\n'] := (List.suffix_cons_iff.1 hs).resolve_right (mt List.suffix_nil.1 hne)
  obtain ⟨r, hr⟩ := startsTag_of_beginsWith (isTagName_opening k) hk.beginsWith
  cases hr

lemma scriptContents_pushNewline (bs : List Block) (t : List Char) :
    scriptContents (pushNewline bs t).1 = scriptContents bs := by
  cases bs with
  | nil => rfl
  | cons b bs =>
    obtain ⟨gap, kind, tag, content, close⟩ := b
    cases kind <;> rfl

lemma gaps_pushNewline (bs : List Block) (t : List Char) :
    ((pushNewline bs t).1.map (·.gap) ++ [(pushNewline bs t).2]).flatMap tagNames =
      (bs.map (·.gap) ++ [t]).flatMap tagNames := by
  cases bs with
  | nil => simp [pushNewline, tagNames_newline]
  | cons b bs => simp [pushNewline, tagNames_newline]

lemma textOf_pushNewline (bs : List Block) (t : List Char) :
    textOf (filledBlocks keys (plainTasks (pushNewline bs t).1)) (pushNewline bs t).2 =
      '\n' :: textOf (filledBlocks keys (plainTasks bs)) t := by
  cases bs with
  | nil => rfl
  | cons b bs => rfl

lemma newScript_eq (lines : List Char) :
    newScript lines = "<script>".toList ++ lines ++ "\n</script>\n".toList := rfl

/-- **A script of its own** in front of a source is a block of the new source. -/
lemma textOf_newScript (ns : List String) (bs : List Block) (t : List Char) :
    newScript (importLines (ns.map standInForTag)) ++ textOf (filledBlocks keys (plainTasks bs)) t =
      textOf (filledBlocks keys (tasksWith [] emptyScript kind_emptyScript (pushNewline bs t).1 ns))
        (pushNewline bs t).2 := by
  let x : Task := ⟨ns, emptyScript, .inr kind_emptyScript⟩
  have hcons : filledBlocks keys (tasksWith [] emptyScript kind_emptyScript (pushNewline bs t).1 ns) =
      x.filled keys :: filledBlocks keys (plainTasks (pushNewline bs t).1) := rfl
  have hcontent : x.content keys = importLines (ns.map standInForTag) ++ ['\n'] :=
    if_pos kind_emptyScript
  have hscript : (x.filled keys).text ++ ['\n'] = newScript (importLines (ns.map standInForTag)) := by
    have htext : (x.filled keys).text = "<script>".toList ++ (x.content keys ++ "</script>".toList) := rfl
    have hclose : ['\n'] ++ ("</script>".toList ++ ['\n']) = "\n</script>\n".toList := rfl
    rw [htext, hcontent, newScript_eq, ← hclose]
    simp only [List.append_assoc]
  rw [hcons, textOf_eq, textOf_pushNewline, ← hscript, List.append_assoc, List.singleton_append]

section

variable {bs : List Block} (h : LaidOut bs tail)

include h

lemma laidOut_newScript (ns : List String) :
    LaidOut (blocksOf (tasksWith [] emptyScript kind_emptyScript (pushNewline bs tail).1 ns)) (pushNewline bs tail).2 := by
  rw [blocksOf_tasksWith]
  exact .closed begins_emptyScript closes_emptyScript (laidOut_pushNewline h)

lemma namesBound_newScript (ns : List String) :
    namesBound (textOf (blocksOf (tasksWith [] emptyScript kind_emptyScript (pushNewline bs tail).1 ns))
      (pushNewline bs tail).2) = namesBound (textOf bs tail) := by
  rw [namesBound_eq (laidOut_newScript h ns), namesBound_eq h, ← scriptContents_pushNewline bs tail,
    blocksOf_tasksWith]
  rfl

lemma tags_newScript (ns : List String) :
    (componentTags (textOf (blocksOf (tasksWith [] emptyScript kind_emptyScript (pushNewline bs tail).1 ns))
      (pushNewline bs tail).2)).map (·.name) = (componentTags (textOf bs tail)).map (·.name) := by
  rw [(laidOut_newScript h ns).names_componentTags, h.names_componentTags,
    ← gaps_pushNewline bs tail, blocksOf_tasksWith]
  rfl

end

end Mender.Component
