import Mender.Proofs.Component.Prepared
import Mender.Proofs.Markup.Comments

/-!
Preparing a source with a comment in front.

A source is prepared from its scripts and its component tags. If those behind a text are what they are by
themselves, then that text is left as it is, and what it says makes no difference.
-/

namespace Mender.Component

open Mender.Text Mender.Markup Mender.Script Mender.Module

/-- No scripts are found in the text, and the component tags of it and the source behind it are the given
ones. -/
structure IsFront (q : List Char) (n : Nat) (tags : List ComponentTag) (a : List Char) : Prop where
  width_eq : width a = n
  scripts_eq : scripts (a ++ q) = (scripts q).map (.moved n)
  tags_eq : componentTags (a ++ q) = tags

def PlacedImport.moved (n : Nat) (p : PlacedImport) : PlacedImport := { p with place := n + p.place }

/-- A replacement in a text that is that much later. -/
def movedEdit (n : Nat) (e : Extent × List Char) : Extent × List Char :=
  (⟨n + e.1.first, n + e.1.last⟩, e.2)

section

variable {q a : List Char} {n : Nat} {tags : List ComponentTag}

lemma readScripts_front (h : IsFront q n tags a) :
    readScripts (a ++ q) = (readScripts q).map fun s => (n + s.1, s.2) := by
  obtain ⟨rfl, hscripts, -⟩ := h
  have hcontent (s : Span) : (s.moved (width a)).of (a ++ q) = s.of q := by
    rw [Span.of, Span.of, slice, slice, Span.moved, dropWidth_width_add, Nat.add_sub_add_left]
  rw [readScripts, readScripts, hscripts, List.map_map, List.map_map]
  refine List.map_congr_left fun e _ => ?_
  have hof := hcontent e.content
  simp only [Function.comp_apply, Element.moved, hof]
  rfl

lemma importsOf_front (h : IsFront q n tags a) :
    importsOf (a ++ q) = (importsOf q).map (.moved n) := by
  rw [importsOf, importsOf, readScripts_front h, List.flatMap_map, List.map_flatMap]
  refine congrArg List.flatten (List.map_congr_left fun s _ => ?_)
  rw [importsIn, importsIn, List.map_filterMap]
  refine List.filterMap_congr fun x _ => ?_
  cases x.import? <;> rfl

lemma missingImports_front (h : IsFront q n tags a) (keys : List String) :
    missingImports keys (a ++ q) = (missingImports keys q).map (.moved n) := by
  rw [missingImports, missingImports, importsOf_front h, List.filter_map]
  rfl

lemma tagStandIns_front (h : IsFront q n tags a) :
    tagStandIns (a ++ q) = (unboundTags (namesBound q) [] tags).map standInForTag := by
  have hbound : namesBound (a ++ q) = namesBound q := by
    rw [namesBound, namesBound, readScripts_front h, List.flatMap_map]
  rw [tagStandIns, hbound, h.tags_eq]

lemma redirections_front (h : IsFront q n tags a) (keys : List String) :
    (missingImports keys (a ++ q)).map redirection =
      ((missingImports keys q).map redirection).map (movedEdit n) := by
  rw [missingImports_front h, List.map_map, List.map_map]
  refine List.map_congr_left fun p _ => ?_
  simp only [Function.comp_apply, redirection, PlacedImport.moved, movedEdit, Nat.add_assoc]
  rfl

lemma insertAt_moved (n place : Nat) (new : List Char) (es : List (Extent × List Char)) :
    insertAt (n + place) new (es.map (movedEdit n)) = (insertAt place new es).map (movedEdit n) := by
  induction es with
  | nil => rfl
  | cons e es ih =>
    rw [List.map_cons, insertAt, insertAt, ih]
    have hle : n + place ≤ (movedEdit n e).1.first ↔ place ≤ e.1.first := Nat.add_le_add_iff_left
    simp only [hle]
    split <;> rfl

/-- Replacements behind a text leave it as it is. -/
lemma splice_front (a q : List Char) (es : List (Extent × List Char)) :
    splice (a ++ q) 0 (es.map (movedEdit (width a))) = a ++ splice q 0 es := by
  have hbehind : ∀ e ∈ es.map (movedEdit (width a)), width [] + width a ≤ e.1.first := by
    intro e he
    obtain ⟨e, -, rfl⟩ := List.mem_map.1 he
    rw [width_nil, Nat.zero_add]
    exact Nat.le_add_right _ _
  have hcopy := splice_copy [] a q hbehind
  rw [List.nil_append, width_nil, Nat.zero_add] at hcopy
  have hshift := splice_shift a q 0 es
  rw [Nat.add_zero] at hshift
  exact hcopy.trans (congrArg _ hshift)

lemma instanceScript_front (h : IsFront q n tags a) :
    instanceScript? (a ++ q) = (instanceScript? q).map (.moved n) := by
  rw [instanceScript?, h.scripts_eq, List.find?_map]
  rfl

/-- The text of a front stays, and what is put around it does not depend on it. -/
lemma exists_preparedText (q : List Char) (n : Nat) (tags : List ComponentTag) (keys : List String) :
    ∃ front back, ∀ a, IsFront q n tags a → preparedText keys (a ++ q) = front ++ a ++ back := by
  let edits := (missingImports keys q).map redirection
  let standIns := (unboundTags (namesBound q) [] tags).map standInForTag
  by_cases hempty : standIns.isEmpty
  · refine ⟨[], splice q 0 edits, fun a ha => ?_⟩
    obtain rfl := ha.width_eq
    rw [preparedText, tagStandIns_front ha, if_pos hempty, redirections_front ha, splice_front]
    rfl
  · have htext {a : List Char} (ha : IsFront q n tags a) : preparedText keys (a ++ q) =
        withLines (a ++ q) (importLines standIns) (edits.map (movedEdit n)) := by
      rw [preparedText, tagStandIns_front ha, if_neg hempty, redirections_front ha]
    cases hscript : instanceScript? q with
    | none =>
      refine ⟨newScript (importLines standIns), splice q 0 edits, fun a ha => ?_⟩
      obtain rfl := ha.width_eq
      rw [htext ha, withLines, instanceScript_front ha, hscript, Option.map_none]
      simp only [splice_front, List.append_assoc]
    | some e =>
      refine ⟨[], splice q 0 (insertAt e.content.first (importLines standIns) edits), fun a ha => ?_⟩
      obtain rfl := ha.width_eq
      rw [htext ha, withLines, instanceScript_front ha, hscript, Option.map_some]
      have hinsert := insertAt_moved (width a) e.content.first (importLines standIns) edits
      simp only [Element.moved, Span.moved, hinsert, splice_front, List.nil_append]

end

/-- Two sources that differ in a stretch are prepared in the same way, and keep that stretch. -/
structure PreparedAlike (a a' q : List Char) (dependencies : KeyMap String) : Prop where
  stubs_eq : (prepare (.ofList (a ++ q)) dependencies).stubs =
    (prepare (.ofList (a' ++ q)) dependencies).stubs
  modules_eq : (prepare (.ofList (a ++ q)) dependencies).modules =
    (prepare (.ofList (a' ++ q)) dependencies).modules
  source_eq : ∃ front back,
    (prepare (.ofList (a ++ q)) dependencies).source = .ofList (front ++ a ++ back) ∧
      (prepare (.ofList (a' ++ q)) dependencies).source = .ofList (front ++ a' ++ back)

/-- **What stands in front of a source** may be any text of the same width, as long as it has no scripts and
the tags are the same. -/
lemma preparedAlike_of_fronts {q : List Char} {n : Nat} {tags : List ComponentTag} {a a' : List Char}
    (ha : IsFront q n tags a) (ha' : IsFront q n tags a') (dependencies : KeyMap String) :
    PreparedAlike a a' q dependencies := by
  have hstandIns {a : List Char} (ha : IsFront q n tags a) :
      (missingImports (keysOf dependencies) (a ++ q)).map standInFor ++ tagStandIns (a ++ q) =
        (missingImports (keysOf dependencies) q).map standInFor ++
          (unboundTags (namesBound q) [] tags).map standInForTag := by
    rw [missingImports_front ha, tagStandIns_front ha, List.map_map]
    rfl
  obtain ⟨front, back, htext⟩ := exists_preparedText q n tags (keysOf dependencies)
  have hsource {a : List Char} (ha : IsFront q n tags a) :
      (prepare (.ofList (a ++ q)) dependencies).source = .ofList (front ++ a ++ back) := by
    rw [← htext a ha, ← String.ofList_toList (s := (prepare _ _).source), toList_source_prepare,
      String.toList_ofList]
  refine ⟨?_, ?_, front, back, hsource ha, hsource ha'⟩
  all_goals simp only [prepare, String.toList_ofList, hstandIns ha, hstandIns ha']

/-- **When a comment counts for nothing.** A comment may as well be blank, whatever follows it, exactly if all
elements that open in it are closed in it, none of them is a script, and no component tag is found in it; as
it is if nothing opens in it. Then all scripts are those behind the comment, the component tags are those in
front of it and behind it, and a source is prepared as if the comment were blank. -/
theorem commented_out_iff {p c : List Char} (hp : OpensNone p) (hc : IsInside c) :
    ((∀ q, SameParts (p ++ comment c ++ q) (p ++ comment (blanked c) ++ q)) ↔ Inert c) ∧
      (Quiet c → Inert c) ∧
      (Inert c → ∀ q,
        scripts (p ++ comment c ++ q) = (scripts q).map (.moved (width (p ++ comment c))) ∧
        componentTags (p ++ comment c ++ q) =
          componentTags p ++ (componentTags q).map (.moved (width (p ++ comment c))) ∧
        ∀ dependencies,
          PreparedAlike (p ++ comment c) (p ++ comment (blanked c)) q dependencies) := by
  have hfront {d : List Char} (hd : IsInside d) (hi : Inert d) (q : List Char) :
      IsFront q (width (p ++ comment d))
        (componentTags p ++ (componentTags q).map (.moved (width (p ++ comment d)))) (p ++ comment d) :=
    ⟨rfl, hi.scripts_eq hp q, hi.componentTags_eq hp hd q⟩
  refine ⟨⟨inert_of_sameParts hp, fun hi => hi.sameParts hp hc⟩, inert_of_quiet hc, fun hi q => ?_⟩
  refine ⟨hi.scripts_eq hp q, hi.componentTags_eq hp hc q, fun dependencies => ?_⟩
  have hblank := hfront (isInside_blanked c) (inert_blanked c) q
  rw [width_comment] at hblank
  exact preparedAlike_of_fronts (hfront hc hi q) hblank dependencies

-- a tag that is commented out
theorem commented_out_tag :
    OpensNone "<b>".toList ∧ IsInside " <Card/> ".toList ∧
      componentTags "<b><!-- <Card/> --><Head/>".toList = [⟨"Head", 19⟩] := by
  have hlacks {name t : List Char} (h : ∀ s ∈ t.tails, beginsWith name s = false) : Lacks name t :=
    fun s hs => h s ((List.mem_tails _ _).2 hs)
  have hp : OpensNone "<b>".toList := ⟨hlacks (by decide), hlacks (by decide), by decide⟩
  have hc : IsInside " <Card/> ".toList := ⟨by decide, by decide, by decide⟩
  have hq : Quiet " <Card/> ".toList := by
    have hnone : ∀ s ∈ " <Card/> ".toList.tails, opens? s = none := by decide
    exact fun s hs => opens?_eq_none_iff.1 (hnone s ((List.mem_tails _ _).2 hs))
  obtain ⟨-, hquiet, hinert⟩ := commented_out_iff hp hc
  obtain ⟨-, htags, -⟩ := hinert (hquiet hq) "<Head/>".toList
  have hbehind : componentTags "<b>".toList ++
      (componentTags "<Head/>".toList).map (.moved (width ("<b>".toList ++ comment " <Card/> ".toList))) =
        [⟨"Head", 19⟩] := by decide +kernel
  exact ⟨hp, hc, htags.trans hbehind⟩

/-- A script that is opened in a comment takes all that follows. -/
theorem commented_script_counts :
    ¬ ∀ p c q, OpensNone p → IsInside c →
      SameParts (p ++ comment c ++ q) (p ++ comment (blanked c) ++ q) := by
  intro h
  have hp : OpensNone [] := by
    refine ⟨fun s hs => ?_, fun s hs => ?_, by decide⟩
    all_goals rw [List.suffix_nil.1 hs]; rfl
  have hc : IsInside " <script> ".toList := ⟨by decide, by decide, by decide⟩
  have hparts := h [] " <script> ".toList "<Card/>".toList hp hc
  exact absurd hparts.componentTags_eq (by decide +kernel)

end Mender.Component
