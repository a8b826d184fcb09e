import Mender.Proofs.Component.Redirect
import Mender.Proofs.Markup.Parts

/-!
A source whose scripts are filled in.

Block by block, a script gets stand-ins for its missing modules, and it may get lines for tags in
front. The blocks are those of the new source, so what its scripts say is known.
-/

namespace Mender.Component

open Mender.Text Mender.Markup Mender.Script Mender.Module

/-! ### Blocks to fill in -/

/-- A block and the tags whose lines its script gets. -/
structure Task where
  names : List String
  block : Block
  inScript : names = [] ∨ block.kind = .script

namespace Task

/-- A block that gets no lines. -/
def plain (b : Block) : Task := ⟨[], b, .inl rfl⟩

def lines (x : Task) : List Char := importLines (x.names.map standInForTag)

def content (keys : List String) (x : Task) : List Char :=
  if x.block.kind = .script then x.lines ++ redirected keys x.block.content else x.block.content

/-- The block filled in. -/
def filled (keys : List String) (x : Task) : Block := { x.block with content := x.content keys }

def linePieces (x : Task) : List Module.Piece := if x.names = [] then [] else [.added x.lines]

/-- The content as it is filled in, piece by piece. -/
def contentPieces (keys : List String) (x : Task) : List Module.Piece :=
  if x.block.kind = .script then scriptPieces keys x.block.content else [.kept x.block.content]

/-- The block as it is filled in, piece by piece. -/
def pieces (keys : List String) (x : Task) : List Module.Piece :=
  [.kept x.block.gap, .kept x.block.tag] ++
    (x.linePieces ++ (x.contentPieces keys ++ [.kept x.block.close]))

end Task

/-- The blocks of some tasks. -/
def blocksOf (xs : List Task) : List Block := xs.map (·.block)

def filledBlocks (keys : List String) (xs : List Task) : List Block := xs.map (·.filled keys)

def namesFor (xs : List Task) : List String := xs.flatMap (·.names)

variable {keys : List String} {xs : List Task} {tail : List Char}

/-! ### Pieces -/

lemma oldText_contentPieces (x : Task) : oldText (x.contentPieces keys) = x.block.content := by
  unfold Task.contentPieces
  split
  · exact oldText_scriptPieces
  · exact List.append_nil _

lemma added_contentPieces (x : Task) : added (x.contentPieces keys) = [] := by
  unfold Task.contentPieces
  split
  · exact added_cellPieces _
  · rfl

lemma oldText_linePieces (x : Task) : oldText x.linePieces = [] := by
  unfold Task.linePieces
  split <;> rfl

lemma newText_linePieces (x : Task) : newText x.linePieces = x.lines := by
  unfold Task.linePieces
  split
  · next hnames =>
    rw [Task.lines, hnames]
    rfl
  · exact List.append_nil _

lemma newText_content (x : Task) : x.lines ++ newText (x.contentPieces keys) = x.content keys := by
  unfold Task.contentPieces Task.content
  split
  · rw [newText_scriptPieces]
  · next hkind =>
    have hnames := x.inScript.resolve_right hkind
    rw [Task.lines, hnames]
    exact List.append_nil _

lemma oldText_pieces (x : Task) : oldText (x.pieces keys) = x.block.text := by
  rw [Task.pieces, oldText_append, oldText_append, oldText_append, oldText_linePieces,
    oldText_contentPieces]
  simp [oldText, Piece.old, Block.text, Block.element]

lemma newText_pieces (x : Task) : newText (x.pieces keys) = (x.filled keys).text := by
  rw [Task.pieces, newText_append, newText_append, newText_append, newText_linePieces,
    ← List.append_assoc x.lines, newText_content]
  simp [newText, Piece.new, Block.text, Block.element, Task.filled]

lemma swaps_contentPieces (place : Nat) (x : Task) : swaps place (x.contentPieces keys) =
    if x.block.kind = .script then swaps place (scriptPieces keys x.block.content) else [] := by
  unfold Task.contentPieces
  split <;> rfl

lemma swaps_pieces (place : Nat) (x : Task) : swaps place (x.pieces keys) =
    swaps (place + width x.block.gap + width x.block.tag) (x.contentPieces keys) := by
  unfold Task.pieces Task.linePieces
  split <;> simp [swaps, swaps_append, Piece.old]

lemma added_pieces (x : Task) :
    added (x.pieces keys) = if x.names = [] then [] else [x.lines] := by
  unfold Task.pieces Task.linePieces
  rw [added_append, added_append, added_append, added_contentPieces]
  split <;> rfl

/-- The pieces of a source whose blocks are filled in. -/
def sourcePieces (keys : List String) (xs : List Task) (tail : List Char) : List Module.Piece :=
  xs.flatMap (·.pieces keys) ++ [.kept tail]

lemma oldText_sourcePieces : oldText (sourcePieces keys xs tail) = textOf (blocksOf xs) tail := by
  induction xs with
  | nil => exact List.append_nil _
  | cons x xs ih =>
    rw [sourcePieces, List.flatMap_cons, List.append_assoc, oldText_append, oldText_pieces,
      ← sourcePieces, ih, blocksOf, blocksOf, List.map_cons, textOf_eq]

lemma newText_sourcePieces : newText (sourcePieces keys xs tail) = textOf (filledBlocks keys xs) tail := by
  induction xs with
  | nil => exact List.append_nil _
  | cons x xs ih =>
    rw [sourcePieces, List.flatMap_cons, List.append_assoc, newText_append, newText_pieces,
      ← sourcePieces, ih, filledBlocks, filledBlocks, List.map_cons, textOf_eq]

lemma swaps_sourcePieces (place : Nat) : swaps place (sourcePieces keys xs tail) =
    (scriptTexts place (blocksOf xs)).flatMap fun p => swaps p.1 (scriptPieces keys p.2) := by
  induction xs generalizing place with
  | nil => rfl
  | cons x xs ih =>
    have hblocks : blocksOf (x :: xs) = x.block :: blocksOf xs := rfl
    rw [sourcePieces, List.flatMap_cons, List.append_assoc, swaps_append, oldText_pieces,
      ← sourcePieces, ih, swaps_pieces, swaps_contentPieces, hblocks, scriptTexts, List.flatMap_append]
    split <;> simp

/-- **The replacements in a source** are the redirections of its missing modules. -/
theorem swaps_missingImports (h : LaidOut (blocksOf xs) tail) :
    swaps 0 (sourcePieces keys xs tail) =
      (missingImports keys (textOf (blocksOf xs) tail)).map redirection := by
  have himports : importsOf (textOf (blocksOf xs) tail) =
      (scriptTexts 0 (blocksOf xs)).flatMap fun p => importsIn p.1 (parse p.2) := by
    rw [importsOf, readScripts, ← h.scripts_eq]
    simp only [List.flatMap_map]
  rw [swaps_sourcePieces, missingImports, himports, List.filter_flatMap, List.map_flatMap]
  exact congrArg List.flatten (List.map_congr_left fun p _ => swaps_scriptPieces p.1)

/-! ### What the scripts of a source say -/

def scriptContents (bs : List Block) : List (List Char) := (bs.filter (·.kind == .script)).map (·.content)

lemma map_snd_scriptTexts (place : Nat) (bs : List Block) :
    (scriptTexts place bs).map (·.2) = scriptContents bs := by
  induction bs generalizing place with
  | nil => rfl
  | cons b bs ih =>
    rw [scriptTexts, List.map_append, ih, scriptContents, scriptContents, List.filter_cons]
    cases b.kind <;> rfl

section

variable {bs : List Block} (h : LaidOut bs tail)

include h

lemma readScripts_eq : readScripts (textOf bs tail) =
    (scriptTexts 0 bs).map fun p => (p.1, parse p.2) := by
  rw [readScripts, ← h.scripts_eq, List.map_map]
  rfl

lemma trees_eq : (readScripts (textOf bs tail)).map (·.2) = (scriptContents bs).map parse := by
  rw [readScripts_eq h, ← map_snd_scriptTexts 0, List.map_map, List.map_map]
  rfl

lemma namesBound_eq :
    namesBound (textOf bs tail) = (scriptContents bs).flatMap fun c => namesIn (parse c) := by
  have htrees := congrArg (List.flatMap namesIn) (trees_eq h)
  rwa [List.flatMap_map, List.flatMap_map] at htrees

/-- The specifiers of the modules that a source imports. -/
lemma specifiers_eq : (importsOf (textOf bs tail)).map (·.specifier) =
    (scriptContents bs).flatMap fun c => specifiersIn (parse c) := by
  have htrees := congrArg (List.flatMap specifiersIn) (trees_eq h)
  rw [List.flatMap_map, List.flatMap_map] at htrees
  rw [importsOf, List.map_flatMap, ← htrees]
  exact congrArg List.flatten (List.map_congr_left fun p _ => map_specifier_importsIn p.1 p.2)

lemma fault_of_mem_scriptContents (hf : ∀ s ∈ readScripts (textOf bs tail), s.2.fault = none) :
    ∀ c ∈ scriptContents bs, (parse c).fault = none := by
  intro c hc
  have hmem : parse c ∈ (readScripts (textOf bs tail)).map (·.2) := by
    rw [trees_eq h]
    exact List.mem_map_of_mem hc
  obtain ⟨s, hs, he⟩ := List.mem_map.1 hmem
  rw [← he]
  exact hf s hs

end

/-! ### What the scripts say when they are filled in -/

lemma mem_scriptContents {bs : List Block} {c : List Char} :
    c ∈ scriptContents bs ↔ ∃ b ∈ bs, b.kind = .script ∧ b.content = c := by
  simp [scriptContents, and_assoc]

lemma mem_scriptContents_filledBlocks {c : List Char} : c ∈ scriptContents (filledBlocks keys xs) ↔
    ∃ x ∈ xs, x.block.kind = .script ∧ x.lines ++ redirected keys x.block.content = c := by
  rw [mem_scriptContents]
  constructor
  · rintro ⟨b, hb, hkind, rfl⟩
    obtain ⟨x, hx, rfl⟩ := List.mem_map.1 hb
    exact ⟨x, hx, hkind, (if_pos hkind).symm⟩
  · rintro ⟨x, hx, hkind, rfl⟩
    exact ⟨x.filled keys, List.mem_map_of_mem hx, hkind, if_pos hkind⟩

lemma fault_of_mem (hfault : ∀ c ∈ scriptContents (blocksOf xs), (parse c).fault = none) {x : Task}
    (hx : x ∈ xs) (hkind : x.block.kind = .script) : (parse x.block.content).fault = none :=
  hfault _ (mem_scriptContents.2 ⟨_, List.mem_map_of_mem hx, hkind, rfl⟩)

section

variable (hnames : ∀ n ∈ namesFor xs, IsLineName n.toList)

include hnames

lemma isLineName_names {x : Task} (hx : x ∈ xs) : ∀ n ∈ x.names, IsLineName n.toList :=
  fun n hn => hnames n (List.mem_flatMap.2 ⟨x, hx, hn⟩)

lemma begins_filled {x : Task} (hx : x ∈ xs) (h : x.block.Begins) : (x.filled keys).Begins := by
  refine ⟨h.gap, h.opens, h.tag, ?_⟩
  show Lacks x.block.kind.closing (x.content keys)
  have hcontent := h.content
  unfold Task.content
  split
  · next hkind =>
    rw [hkind] at hcontent ⊢
    exact lacks_redirected (isLineName_names hnames hx) hcontent
  · exact hcontent

/-- **The blocks filled in** are those of the new source. -/
theorem laidOut_filledBlocks (h : LaidOut (blocksOf xs) tail) : LaidOut (filledBlocks keys xs) tail := by
  generalize hbs : blocksOf xs = bs at h
  induction h generalizing xs with
  | tail h =>
    obtain rfl : xs = [] := List.map_eq_nil_iff.1 hbs
    exact .tail h
  | closed hb hc h ih =>
    obtain ⟨x, xs, rfl, rfl, rfl⟩ := List.map_eq_cons_iff.1 hbs
    have hrest : ∀ n ∈ namesFor xs, IsLineName n.toList := fun n hn =>
      hnames n (List.mem_append_right _ hn)
    exact .closed (begins_filled hnames List.mem_cons_self hb) hc (ih hrest rfl)
  | broken hb hc =>
    obtain ⟨x, xs, rfl, rfl, hxs⟩ := List.map_eq_cons_iff.1 hbs
    obtain rfl : xs = [] := List.map_eq_nil_iff.1 hxs
    exact .broken (begins_filled hnames List.mem_cons_self hb) hc

variable (h : LaidOut (blocksOf xs) tail) (hfault : ∀ c ∈ scriptContents (blocksOf xs), (parse c).fault = none)

include h

/-- The component tags stay. -/
lemma tags_filledBlocks :
    (componentTags (textOf (filledBlocks keys xs) tail)).map (·.name) =
      (componentTags (textOf (blocksOf xs) tail)).map (·.name) := by
  rw [(laidOut_filledBlocks hnames h).names_componentTags, h.names_componentTags, filledBlocks, blocksOf,
    List.map_map, List.map_map]
  rfl

/-- **The specifiers of the new source**: those of the lines and the old ones, but for those of the
missing modules. -/
theorem mem_specifiers_filledBlocks (hclosed : ∀ c ∈ scriptContents (blocksOf xs), Closed {} (cells c))
    {s : String} :
    s ∈ (importsOf (textOf (filledBlocks keys xs) tail)).map (·.specifier) ↔
      (∃ n ∈ namesFor xs, s = written (standInForTag n).specifier) ∨
        ∃ r ∈ (importsOf (textOf (blocksOf xs) tail)).map (·.specifier), s = redirect keys r := by
  have hspecifiers {x : Task} (hx : x ∈ xs) (hkind : x.block.kind = .script) :
      s ∈ specifiersIn (parse (x.lines ++ redirected keys x.block.content)) ↔
        (∃ n ∈ x.names, s = written (standInForTag n).specifier) ∨
          ∃ r ∈ specifiersIn (parse x.block.content), s = redirect keys r := by
    have hcontent := hclosed _ (mem_scriptContents.2 ⟨_, List.mem_map_of_mem hx, hkind, rfl⟩)
    rw [Task.lines, specifiersIn_redirected (isLineName_names hnames hx) hcontent, List.mem_append,
      List.mem_map, List.mem_map]
    simp only [eq_comm]
  rw [specifiers_eq (laidOut_filledBlocks hnames h), specifiers_eq h, List.mem_flatMap]
  constructor
  · rintro ⟨c, hc, hs⟩
    obtain ⟨x, hx, hkind, rfl⟩ := mem_scriptContents_filledBlocks.1 hc
    rcases (hspecifiers hx hkind).1 hs with ⟨n, hn, rfl⟩ | ⟨r, hr, rfl⟩
    · exact .inl ⟨n, List.mem_flatMap.2 ⟨x, hx, hn⟩, rfl⟩
    · exact .inr ⟨r, List.mem_flatMap.2
        ⟨_, mem_scriptContents.2 ⟨_, List.mem_map_of_mem hx, hkind, rfl⟩, hr⟩, rfl⟩
  · have new {x : Task} (hx : x ∈ xs) (hkind : x.block.kind = .script)
        (hs : (∃ n ∈ x.names, s = written (standInForTag n).specifier) ∨
          ∃ r ∈ specifiersIn (parse x.block.content), s = redirect keys r) :
        ∃ c ∈ scriptContents (filledBlocks keys xs), s ∈ specifiersIn (parse c) :=
      ⟨_, mem_scriptContents_filledBlocks.2 ⟨x, hx, hkind, rfl⟩, (hspecifiers hx hkind).2 hs⟩
    rintro (⟨n, hn, hs⟩ | ⟨r, hr, hs⟩)
    · obtain ⟨x, hx, hn⟩ := List.mem_flatMap.1 hn
      exact new hx (x.inScript.resolve_left (List.ne_nil_of_mem hn)) (.inl ⟨n, hn, hs⟩)
    · obtain ⟨c, hc, hr⟩ := List.mem_flatMap.1 hr
      obtain ⟨b, hb, hkind, rfl⟩ := mem_scriptContents.1 hc
      obtain ⟨x, hx, rfl⟩ := List.mem_map.1 hb
      exact new hx hkind (.inr ⟨r, hr, hs⟩)

include hfault

/-- **No name is lost**, and those of the lines are new. -/
theorem mem_namesBound_filledBlocks {n : String} :
    n ∈ namesBound (textOf (filledBlocks keys xs) tail) ↔
      n ∈ namesFor xs ∨ n ∈ namesBound (textOf (blocksOf xs) tail) := by
  have hbound {x : Task} (hx : x ∈ xs) (hkind : x.block.kind = .script) :
      namesIn (parse (x.lines ++ redirected keys x.block.content)) =
        x.names ++ namesIn (parse x.block.content) :=
    namesIn_redirected (isLineName_names hnames hx) (fault_of_mem hfault hx hkind)
  rw [namesBound_eq (laidOut_filledBlocks hnames h), namesBound_eq h, List.mem_flatMap]
  constructor
  · rintro ⟨c, hc, hn⟩
    obtain ⟨x, hx, hkind, rfl⟩ := mem_scriptContents_filledBlocks.1 hc
    rw [hbound hx hkind] at hn
    refine (List.mem_append.1 hn).imp (fun hn => List.mem_flatMap.2 ⟨x, hx, hn⟩) fun hn => ?_
    exact List.mem_flatMap.2 ⟨_, mem_scriptContents.2 ⟨_, List.mem_map_of_mem hx, hkind, rfl⟩, hn⟩
  · have new {x : Task} (hx : x ∈ xs) (hkind : x.block.kind = .script)
        (hn : n ∈ x.names ++ namesIn (parse x.block.content)) :
        ∃ c ∈ scriptContents (filledBlocks keys xs), n ∈ namesIn (parse c) :=
      ⟨_, mem_scriptContents_filledBlocks.2 ⟨x, hx, hkind, rfl⟩, hbound hx hkind ▸ hn⟩
    rintro (hn | hn)
    · obtain ⟨x, hx, hn⟩ := List.mem_flatMap.1 hn
      have hkind := x.inScript.resolve_left (List.ne_nil_of_mem hn)
      exact new hx hkind (List.mem_append_left _ hn)
    · obtain ⟨c, hc, hn⟩ := List.mem_flatMap.1 hn
      obtain ⟨b, hb, hkind, rfl⟩ := mem_scriptContents.1 hc
      obtain ⟨x, hx, rfl⟩ := List.mem_map.1 hb
      exact new hx hkind (List.mem_append_right _ hn)

/-- **No local module is missing** in the new source. -/
theorem provided_filledBlocks {p : PlacedImport}
    (hp : p ∈ importsOf (textOf (filledBlocks keys xs) tail)) : isMissing keys p.specifier = false := by
  have hclosed : ∀ c ∈ scriptContents (blocksOf xs), Closed {} (cells c) :=
    fun c hc => closed_of_fault (hfault c hc)
  have hmem := List.mem_map_of_mem (f := (·.specifier)) hp
  rcases (mem_specifiers_filledBlocks hnames h hclosed).1 hmem with ⟨n, -, hs⟩ | ⟨r, -, hs⟩
  · have hlocal : isMissing keys (written (standInForTag n).specifier) = false := by
      rw [standInForTag, String.append_assoc, written_stubMark, isMissing, isLocal_stubMark,
        Bool.false_and]
    rw [← hlocal, ← hs]
  · rw [← isMissing_redirect keys r, ← hs]

end

end Mender.Component
