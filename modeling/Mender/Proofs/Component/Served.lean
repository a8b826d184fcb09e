import Mathlib.Data.Finset.Max
import Mender.Preview.Walk
import Mender.Proofs.Component.Prepared
import Mender.Proofs.Component.StubExports

/-!
Which stand-ins are found again.

The specifier of a stand-in is written as a literal, and it is read between the quotes of that
literal, escapes and all. So the stand-ins are found under what is read just when no character of a
missing module's specifier is escaped.
-/

namespace Mender.Component

open Mender.Text Mender.Markup Mender.Script Mender.Module Mender.Preview

/-- No quote is left open in the scripts of a source. -/
def QuotesClosed (t : List Char) : Prop :=
  ∀ e ∈ scripts t, fromUnclosed? (cells (e.content.of t)) = none

instance : DecidablePred QuotesClosed := fun t => inferInstanceAs (Decidable (∀ e ∈ scripts t, _))

/-- The specifiers of stand-ins that the scripts of a source import. -/
def stubSpecifiers (t : List Char) : List String := ((importsOf t).map (·.specifier)).filter isStub

variable {keys : List String} {t tail : List Char} {source : String} {dependencies : KeyMap String}

/-! ### What the new source imports -/

lemma closed_of_quotesClosed {bs : List Block} (h : LaidOut bs tail)
    (hclosed : QuotesClosed (textOf bs tail)) : ∀ c ∈ scriptContents bs, Closed {} (cells c) := by
  intro c hc
  have htexts : scriptContents bs =
      (scripts (textOf bs tail)).map fun e => e.content.of (textOf bs tail) := by
    rw [← map_snd_scriptTexts 0, ← h.scripts_eq, List.map_map]
    rfl
  rw [htexts] at hc
  obtain ⟨e, he, rfl⟩ := List.mem_map.1 hc
  exact closed_cells (hclosed e he)

/-- A source that is prepared is some blocks filled in, whichever way it is prepared. -/
lemma exists_tasks (keys : List String) (hclosed : QuotesClosed t) : ∃ xs tail,
    LaidOut (blocksOf xs) tail ∧ preparedText keys t = textOf (filledBlocks keys xs) tail ∧
      namesFor xs = unboundNames t ∧
      (importsOf (textOf (blocksOf xs) tail)).map (·.specifier) = (importsOf t).map (·.specifier) ∧
      ∀ c ∈ scriptContents (blocksOf xs), Closed {} (cells c) := by
  obtain ⟨bs, tail, h, rfl⟩ := exists_laidOut t
  have hcells := closed_of_quotesClosed h hclosed
  by_cases hnone : unboundNames (textOf bs tail) = []
  · refine ⟨plainTasks bs, tail, ?_, preparedText_of_bound h hnone, ?_, ?_, ?_⟩
    · rwa [blocksOf_plainTasks]
    · rw [namesFor_plainTasks, hnone]
    · rw [blocksOf_plainTasks]
    · rwa [blocksOf_plainTasks]
  · cases hfind : bs.find? Block.isInstance with
    | none =>
      have hno : ∀ b ∈ bs, b.isInstance = false := fun b hb =>
        Bool.eq_false_iff.2 (List.find?_eq_none.1 hfind b hb)
      have hcontents (ns : List String) : scriptContents (blocksOf (tasksWith [] emptyScript
          kind_emptyScript (pushNewline bs tail).1 ns)) = ['\n'] :: scriptContents bs := by
        rw [blocksOf_tasksWith, ← scriptContents_pushNewline bs tail]
        rfl
      refine ⟨_, _, laidOut_newScript h _, preparedText_of_no_instance h hno hnone,
        namesFor_tasksWith _, ?_, ?_⟩
      · rw [specifiers_eq (laidOut_newScript h _), specifiers_eq h, hcontents]
        rfl
      · rw [hcontents]
        exact List.forall_mem_cons.2 ⟨closed_cells rfl, hcells⟩
    | some b =>
      obtain ⟨hb, as, cs, hbs, hno⟩ := List.find?_eq_some_iff_append.1 hfind
      have hkind : b.kind = .script := beq_iff_eq.1 (Bool.and_eq_true_iff.1 hb).1
      have hblocks (ns : List String) : blocksOf (tasksWith as b hkind cs ns) = bs := by
        rw [blocksOf_tasksWith, hbs]
      refine ⟨_, _, ?_, preparedText_of_instance h hbs (fun a ha => by simpa using hno a ha) hb hkind
        hnone, namesFor_tasksWith _, ?_, ?_⟩
      · rwa [hblocks]
      · rw [hblocks]
      · rwa [hblocks]

lemma verbatim_of_isLineName {n : String} (h : IsLineName n.toList) : Json.Verbatim n.toList := by
  intro c hc
  have hname := h.word.all c hc
  have hpunctuation {d : Char} (hd : isNameChar d = false) : c ≠ d := fun he => by
    rw [he, hd] at hname
    cases hname
  refine ⟨hpunctuation (by decide), hpunctuation (by decide), fun hlow => ?_⟩
  rcases Bool.or_eq_true_iff.1 hname with hstart | hdigit
  · have : 32 < c.toNat := by
      simp only [isNameStart, Bool.and_eq_true, decide_eq_true_eq] at hstart
      exact hstart.1.1.1
    omega
  · have hzero : '0'.val ≤ c.val := of_decide_eq_true (Bool.and_eq_true_iff.1 hdigit).1
    have := UInt32.le_iff_toNat_le.1 hzero
    exact absurd (Nat.lt_of_le_of_lt this hlow) (by decide)

lemma written_of_verbatim {s : String} (h : Json.Verbatim s.toList) : written s = s := by
  rw [written, h.flatMap_escapeChar, String.ofList_toList]

/-- The specifier of a tag's stand-in is read as it is. -/
lemma written_standInForTag {n : String} (h : n ∈ unboundNames t) :
    written (standInForTag n).specifier = (standInForTag n).specifier := by
  refine written_of_verbatim ?_
  have hmark : Json.Verbatim (stubMark ++ "component/").toList := by decide +kernel
  rw [standInForTag, String.toList_append]
  exact List.forall_mem_append.2
    ⟨hmark, verbatim_of_isLineName (isLineName_of_mem_unboundNames n h)⟩

lemma isStub_stubMark (s : String) : isStub (stubMark ++ s) = true := by
  rw [isStub, startsWith_iff, String.toList_append]
  exact List.prefix_append _ _

/-- **The stand-ins that a prepared source imports**: those for tags, and those for missing modules
with their specifiers written as literals. -/
theorem mem_stubSpecifiers_prepare (hclosed : QuotesClosed source.toList)
    (hnone : ∀ p ∈ importsOf source.toList, isStub p.specifier = false) {s : String} :
    s ∈ stubSpecifiers (prepare source dependencies).source.toList ↔
      (∃ n ∈ unboundNames source.toList, s = (standInForTag n).specifier) ∨
        ∃ p ∈ missingImports (keysOf dependencies) source.toList,
          s = stubMark ++ written p.specifier := by
  obtain ⟨xs, tail, h, htext, hnames, hspecifiers, hcells⟩ := exists_tasks (keysOf dependencies) hclosed
  have hline : ∀ n ∈ namesFor xs, IsLineName n.toList := hnames ▸ isLineName_of_mem_unboundNames
  rw [stubSpecifiers, List.mem_filter, toList_source_prepare, htext,
    mem_specifiers_filledBlocks hline h hcells, hnames, hspecifiers]
  constructor
  · rintro ⟨⟨n, hn, rfl⟩ | ⟨r, hr, rfl⟩, hstub⟩
    · exact .inl ⟨n, hn, written_standInForTag hn⟩
    · obtain ⟨p, hp, rfl⟩ := List.mem_map.1 hr
      unfold redirect at hstub ⊢
      split at hstub
      · next hmissing =>
        rw [if_pos hmissing, written_stubMark]
        exact .inr ⟨p, List.mem_filter.2 ⟨hp, hmissing⟩, rfl⟩
      · rw [hnone p hp] at hstub
        cases hstub
  · rintro (⟨n, hn, rfl⟩ | ⟨p, hp, rfl⟩)
    · refine ⟨.inl ⟨n, hn, (written_standInForTag hn).symm⟩, ?_⟩
      rw [standInForTag, String.append_assoc, isStub_stubMark]
    · obtain ⟨hp, hmissing⟩ := List.mem_filter.1 hp
      refine ⟨.inr ⟨p.specifier, List.mem_map_of_mem hp, ?_⟩, isStub_stubMark _⟩
      rw [redirect, if_pos hmissing, written_stubMark]

/-! ### What stands under them -/

lemma contains_modules {k : String} : (prepare source dependencies).modules.contains k = true ↔
    (∃ n ∈ unboundNames source.toList, k = (standInForTag n).specifier) ∨
      ∃ p ∈ missingImports (keysOf dependencies) source.toList, k = stubMark ++ p.specifier := by
  have htag : (∃ n ∈ unboundNames source.toList, k = (standInForTag n).specifier) ↔
      k ∈ (unboundNames source.toList).map fun n => (standInForTag n).specifier := by
    simp only [List.mem_map, eq_comm]
  have hmodule : (∃ p ∈ missingImports (keysOf dependencies) source.toList,
      k = stubMark ++ p.specifier) ↔ k ∈ (missingImports (keysOf dependencies) source.toList).map
        fun p => (standInFor p).specifier := by
    simp only [List.mem_map, eq_comm]
    rfl
  rw [htag, hmodule, or_comm, ← List.mem_append]
  simp only [prepare, KeyMap.contains_ofList, List.map_map, List.map_append, tagStandIns_eq,
    Function.comp_def]

/-- What is written for a local path is no specifier of a tag. -/
lemma written_ne_component {s : String} (h : isLocal s = true) (n : String) :
    stubMark ++ written s ≠ (standInForTag n).specifier := by
  intro he
  rw [standInForTag, String.append_assoc, String.append_right_inj] at he
  have hprefix : "component/".toList <+: s.toList.flatMap Json.escapeChar := by
    have htext := congrArg String.toList he
    rw [written, String.toList_ofList, String.toList_append] at htext
    rw [htext]
    exact List.prefix_append _ _
  obtain ⟨r, hr⟩ := Json.prefix_of_prefix_flatMap_escapeChar (by decide) hprefix
  rw [isLocal, ← hr] at h
  exact absurd h (by simp [isRelative, belowLibrary, startsWith, after?])

/-- **Among texts that are all written as others of them**, none has a character to escape: what is
written for the longest one that has would be longer. -/
lemma verbatim_of_closed {ss : List String} (h : ∀ s ∈ ss, written s ∈ ss) :
    ∀ s ∈ ss, Json.Verbatim s.toList := by
  by_contra hex
  push Not at hex
  obtain ⟨s, hs, hnot⟩ := hex
  have hne : (ss.filter fun s => ¬ Json.Verbatim s.toList).toFinset.Nonempty :=
    ⟨s, by simpa using ⟨hs, hnot⟩⟩
  obtain ⟨m, hm, hmax⟩ := Finset.exists_max_image _ (fun s : String => s.toList.length) hne
  obtain ⟨hm, hnot⟩ : m ∈ ss ∧ ¬ Json.Verbatim m.toList := by simpa using hm
  obtain ⟨hlonger, hagain⟩ := Json.longer_of_not_verbatim hnot
  have hle := hmax (written m) (by simpa [written] using ⟨h m hm, hagain⟩)
  rw [written, String.toList_ofList] at hle
  exact absurd hle (Nat.not_le.2 hlonger)

/-- The stand-ins that are imported are there just when no specifier of a missing module has a
character to escape. -/
lemma contains_stubSpecifiers_iff (hclosed : QuotesClosed source.toList)
    (hnone : ∀ p ∈ importsOf source.toList, isStub p.specifier = false) :
    (∀ s ∈ stubSpecifiers (prepare source dependencies).source.toList,
        (prepare source dependencies).modules.contains s = true) ↔
      ∀ p ∈ missingImports (keysOf dependencies) source.toList, Json.Verbatim p.specifier.toList := by
  constructor
  · intro h
    have hwritten : ∀ s ∈ (missingImports (keysOf dependencies) source.toList).map (·.specifier),
        written s ∈ (missingImports (keysOf dependencies) source.toList).map (·.specifier) := by
      intro s hs
      obtain ⟨p, hp, rfl⟩ := List.mem_map.1 hs
      have hlocal : isLocal p.specifier = true :=
        (Bool.and_eq_true_iff.1 (List.mem_filter.1 hp).2).1
      have hmem : stubMark ++ written p.specifier ∈
          stubSpecifiers (prepare source dependencies).source.toList :=
        (mem_stubSpecifiers_prepare hclosed hnone).2 (.inr ⟨p, hp, rfl⟩)
      rcases contains_modules.1 (h _ hmem) with ⟨n, -, hn⟩ | ⟨q, hq, hspecifier⟩
      · exact absurd hn (written_ne_component hlocal n)
      · rw [String.append_right_inj] at hspecifier
        exact hspecifier ▸ List.mem_map_of_mem hq
    intro p hp
    exact verbatim_of_closed hwritten _ (List.mem_map_of_mem hp)
  · intro h s hs
    refine contains_modules.2 (((mem_stubSpecifiers_prepare hclosed hnone).1 hs).imp_right ?_)
    rintro ⟨p, hp, rfl⟩
    exact ⟨p, hp, by rw [written_of_verbatim (h p hp)]⟩

/-! ### What a preview gets for them -/

/-- Every import of a specifier is led to what was prepared for it. -/
def Serves (s : Scope) (specifier : String) : Prop :=
  s.stubs.get? specifier = some (stubFor s specifier) ∧
    ∀ dir, locate s dir specifier = ⟨.stub, specifier⟩

/-- A runtime without packages that look like stand-ins has none. -/
lemma isRuntime_of_isStub {policy : Policy} (hp : ∀ k ∈ policy.runtime, isStub k = false) {s : String}
    (hs : isStub s = true) : policy.isRuntime s = false := by
  rw [Policy.isRuntime, List.any_eq_false]
  intro k hk hcovers
  obtain ⟨r, hr, hslash⟩ : ∃ r, s.toList = k.toList ++ r ∧ (r = [] ∨ r.head? = some '/') := by
    unfold covers at hcovers
    split at hcovers
    · next h => exact ⟨[], after?_eq_some_iff.1 h, .inl rfl⟩
    · next c r h => exact ⟨c :: r, after?_eq_some_iff.1 h, .inr (by simpa using hcovers)⟩
    · cases hcovers
  have hmark : stubMark.toList <+: k.toList ++ r := hr ▸ startsWith_iff.1 hs
  have hnot : ¬ stubMark.toList <+: k.toList := fun h => by
    have hstub := hp k hk
    rw [isStub, startsWith_iff.2 h] at hstub
    cases hstub
  -- the mark would go on behind the package, with a slash
  rcases List.prefix_or_prefix_of_prefix hmark (List.prefix_append k.toList r) with h | ⟨m, hm⟩
  · exact hnot h
  · rw [← hm, List.prefix_append_right_inj] at hmark
    cases m with
    | nil => exact hnot (by rw [← hm, List.append_nil])
    | cons c m =>
      have hc : c ∈ stubMark.toList := hm ▸ by simp
      obtain ⟨r', rfl⟩ := hmark
      rcases hslash with hnil | hhead
      · cases hnil
      · rw [Option.some.inj hhead] at hc
        exact absurd hc (by decide)

lemma serves_iff {policy : Policy} (hp : ∀ k ∈ policy.runtime, isStub k = false)
    {stubs : KeyMap String} {s : String} (hs : isStub s = true) :
    Serves (.of policy dependencies stubs) s ↔ stubs.contains s = true := by
  have hlocate (dir : String) : locate (.of policy dependencies stubs) dir s = ⟨.stub, s⟩ := by
    have hruntime : (Scope.of policy dependencies stubs).policy.isRuntime s = false :=
      isRuntime_of_isStub hp hs
    rw [locate, hruntime, hs]
    rfl
  rw [Serves, and_iff_left hlocate, KeyMap.contains_iff]
  constructor
  · exact fun h => ⟨_, h⟩
  · rintro ⟨code, hcode⟩
    have hstubs : (Scope.of policy dependencies stubs).stubs.get? s = some code := hcode
    rw [stubFor, hstubs]

/-- **The stand-ins of a prepared source are served** just when no specifier of a missing module has a
character that is escaped in a literal. -/
theorem stand_ins_served_iff {policy : Policy} (hpolicy : ∀ k ∈ policy.runtime, isStub k = false)
    (hclosed : QuotesClosed source.toList)
    (hnone : ∀ p ∈ importsOf source.toList, isStub p.specifier = false) :
    (∀ s ∈ stubSpecifiers (prepare source dependencies).source.toList,
        Serves (.of policy dependencies (prepare source dependencies).modules) s) ↔
      ∀ p ∈ missingImports (keysOf dependencies) source.toList, Json.Verbatim p.specifier.toList := by
  rw [← contains_stubSpecifiers_iff hclosed hnone]
  exact forall₂_congr fun s hs => serves_iff hpolicy (List.mem_filter.1 hs).2

/-- A missing module with a quote of the other kind in its path, and a tag that nothing binds. -/
def quotedSample : String := "<Card/>\n<script>\n  import m from \"./it's\";\n</script>\n"

/-- Both stand-ins are served. -/
theorem stand_ins_served_quoted :
    (missingImports (keysOf ∅) quotedSample.toList).map (·.specifier) = ["./it's"] ∧
      ∀ s ∈ stubSpecifiers (prepare quotedSample ∅).source.toList,
        Serves (.of .standard ∅ (prepare quotedSample ∅).modules) s := by
  have hmissing : (missingImports (keysOf ∅) quotedSample.toList).map (·.specifier) = ["./it's"] := by
    decide +kernel
  have hverbatim : ∀ p ∈ missingImports (keysOf ∅) quotedSample.toList,
      Json.Verbatim p.specifier.toList := by
    intro p hp
    have hmem := List.mem_map_of_mem (f := (·.specifier)) hp
    rw [hmissing, List.mem_singleton] at hmem
    rw [hmem]
    decide +kernel
  exact ⟨hmissing, (stand_ins_served_iff (by decide) (by decide +kernel) (by decide +kernel)).2
    hverbatim⟩

/-- A missing module with a backslash in its path. -/
def escapedSample : String := "<script>\n  import m from './a\\b';\n</script>\n"

/-- The backslash is written twice and read twice, and the stand-in is not found. -/
theorem stand_in_behind_escape :
    ¬ ∀ (source : String) (dependencies : KeyMap String),
      (∀ p ∈ importsOf source.toList, isStub p.specifier = false) →
        ∀ s ∈ stubSpecifiers (prepare source dependencies).source.toList,
          (prepare source dependencies).modules.contains s = true := by
  intro h
  have hread : "pw-stub:./a\\\\b" ∈ stubSpecifiers (prepare escapedSample ∅).source.toList := by
    decide +kernel
  have hkeys : (prepare escapedSample ∅).modules.contains "pw-stub:./a\\\\b" = false := by
    decide +kernel
  have hfound := h escapedSample ∅ (by decide +kernel) _ hread
  rw [hkeys] at hfound
  cases hfound

end Mender.Component
