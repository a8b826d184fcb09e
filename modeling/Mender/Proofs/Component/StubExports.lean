import Mathlib.Tactic.Common
import Mathlib.Tactic.Lemma
import Mender.Component.Stubs
import Mender.Proofs.Json.Quote
import Mender.Proofs.KeyMap
import Mender.Proofs.Text.Lines

/-!
What the stand-in of a missing module exports.

There is one stand-in for a specifier, but every import of the module makes one of its own, with
the names it asks for. The last one is kept.
-/

namespace Mender.Module

open Mender.Text

/-! ### The lines of a closed module -/

def closedHead : String := "(function (__pw_require, __pw_exports) \x7b"

def closedTail : String := "\x7d)"

lemma closedForm_eq (body : String) :
    closedForm body = closedHead ++ "\n" ++ body ++ ("\n" ++ closedTail) := rfl

lemma toList_closedLines {ls : List String} (hne : ls ≠ []) :
    (closedLines ls).toList = unlines ((closedHead :: ls ++ [closedTail]).map String.toList) := by
  have hfeed : "\n".toList = ['\n'] := rfl
  have hmap : ls.map String.toList ≠ [] := mt List.map_eq_nil_iff.1 hne
  rw [closedLines, closedForm_eq]
  simp only [String.toList_append, String.toList_intercalate, hfeed, List.map_append, List.map_cons,
    List.map_nil]
  rw [← unlines, unlines_append_cons, List.flatMap_cons, ← unlines_feed hmap]
  simp

lemma lines_closedLines {ls : List String} (hne : ls ≠ [])
    (h : ∀ l ∈ ls, '\n' ∉ l.toList ∧ l.toList ≠ [] ∧ l.toList.getLast? ≠ some '\r') :
    lines (closedLines ls).toList = (closedHead :: ls ++ [closedTail]).map String.toList := by
  rw [toList_closedLines hne]
  refine lines_unlines (by simp) fun m hm => ?_
  obtain ⟨l, hl, rfl⟩ := List.mem_map.1 hm
  rcases List.mem_append.1 hl with hl | hl
  · rcases List.mem_cons.1 hl with rfl | hl
    · decide
    · exact h l hl
  · rw [List.mem_singleton.1 hl]
    decide

/-! ### Exports of an inert module -/

/-- A closed module gives an export of that name the inert value. -/
def Exports (code name : String) : Prop :=
  (inertExport name).toList ∈ lines code.toList ∨
    name = "default" ∧ inertDefault.toList ∈ lines code.toList

instance (code name : String) : Decidable (Exports code name) :=
  inferInstanceAs (Decidable (_ ∨ _))

lemma toList_inertExport (n : String) :
    (inertExport n).toList = "__pw_exports[".toList ++ Json.quote n.toList ++ "] = inert;".toList := by
  simp only [inertExport, String.toList_append, quoted, String.toList_ofList]

lemma inertExport_inj {m n : String} : inertExport m = inertExport n ↔ m = n := by
  refine ⟨fun h => ?_, congrArg _⟩
  rw [← String.toList_inj, toList_inertExport, toList_inertExport, List.append_left_inj,
    List.append_right_inj] at h
  exact Json.quoted_inj.1 (congrArg String.ofList h)

lemma newline_notMem_inertExport (n : String) : '\n' ∉ (inertExport n).toList := by
  rw [toList_inertExport, List.mem_append, List.mem_append, not_or, not_or]
  exact ⟨⟨by decide, fun h => Json.quote_printable h (by decide)⟩, by decide⟩

/-- **An inert module exports the names it was made for**, and a default. -/
theorem exports_scriptStub_iff {names : List String} {n : String} :
    Exports (scriptStub names) n ↔ n = "default" ∨ n ∈ names := by
  have hlines : lines (scriptStub names).toList =
      (closedHead :: ([inertFunction, inertDefault] ++ names.map inertExport) ++
        [closedTail]).map String.toList := by
    refine lines_closedLines (by simp) fun l hl => ?_
    rcases List.mem_append.1 hl with hl | hl
    · rcases List.mem_pair.1 hl with rfl | rfl <;> decide
    · obtain ⟨n, -, rfl⟩ := List.mem_map.1 hl
      refine ⟨newline_notMem_inertExport n, by simp [toList_inertExport], ?_⟩
      rw [toList_inertExport, List.getLast?_append_of_ne_nil _ (by decide)]
      decide
  have hmem : (inertExport n).toList ∈ lines (scriptStub names).toList ↔ n ∈ names := by
    have hne : ∀ s ∈ [closedHead, inertFunction, inertDefault, closedTail],
        (s.toList.take 13) ≠ "__pw_exports[".toList := by decide
    have hstart : (inertExport n).toList.take 13 = "__pw_exports[".toList := by
      rw [toList_inertExport, List.append_assoc]
      rfl
    have hother : ∀ s ∈ [closedHead, inertFunction, inertDefault, closedTail], inertExport n ≠ s :=
      fun s hs he => hne s hs (he ▸ hstart)
    rw [hlines, List.mem_map_of_injective fun _ _ => String.toList_injective]
    simp only [List.mem_cons, List.not_mem_nil, or_false, forall_eq_or_imp, forall_eq] at hother
    simp [hother, inertExport_inj]
  have hdefault : inertDefault.toList ∈ lines (scriptStub names).toList := by
    rw [hlines]
    exact List.mem_map_of_mem (by simp)
  rw [Exports, hmem, or_comm]
  simp [hdefault]

end Mender.Module

namespace Mender.Component

open Mender.Module

/-- The last import that names a module. -/
def lastImport? (imports : List PlacedImport) (specifier : String) : Option PlacedImport :=
  (imports.filter fun p => p.specifier == specifier).getLast?

lemma isSome_lastImport {imports : List PlacedImport} {p : PlacedImport} (hp : p ∈ imports) :
    ∃ q, lastImport? imports p.specifier = some q := by
  rw [← Option.isSome_iff_exists, lastImport?, List.getLast?_isSome]
  exact List.ne_nil_of_mem (List.mem_filter.2 ⟨hp, by simp⟩)

lemma specifier_of_lastImport {imports : List PlacedImport} {s : String} {q : PlacedImport}
    (h : lastImport? imports s = some q) : q.specifier = s := by
  have := List.mem_filter.1 (List.mem_of_getLast? h)
  exact beq_iff_eq.1 this.2

/-- What stands behind the mark in the specifiers of tags is no local path. -/
lemma specifier_standInForTag_ne {s : String} (h : isLocal s = true) (name : String) :
    (standInForTag name).specifier ≠ stubMark ++ s := by
  intro he
  have hs : s.toList = 'c' :: ("omponent/".toList ++ name.toList) := by
    have : (stubMark ++ s).toList = stubMark.toList ++ ("component/".toList ++ name.toList) := by
      rw [← he, standInForTag, String.toList_append, String.toList_append, List.append_assoc]
    rw [String.toList_append, List.append_right_inj] at this
    exact this
  rw [isLocal, hs] at h
  exact absurd h (by simp [isRelative, belowLibrary, Text.startsWith, Text.after?])

/-- The stand-in that is kept for a missing module is the one of the last import. -/
lemma get?_modules {source : String} {dependencies : KeyMap String} {s : String}
    (h : isMissing (keysOf dependencies) s = true) :
    (prepare source dependencies).modules.get? (stubMark ++ s) =
      (lastImport? (importsOf source.toList) s).map fun q => (standInFor q).code := by
  have hlocal : isLocal s = true := (Bool.and_eq_true_iff.1 h).1
  have htags : (tagStandIns source.toList).filter (fun t => t.specifier == stubMark ++ s) = [] := by
    refine List.filter_eq_nil_iff.2 fun t ht => ?_
    obtain ⟨name, -, rfl⟩ := List.mem_map.1 ht
    rw [beq_iff_eq]
    exact specifier_standInForTag_ne hlocal name
  have hmark (p : PlacedImport) : ((standInFor p).specifier == stubMark ++ s) = (p.specifier == s) := by
    rw [Bool.eq_iff_iff, beq_iff_eq, beq_iff_eq, standInFor, String.append_right_inj]
  have himports (imports : List PlacedImport) :
      (imports.filter fun p => isMissing (keysOf dependencies) p.specifier).filter
        (fun p => p.specifier == s) = imports.filter fun p => p.specifier == s := by
    rw [List.filter_filter]
    refine List.filter_congr fun p _ => ?_
    by_cases hp : p.specifier = s
    · simp [hp, h]
    · simp [hp]
  simp only [prepare, KeyMap.get?_ofList, List.filter_map, Function.comp_def, List.filter_append,
    htags, hmark, missingImports, himports, List.append_nil, List.getLast?_map, Option.map_map,
    lastImport?]

/-- **The stand-in of a missing module exports the names of the last import of it**, and a default.
A name that only an earlier import takes is not exported. -/
theorem modules_export_iff {source : String} {dependencies : KeyMap String} {p : PlacedImport}
    (hp : p ∈ missingImports (keysOf dependencies) source.toList)
    (hscript : isComponentPath p.specifier = false) :
    ∃ code q, (prepare source dependencies).modules.get? (stubMark ++ p.specifier) = some code ∧
      lastImport? (importsOf source.toList) p.specifier = some q ∧
      ∀ n, Exports code n ↔ n = "default" ∨ n ∈ q.statement.offeredNames := by
  obtain ⟨hmem, hmissing⟩ := List.mem_filter.1 hp
  obtain ⟨q, hq⟩ := isSome_lastImport hmem
  refine ⟨_, q, by rw [get?_modules hmissing, hq, Option.map_some], hq, fun n => ?_⟩
  have hcode : (standInFor q).code = scriptStub q.statement.offeredNames := by
    simp [standInFor, specifier_of_lastImport hq, hscript]
  rw [hcode, exports_scriptStub_iff]

/-- Two imports of one missing module. -/
def importedTwice : String :=
  "<script>\n  import { a } from './m';\n  import { b } from './m';\n</script>\n"

lemma missingImports_importedTwice :
    (missingImports (keysOf ∅) importedTwice.toList).map
      (fun p => (p.specifier, p.statement.offeredNames)) = [("./m", ["a"]), ("./m", ["b"])] := by
  decide +kernel

lemma exists_first_import : ∃ p ∈ missingImports (keysOf ∅) importedTwice.toList,
    p.specifier = "./m" ∧ p.statement.offeredNames = ["a"] := by
  have h : ("./m", ["a"]) ∈ (missingImports (keysOf ∅) importedTwice.toList).map
      (fun p => (p.specifier, p.statement.offeredNames)) := by
    rw [missingImports_importedTwice]
    exact List.mem_cons_self
  obtain ⟨p, hp, he⟩ := List.mem_map.1 h
  exact ⟨p, hp, (Prod.mk.inj he).1, (Prod.mk.inj he).2⟩

/-- The second of two imports takes the place of the first one. -/
theorem modules_export_importedTwice :
    ∃ p ∈ missingImports (keysOf ∅) importedTwice.toList,
      isComponentPath p.specifier = false ∧ p.statement.offeredNames = ["a"] ∧
        ∃ code, (prepare importedTwice ∅).modules.get? (stubMark ++ p.specifier) = some code ∧
          ¬ Exports code "a" ∧ Exports code "b" := by
  obtain ⟨p, hp, hs, hnames⟩ := exists_first_import
  have hscript : isComponentPath p.specifier = false := by
    rw [hs]
    decide
  have hlast : (lastImport? (importsOf importedTwice.toList) "./m").map
      (·.statement.offeredNames) = some ["b"] := by decide +kernel
  obtain ⟨code, q, hcode, hq, hexports⟩ := modules_export_iff hp hscript
  rw [hs] at hq
  rw [hq, Option.map_some, Option.some_inj] at hlast
  exact ⟨p, hp, hscript, hnames, code, hcode, by simp [hexports, hlast], by simp [hexports, hlast]⟩

/-- Not every name that an import of a missing module takes is exported. -/
theorem names_of_first_import_lost :
    ¬ ∀ (source : String) (dependencies : KeyMap String),
      ∀ p ∈ missingImports (keysOf dependencies) source.toList,
        isComponentPath p.specifier = false →
          ∃ code, (prepare source dependencies).modules.get? (stubMark ++ p.specifier) = some code ∧
            ∀ n ∈ p.statement.offeredNames, Exports code n := by
  intro h
  obtain ⟨p, hp, hs, hnames⟩ := exists_first_import
  have hmodule : (prepare importedTwice ∅).modules.get? (stubMark ++ "./m") =
      some (scriptStub ["b"]) := by decide +kernel
  obtain ⟨code, hcode, hexports⟩ := h importedTwice ∅ p hp (by rw [hs]; decide)
  rw [hs, hmodule, Option.some_inj] at hcode
  have ha : Exports code "a" := hexports "a" (by simp [hnames])
  rw [← hcode, exports_scriptStub_iff] at ha
  exact absurd ha (by decide)

end Mender.Component
