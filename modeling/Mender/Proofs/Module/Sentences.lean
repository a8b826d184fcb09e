import Mathlib.Tactic.Common
import Mathlib.Tactic.Lemma
import Mender.Module.Closed

/-!
What imports and exports come to in a closed module.

An import or an export gives way to a few sentences. One requires a module, and the others bind
names of it, keep a declaration or assign to the exports. Their texts, one behind the other, are
what closing puts in, and the names in them can be compared with those of the statement.
-/

namespace Mender.Module

open Mender.Script

/-! ### Sentences -/

/-- What of a required module a name stands for. -/
inductive Member
  | default
  | whole
  | offered (name : String)
  deriving DecidableEq

def Member.text (n : Nat) : Member → String
  | default => holder n ++ ".default"
  | whole => holder n
  | offered name => holder n ++ "[" ++ quoted name ++ "]"

/-- What is assigned to an export. -/
inductive Value
  | member (n : Nat) (m : Member)
  | code (text : String)
  deriving DecidableEq

def Value.text : Value → String
  | member n m => m.text n
  | code text => text

/-- An assignment to an export is all there is, stands on a line of its own behind a declaration, or
follows others on one line; only there may the name be any text. -/
inductive Manner
  | alone
  | below
  | behind
  deriving DecidableEq

/-- What a closed module has in the place of an import or an export is made of these. -/
inductive Sentence
  | require (n : Nat) (specifier : String)
  | bind (name : String) (n : Nat) (m : Member)
  | keep (text : String)
  | assign (manner : Manner) (name : String) (value : Value)
  | assignAll (n : Nat)
  deriving DecidableEq

namespace Sentence

def text : Sentence → String
  | require n specifier => "const " ++ holder n ++ " = __pw_require(" ++ quoted specifier ++ ");"
  | bind name n m => " const " ++ name ++ " = " ++ m.text n ++ ";"
  | keep text => text
  | assign .alone name value => "__pw_exports." ++ name ++ " = (" ++ value.text ++ ");"
  | assign .below name value => "\n__pw_exports." ++ name ++ " = " ++ value.text ++ ";"
  | assign .behind name value => " __pw_exports[" ++ quoted name ++ "] = " ++ value.text ++ ";"
  | assignAll n => " Object.assign(__pw_exports, " ++ holder n ++ ");"

/-- The specifier that is asked for, with the number of the module. -/
def required? : Sentence → Option (String × Nat)
  | require n specifier => some (specifier, n)
  | _ => none

/-- The name that is bound, with the number of the module it is taken from and the member. -/
def bound? : Sentence → Option (String × Nat × Member)
  | bind name n m => some (name, n, m)
  | _ => none

/-- The export that is assigned. -/
def assigned? : Sentence → Option String
  | assign _ name _ => some name
  | _ => none

end Sentence

def written (ss : List Sentence) : String := String.join (ss.map Sentence.text)

@[simp] lemma written_nil : written [] = "" := String.join_nil

@[simp] lemma written_cons (s : Sentence) (ss : List Sentence) :
    written (s :: ss) = s.text ++ written ss := by
  rw [written, List.map_cons, String.join_cons, written]

lemma written_map {α : Type} (f : α → Sentence) (xs : List α) :
    written (xs.map f) = String.join (xs.map fun x => (f x).text) := by
  rw [written, List.map_map]
  rfl

@[simp] lemma written_append (ss ss' : List Sentence) :
    written (ss ++ ss') = written ss ++ written ss' := by
  rw [written, List.map_append, String.join_append, written, written]

lemma filterMap_map_some {α β : Type} (f : α → Sentence) (g : Sentence → Option β) (k : α → β)
    (h : ∀ x, g (f x) = some (k x)) (xs : List α) : (xs.map f).filterMap g = xs.map k := by
  have hsome : g ∘ f = some ∘ k := funext h
  rw [List.filterMap_map, hsome, List.filterMap_eq_map]

/-- The sentence that asks for a module, if a statement needs one. -/
def requires (n : Nat) (specifier? : Option String) : List Sentence :=
  specifier?.toList.map fun x => .require n x

@[simp] lemma required_requires (n : Nat) (specifier? : Option String) :
    (requires n specifier?).filterMap Sentence.required? =
      specifier?.toList.map fun x => (x, n) := by
  cases specifier? <;> rfl

@[simp] lemma bound_requires (n : Nat) (specifier? : Option String) :
    (requires n specifier?).filterMap Sentence.bound? = [] := by
  cases specifier? <;> rfl

@[simp] lemma assigned_requires (n : Nat) (specifier? : Option String) :
    (requires n specifier?).filterMap Sentence.assigned? = [] := by
  cases specifier? <;> rfl

@[simp] lemma written_requires_some (n : Nat) (specifier : String) :
    written (requires n (some specifier)) = requireText n specifier := by
  rw [requires, Option.toList_some, List.map_singleton, written_cons, written_nil,
    String.append_empty]
  rfl

/-! ### Imports -/

/-- The names that an import binds, with what they stand for. -/
def boundMembers (i : Import) : List (String × Member) :=
  (i.default.toList.map fun d => (d, .default)) ++ (i.whole.toList.map fun w => (w, .whole)) ++
    (i.names.filter fun a => !a.typeOnly).map fun a => (a.localName, .offered a.name.value)

/-- An import binds its names, each once. -/
lemma map_fst_boundMembers (i : Import) : (boundMembers i).map Prod.fst = i.boundNames := by
  simp [boundMembers, Import.boundNames, Function.comp_def]

/-- The specifier of the module that an import asks for. -/
def importOrigin? (i : Import) : Option String :=
  if i.typeOnly then none else i.source.map Part.value

/-- What follows when an import has asked for the `n`-th module. -/
def importSentences (n : Nat) (i : Import) : List Sentence :=
  if i.typeOnly then [] else (boundMembers i).map fun b => .bind b.1 n b.2

lemma written_boundMembers (n : Nat) (i : Import) :
    written ((boundMembers i).map fun b => .bind b.1 n b.2) = importText n i := by
  rw [written_map, boundMembers, importText]
  simp only [List.map_append, List.map_map, Function.comp_def]
  rfl

/-- An import neither asks for more modules nor assigns. -/
lemma quiet_of_mem_import {n : Nat} {i : Import} {s : Sentence} (h : s ∈ importSentences n i) :
    s.required? = none ∧ s.assigned? = none := by
  rw [importSentences] at h
  split at h
  · cases h
  · obtain ⟨b, -, rfl⟩ := List.mem_map.1 h
    exact ⟨rfl, rfl⟩

lemma required_importSentences (n : Nat) (i : Import) :
    (importSentences n i).filterMap Sentence.required? = [] :=
  List.filterMap_eq_nil_iff.2 fun _ h => (quiet_of_mem_import h).1

lemma assigned_importSentences (n : Nat) (i : Import) :
    (importSentences n i).filterMap Sentence.assigned? = [] :=
  List.filterMap_eq_nil_iff.2 fun _ h => (quiet_of_mem_import h).2

lemma bound_importSentences (n : Nat) (i : Import) :
    (importSentences n i).filterMap Sentence.bound? =
      (if i.typeOnly then [] else boundMembers i).map fun b => (b.1, n, b.2) := by
  rw [importSentences]
  split
  · rfl
  · refine filterMap_map_some _ Sentence.bound? (fun b => (b.1, n, b.2)) ?_ (boundMembers i)
    exact fun _ => rfl

/-! ### Exports -/

/-- The name under which something is exported. -/
def exportedName (e : ExportedName) : String := (e.newName.getD e.name).value

/-- The names that a statement exports; those of a whole module that is exported are not known. -/
def exportedNames : Export → List String
  | .declaration .typeOnly _ _ => []
  | .declaration _ _ true => ["default"]
  | .declaration d _ false => d.names
  | .value _ => ["default"]
  | .names names _ => names.map exportedName
  | .whole name _ => [name.value]
  | .typeOnly | .all _ | .unsupported => []

/-- The specifier of the module that names are exported from. -/
def exportOrigin? : Export → Option String
  | .names _ source => source.map Part.value
  | .all s | .whole _ s => some s.value
  | _ => none

/-- The export without the names that are marked as those of types. -/
def withoutTypes : Export → Export
  | .names names source => .names (names.filter fun e => !e.typeOnly) source
  | e => e

/-- What keeps a declaration and exports what it declares. -/
def declarationSentences (text : String) (names : List String) : (isDefault : Bool) → List Sentence
  | true =>
    match names with
    | name :: _ => [.keep text, .assign .below "default" (.code name)]
    | [] => [.assign .alone "default" (.code text)]
  | false => .keep text :: names.map fun name => .assign .below name (.code name)

/-- What follows when an export has asked for the `n`-th module, if it needs one. -/
def exportSentences (part : Extent → String) (n : Nat) : Export → List Sentence
  | .declaration .typeOnly _ _ => []
  | .declaration d extent isDefault => declarationSentences (part extent) d.names isDefault
  | .value extent => [.assign .alone "default" (.code (part extent))]
  | .names names none =>
    names.map fun e => .assign .behind (exportedName e) (.code e.name.value)
  | .names names (some _) =>
    names.map fun e => .assign .behind (exportedName e) (.member n (.offered e.name.value))
  | .all _ => [.assignAll n]
  | .whole name _ => [.assign .behind name.value (.member n .whole)]
  | .typeOnly | .unsupported => []

lemma exportSentences_declaration (part : Extent → String) (n : Nat) {d : Declaration}
    (extent : Extent) (isDefault : Bool) (h : d ≠ .typeOnly) :
    exportSentences part n (.declaration d extent isDefault) =
      declarationSentences (part extent) d.names isDefault := by
  rw [exportSentences]
  exact h

lemma quiet_of_mem_declaration {text : String} {names : List String} {isDefault : Bool}
    {s : Sentence} (h : s ∈ declarationSentences text names isDefault) :
    s.required? = none ∧ s.bound? = none := by
  cases isDefault with
  | true =>
    cases names with
    | nil =>
      obtain rfl := List.mem_singleton.1 h
      exact ⟨rfl, rfl⟩
    | cons name names =>
      rcases List.mem_cons.1 h with rfl | h
      · exact ⟨rfl, rfl⟩
      · obtain rfl := List.mem_singleton.1 h
        exact ⟨rfl, rfl⟩
  | false =>
    rcases List.mem_cons.1 h with rfl | h
    · exact ⟨rfl, rfl⟩
    · obtain ⟨name, -, rfl⟩ := List.mem_map.1 h
      exact ⟨rfl, rfl⟩

/-- An export neither asks for more modules nor binds names. -/
lemma quiet_of_mem_export {part : Extent → String} {n : Nat} {e : Export} {s : Sentence}
    (h : s ∈ exportSentences part n e) : s.required? = none ∧ s.bound? = none := by
  cases e with
  | declaration d extent isDefault =>
    by_cases hd : d = .typeOnly
    · rw [hd] at h
      cases h
    · rw [exportSentences_declaration part n extent isDefault hd] at h
      exact quiet_of_mem_declaration h
  | names names source =>
    cases source <;>
    · obtain ⟨a, -, rfl⟩ := List.mem_map.1 h
      exact ⟨rfl, rfl⟩
  | value | all | whole =>
    obtain rfl := List.mem_singleton.1 h
    exact ⟨rfl, rfl⟩
  | typeOnly | unsupported => cases h

lemma required_exportSentences (part : Extent → String) (n : Nat) (e : Export) :
    (exportSentences part n e).filterMap Sentence.required? = [] :=
  List.filterMap_eq_nil_iff.2 fun _ h => (quiet_of_mem_export h).1

lemma bound_exportSentences (part : Extent → String) (n : Nat) (e : Export) :
    (exportSentences part n e).filterMap Sentence.bound? = [] :=
  List.filterMap_eq_nil_iff.2 fun _ h => (quiet_of_mem_export h).2

lemma assigned_declaration (text : String) (names : List String) (isDefault : Bool) :
    (declarationSentences text names isDefault).filterMap Sentence.assigned? =
      if isDefault then ["default"] else names := by
  cases isDefault with
  | true => cases names <;> rfl
  | false =>
    exact (filterMap_map_some _ Sentence.assigned? id (fun _ => rfl) names).trans names.map_id

lemma assigned_exportSentences (part : Extent → String) (n : Nat) (e : Export) :
    (exportSentences part n e).filterMap Sentence.assigned? = exportedNames e := by
  cases e with
  | declaration d extent isDefault =>
    by_cases hd : d = .typeOnly
    · rw [hd]
      rfl
    · rw [exportSentences_declaration part n extent isDefault hd, assigned_declaration]
      cases isDefault with
      | true =>
        rw [exportedNames]
        · rfl
        · exact hd
      | false =>
        rw [exportedNames]
        · rfl
        · exact hd
  | names names source =>
    cases source <;> exact filterMap_map_some _ _ exportedName (fun _ => rfl) names
  | typeOnly | value | all | whole | unsupported => rfl

/-! ### The texts that closing puts in -/

lemma written_default (text name : String) :
    written [.keep text, .assign .below "default" (.code name)] =
      text ++ "\n__pw_exports.default = " ++ name ++ ";" := by
  have hassign : (Sentence.assign .below "default" (.code name)).text =
      "\n__pw_exports.default = " ++ name ++ ";" := rfl
  rw [written_cons, written_cons, written_nil, String.append_empty, hassign,
    String.append_assoc, String.append_assoc, String.append_assoc]
  rfl

/-- What closing puts in for an import. -/
lemma closeImport_eq (n : Nat) {i : Import} (text : String)
    (h : i.typeOnly = true ∨ i.source.isSome = true) :
    closeImport n i text =
      .ok ⟨written (requires n (importOrigin? i) ++ importSentences n i), importOrigin? i⟩ := by
  unfold closeImport importSentences importOrigin?
  split
  · rfl
  · obtain ⟨s, hs⟩ := Option.isSome_iff_exists.1 (h.resolve_left ‹_›)
    rw [hs, written_append, Option.map_some, written_requires_some, written_boundMembers]

lemma closeDeclaration_eq (part : Extent → String) (n : Nat) (text : String) {d : Declaration}
    (extent : Extent) (isDefault : Bool) (h : d ≠ .typeOnly) :
    closeExport part n text (.declaration d extent isDefault) =
      .ok { text := written (declarationSentences (part extent) d.names isDefault) } := by
  cases isDefault with
  | true =>
    rw [closeExport]
    · cases d.names with
      | nil => 
        rw [declarationSentences, written_cons, written_nil, String.append_empty]
        rfl
      | cons name names => rw [declarationSentences, written_default]
    · exact h
  | false =>
    rw [closeExport, declarationSentences, written_cons, written_map]
    · rfl
    · exact h

/-- What closing puts in for an export. -/
lemma closeExport_eq (part : Extent → String) (n : Nat) (text : String) {e : Export}
    (h : e ≠ .unsupported) :
    closeExport part n text e =
      .ok ⟨written (requires n (exportOrigin? e) ++ exportSentences part n e), exportOrigin? e⟩ := by
  cases e with
  | unsupported => exact absurd rfl h
  | typeOnly => rfl
  | declaration d extent isDefault =>
    by_cases hd : d = .typeOnly
    · rw [hd]
      rfl
    · rw [closeDeclaration_eq part n text extent isDefault hd,
        exportSentences_declaration part n extent isDefault hd]
      rfl
  | value extent =>
    rw [closeExport, exportSentences, written_append, written_cons, written_nil,
      String.append_empty]
    rfl
  | names names source =>
    cases source with
    | none =>
      rw [closeExport, exportSentences, written_append, written_map]
      exact congrArg (fun t => Except.ok (Replacement.mk t none)) String.empty_append.symm
    | some s =>
      rw [closeExport, exportSentences, written_append, written_map, exportOrigin?,
        Option.map_some, written_requires_some]
      rfl
  | all s =>
    rw [closeExport, exportSentences, written_append, exportOrigin?, written_requires_some,
      written_cons, written_nil, String.append_empty, String.append_assoc, String.append_assoc]
    rfl
  | whole name s =>
    rw [closeExport, exportSentences, written_append, exportOrigin?, written_requires_some,
      written_cons, written_nil, String.append_empty]
    rfl

/-! ### Statements -/

/-- Whether a statement is an import or an export. -/
def crosses (s : Statement) : Bool :=
  match s.form with
  | .imports _ | .exports _ => true
  | _ => false

/-- The specifier of the module that a statement imports or exports from, unless only types are
imported. -/
def specifier? (s : Statement) : Option String :=
  match s.form with
  | .imports i => importOrigin? i
  | .exports e => exportOrigin? e
  | _ => none

/-- The names that a statement imports, with what they stand for. -/
def membersBound (s : Statement) : List (String × Member) :=
  match s.form with
  | .imports i => if i.typeOnly then [] else boundMembers i
  | _ => []

lemma names_membersBound {s : Statement} {i : Import} (h : s.form = .imports i)
    (htypes : i.typeOnly = false) : (membersBound s).map Prod.fst = i.boundNames := by
  rw [membersBound, h]
  dsimp only
  rw [if_neg (by simp [htypes]), map_fst_boundMembers]

/-- The names that a statement exports. -/
def namesExported (s : Statement) : List String :=
  match s.form with
  | .exports e => exportedNames e
  | _ => []

/-- The names that a statement exports, without those that are marked as names of types. -/
def valuesExported (s : Statement) : List String :=
  match s.form with
  | .exports e => exportedNames (withoutTypes e)
  | _ => []

/-- Whether a statement imports or exports nothing but types. -/
def ConcernsTypes (s : Statement) : Prop :=
  match s.form with
  | .imports i => i.typeOnly = true
  | .exports .typeOnly => True
  | .exports (.declaration .typeOnly _ _) => True
  | _ => False

/-- A form that closing knows: not a module that is assigned to a name, and no export that is none
of a declaration, of a value or of names. -/
def IsSupported (s : Statement) : Prop :=
  match s.form with
  | .imports i => i.typeOnly = true ∨ i.source.isSome = true
  | .exports e => e ≠ .unsupported
  | _ => True

/-- What takes the place of a statement that imports or exports, with `n` modules required before
it. -/
def sentences (part : Extent → String) (n : Nat) (s : Statement) : List Sentence :=
  match s.form with
  | .imports i => requires n (importOrigin? i) ++ importSentences n i
  | .exports e => requires n (exportOrigin? e) ++ exportSentences part n e
  | _ => []

variable (part : Extent → String) (n : Nat)

/-- **What concerns types only leaves nothing behind.** -/
theorem sentences_of_concernsTypes {s : Statement} (h : ConcernsTypes s) :
    sentences part n s = [] := by
  obtain ⟨extent, form⟩ := s
  cases form with
  | imports i =>
    have horigin : importOrigin? i = none := if_pos h
    have hsentences : importSentences n i = [] := if_pos h
    dsimp only [sentences]
    rw [horigin, hsentences]
    rfl
  | exports e =>
    cases e with
    | typeOnly => rfl
    | declaration d _ _ =>
      cases d with
      | typeOnly => rfl
      | bindings | named | silent => cases h
    | value | names | all | whole | unsupported => cases h
  | declares | other => cases h

/-- **A statement asks for the module** that it imports or exports from, and for no other. -/
theorem required_sentences (s : Statement) :
    (sentences part n s).filterMap Sentence.required? =
      (specifier? s).toList.map fun x => (x, n) := by
  obtain ⟨extent, form⟩ := s
  cases form with
  | imports i =>
    rw [sentences, List.filterMap_append, required_requires, required_importSentences,
      List.append_nil, specifier?]
  | exports e =>
    rw [sentences, List.filterMap_append, required_requires, required_exportSentences,
      List.append_nil, specifier?]
  | declares | other => rfl

/-- **Every name that is imported is bound** once, to what it stands for in the module. -/
theorem bound_sentences (s : Statement) :
    (sentences part n s).filterMap Sentence.bound? =
      (membersBound s).map fun b => (b.1, n, b.2) := by
  obtain ⟨extent, form⟩ := s
  cases form with
  | imports i =>
    rw [sentences, List.filterMap_append, bound_requires, List.nil_append, bound_importSentences,
      membersBound]
  | exports e =>
    rw [sentences, List.filterMap_append, bound_requires, List.nil_append, bound_exportSentences,
      membersBound, List.map_nil]
  | declares | other => rfl

/-- **Every exported name is assigned** once for each time it is exported. -/
theorem assigned_sentences (s : Statement) :
    (sentences part n s).filterMap Sentence.assigned? = namesExported s := by
  obtain ⟨extent, form⟩ := s
  cases form with
  | imports i =>
    rw [sentences, List.filterMap_append, assigned_requires, List.nil_append,
      assigned_importSentences, namesExported]
  | exports e =>
    rw [sentences, List.filterMap_append, assigned_requires, List.nil_append,
      assigned_exportSentences, namesExported]
  | declares | other => rfl

lemma closeStatement?_of_supported {s : Statement} (h : IsSupported s) :
    closeStatement? part n s =
      if crosses s then some (.ok ⟨written (sentences part n s), specifier? s⟩) else none := by
  obtain ⟨extent, form⟩ := s
  cases form with
  | imports i => exact congrArg some (closeImport_eq n _ h)
  | exports e => exact congrArg some (closeExport_eq part n _ h)
  | declares | other => rfl

end Mender.Module
