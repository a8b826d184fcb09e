import Mender.Proofs.Preview.Requests

/-!
What a service tells requests apart by.

Results are kept by a digest of the fields of a request with a NUL between each two. The NULs of the
fields themselves are not set apart from these, so the key tells the pieces of the fields between all
NULs, and not which field they come from.
-/

namespace Mender

lemma utf8_inj {a b : List Char} : utf8 a = utf8 b ↔ a = b := by
  refine ⟨fun h => ?_, fun h => by rw [h]⟩
  have hbytes : a.utf8Encode = b.utf8Encode := congrArg List.toByteArray h
  rw [← String.toByteArray_ofList, ← String.toByteArray_ofList, String.toByteArray_inj] at hbytes
  exact String.ofList_inj.1 hbytes

namespace Preview

/-! ### The key of a request -/

namespace Request

/-- The fields that the answer to a request depends on. -/
def fields (r : Request) : List (List Char) :=
  r.name.toList :: r.source.toList ::
    r.dependencies.entries.flatMap fun e => [e.1.toList, e.2.toList]

/-- The pieces between the NULs of the fields. -/
def pieces (r : Request) : List (List Char) := r.fields.flatMap (·.splitOn '\x00')

/-- No field has a NUL. -/
def NulFree (r : Request) : Prop := ∀ f ∈ r.fields, '\x00' ∉ f

/-- Two requests that differ in nothing an answer depends on. -/
structure Same (r r' : Request) : Prop where
  name : r.name = r'.name
  source : r.source = r'.source
  dependencies : r.dependencies = r'.dependencies

end Request

lemma splitOn_intercalate_flatMap {ls : List (List Char)} (c : Char) (h : ls ≠ []) :
    ([c].intercalate ls).splitOn c = ls.flatMap (·.splitOn c) := by
  induction ls with
  | nil => exact absurd rfl h
  | cons l ls ih =>
    cases ls with
    | nil => simp [List.intercalate]
    | cons m ls =>
      have hsplit : [c].intercalate (l :: m :: ls) = l ++ c :: [c].intercalate (m :: ls) := by
        simp [List.intercalate, List.intersperse]
      rw [hsplit, List.splitOn_append_cons_self, ih (List.cons_ne_nil _ _)]
      simp only [List.flatMap_cons]

variable {r r' : Request}

/-- **The key** of a request is that of the pieces of its fields. -/
theorem material_eq_iff : r.material = r'.material ↔ r.pieces = r'.pieces := by
  have hpieces : ∀ q : Request, q.material.splitOn '\x00' = q.pieces := fun q =>
    splitOn_intercalate_flatMap '\x00' (List.cons_ne_nil _ _)
  rw [← hpieces, ← hpieces]
  have hjoined : ∀ q : Request, ['\x00'].intercalate (q.material.splitOn '\x00') = q.material :=
    fun q => List.intercalate_splitOn '\x00'
  refine ⟨fun h => by rw [h], fun h => ?_⟩
  rw [← hjoined r, h, hjoined]

lemma pieces_of_nulFree (h : r.NulFree) : r.pieces = r.fields := by
  have hsplit : ∀ fs : List (List Char), (∀ f ∈ fs, '\x00' ∉ f) →
      fs.flatMap (·.splitOn '\x00') = fs := by
    intro fs hfs
    induction fs with
    | nil => rfl
    | cons f fs ih =>
      rw [List.flatMap_cons, List.splitOn_eq_singleton (hfs f List.mem_cons_self),
        ih fun g hg => hfs g (List.mem_cons_of_mem _ hg), List.singleton_append]
  exact hsplit _ h

lemma entries_inj {l l' : List (String × String)}
    (h : (l.flatMap fun e => [e.1.toList, e.2.toList]) =
      l'.flatMap fun e => [e.1.toList, e.2.toList]) : l = l' := by
  induction l generalizing l' with
  | nil =>
    cases l' with
    | nil => rfl
    | cons e' l' => simp at h
  | cons e l ih =>
    cases l' with
    | nil => simp at h
    | cons e' l' =>
      simp only [List.flatMap_cons, List.cons_append, List.nil_append, List.cons.injEq,
        String.toList_inj] at h
      obtain ⟨hpath, hsource, hrest⟩ := h
      rw [ih hrest, Prod.ext hpath hsource]

/-- The fields say all. -/
lemma same_iff_fields : r.Same r' ↔ r.fields = r'.fields := by
  constructor
  · rintro ⟨hname, hsource, hdeps⟩
    rw [Request.fields, Request.fields, hname, hsource, hdeps]
  · intro h
    simp only [Request.fields, List.cons.injEq, String.toList_inj] at h
    obtain ⟨hname, hsource, hdeps⟩ := h
    have hentries := entries_inj hdeps
    refine ⟨hname, hsource, ?_⟩
    cases hd : r.dependencies
    cases hd' : r'.dependencies
    rw [hd, hd'] at hentries
    congr

/-! ### What a service keeps -/

open Session

variable (s : Service) (now : Nat)

/-- A preview that is new: the request had no result, and now has one. -/
def newPreview (r : Request) (h : Holdings) (answer : Except Failure Output) :
    List (Request × Output) :=
  match cached? s now r h, answer with
  | none, .ok o => [(r, o)]
  | _, _ => []

lemma request_of_mem_newPreview {r : Request} {h : Holdings} {x : Except Failure Output}
    {e : Request × Output} (he : e ∈ newPreview s now r h x) : e.1 = r := by
  unfold newPreview at he
  split at he
  · rw [List.mem_singleton.1 he]
  · cases he

/-- What a service may keep at some moment, with the previews that it has made until then. Its calls
may come in any sessions and at any times. -/
inductive Reached : Holdings → List (Request × Output) → Prop
  | start : Reached {} []
  | compiled {h : Holdings} {l : List (Request × Output)} (hr : Reached h l) (σ : Session)
    (now : Nat) (r : Request) : Reached (σ.answer (s.compile now r h)).2
      (l ++ newPreview s now r h (σ.answer (s.compile now r h)).1)
  | fetched {h : Holdings} {l : List (Request × Output)} (hr : Reached h l) (σ : Session)
    (now : Nat) (id : String) : Reached (σ.answer (s.bundle now id h)).2 l
  | reset {h : Holdings} {l : List (Request × Output)} (hr : Reached h l) : Reached h.reset l

variable {s now} {h : Holdings} {l : List (Request × Output)} (σ : Session)

lemma answer_compile_of_cached {r : Request} (hb : ¬ Reply.blank r.source = true) {o : Output}
    (ho : cached? s now r h = some o) : (σ.answer (s.compile now r h)).1 = .ok o := by
  have hcompile := compileAt_of_cached hb (m := .instant now) ho
  rw [Service.compile, hcompile, answer_map]

/-- Every result that is kept is that of a preview made before, under the key of its request. -/
def Accounted (c : Expiring Output) (l : List (Request × Output)) : Prop :=
  ∀ k slot, c.slots.get? k = some slot → ∃ r, (r, slot.value) ∈ l ∧ r.digest.hex = k

namespace Accounted

variable {c : Expiring Output}

lemma mono (hc : Accounted c l) (l' : List (Request × Output)) : Accounted c (l ++ l') := by
  intro k slot hk
  obtain ⟨r, hr, hkey⟩ := hc k slot hk
  exact ⟨r, List.mem_append_left _ hr, hkey⟩

/-- **One request.** -/
lemma compile (hc : Accounted h.results l) (r : Request) :
    Accounted (σ.answer (s.compile now r h)).2.results
      (l ++ newPreview s now r h (σ.answer (s.compile now r h)).1) := by
  intro k slot hk
  rcases kept_compileAt σ hk with hold | ⟨hkey, hisNew, -, hok⟩
  · exact hc.mono _ k slot hold
  · have hnew : newPreview s now r h (.ok slot.value) = [(r, slot.value)] := by
      have hnone : cached? s now r h = none := hisNew.unknown
      simp only [newPreview, hnone]
    rw [Service.compile, hok, hnew]
    exact ⟨r, List.mem_append_right _ List.mem_cons_self, hkey.symm⟩

end Accounted

/-- **At every moment** the results are those of previews that were made. -/
theorem accounted_of_reached (hr : Reached s h l) : Accounted h.results l := by
  induction hr with
  | start =>
    intro k slot hk
    cases hk
  | compiled _ σ now r ih => exact ih.compile σ r
  | fetched _ σ now id ih =>
    rw [answer_bundle]
    exact ih
  | reset _ ih =>
    intro k slot hk
    cases hk

lemma exists_made (hr : Reached s h l) {r : Request} {o : Output}
    (ho : cached? s now r h = some o) : ∃ q, (q, o) ∈ l ∧ q.digest = r.digest := by
  obtain ⟨slot, hslot, rfl⟩ := Option.map_eq_some_iff.1 ho
  obtain ⟨q, hq, hkey⟩ := accounted_of_reached hr _ slot
    (Expiring.get?_of_swept (Option.filter_eq_some_iff.1 hslot).1)
  exact ⟨q, hq, Digest.hex_inj.1 hkey⟩

/-- **The key of a request** tells the pieces of its fields, and with them a request whose fields have no
NUL from all others like it. If the digests of different texts differ, so far as requests were made, a
result that was kept is given only to a request with the pieces of the one it was made for, and is given
to all of these. -/
theorem key_tells_pieces (r : Request) :
    (∀ r' : Request, (utf8 r.material = utf8 r'.material ↔ r.pieces = r'.pieces) ∧
      (r.NulFree → r'.NulFree → (utf8 r.material = utf8 r'.material ↔ r.Same r')) ∧
      (r.pieces = r'.pieces → ∀ s now h, cached? s now r h = cached? s now r' h)) ∧
    ∀ (s : Service) (h : Holdings) (l : List (Request × Output)) (now : Nat) (o : Output),
      Reached s h l → cached? s now r h = some o →
      (∀ e ∈ l, e.1.digest = r.digest → utf8 e.1.material = utf8 r.material) →
        (∀ σ : Session, Reply.blank r.source = false → (σ.answer (s.compile now r h)).1 = .ok o) ∧
        ∃ q, (q, o) ∈ l ∧ q.pieces = r.pieces ∧ (q.NulFree → r.NulFree → q.Same r) := by
  have hnulFree : ∀ q q' : Request, q.NulFree → q'.NulFree →
      (q.pieces = q'.pieces ↔ q.Same q') := by
    intro q q' hq hq'
    rw [pieces_of_nulFree hq, pieces_of_nulFree hq', same_iff_fields]
  refine ⟨fun r' => ⟨?_, fun hq hq' => ?_, fun hp s now h => ?_⟩, ?_⟩
  · rw [utf8_inj, material_eq_iff]
  · rw [utf8_inj, material_eq_iff, hnulFree r r' hq hq']
  · have hdigest : r.digest = r'.digest := by
      rw [Request.digest, Request.digest, material_eq_iff.2 hp]
    rw [cached?, cached?, hdigest]
  · intro s h l now o hr ho hcoll
    obtain ⟨q, hq, hdigest⟩ := exists_made hr ho
    have hkey : utf8 q.material = utf8 r.material := hcoll (q, o) hq hdigest
    have hpieces : q.pieces = r.pieces := material_eq_iff.1 (utf8_inj.1 hkey)
    refine ⟨fun σ hb => answer_compile_of_cached σ (by simp [hb]) ho, q, hq, hpieces, ?_⟩
    intro hqn hrn
    exact (hnulFree q r hqn hrn).1 hpieces

/-- A service that compiles everything to itself and shows the source. -/
def plainService : Service where
  compiler := fun _ _ _ source => .ok { code := source }
  executes := false

/-- A component with a dependency. -/
def twoFiles : Request := { source := "<p>1</p>", dependencies := .ofList [("./A.svelte", "<b/>")] }

/-- A component alone, with the dependency of `twoFiles` in its source. -/
def oneFile : Request := { source := "<p>1</p>\x00./A.svelte\x00<b/>" }

lemma nulFree_twoFiles : twoFiles.NulFree := by
  have hfields : ∀ f ∈ twoFiles.fields, '\x00' ∉ f := by decide +kernel
  exact hfields

/-- What the service keeps after a preview of the two files. -/
def keptTwoFiles : Holdings := (({} : Session).answer (plainService.compile 0 twoFiles {})).2

-- asked for once more, the preview comes from the one that was made
theorem key_tells_pieces_twoFiles :
    ∃ l o q, Reached plainService keptTwoFiles l ∧
      cached? plainService 1 twoFiles keptTwoFiles = some o ∧ (q, o) ∈ l ∧ q.Same twoFiles := by
  have hr : Reached plainService keptTwoFiles _ := .compiled .start {} 0 twoFiles
  have hfound : (cached? plainService 1 twoFiles keptTwoFiles).isSome = true := by decide +kernel
  obtain ⟨o, ho⟩ := Option.isSome_iff_exists.1 hfound
  have hnew : ∀ e ∈ [] ++ newPreview plainService 0 twoFiles {}
      (({} : Session).answer (plainService.compile 0 twoFiles {})).1, e.1 = twoFiles := by
    intro e he
    rw [List.nil_append] at he
    exact request_of_mem_newPreview _ _ he
  obtain ⟨-, q, hq, -, hsame⟩ := (key_tells_pieces twoFiles).2 _ _ _ _ _ hr ho fun e he _ => by
    rw [hnew e he]
  have hqr : q = twoFiles := hnew (q, o) hq
  exact ⟨_, o, q, hr, ho, hq, hsame (hqr ▸ nulFree_twoFiles) nulFree_twoFiles⟩

/-- A NUL in the source makes a dependency of it, and the two requests share their results. -/
theorem key_of_other_request :
    (¬ ∀ r r' : Request, utf8 r.material = utf8 r'.material → r.Same r') ∧
      ∀ (s : Service) (now : Nat) (h : Holdings) (o : Output) (σ : Session),
        cached? s now twoFiles h = some o → (σ.answer (s.compile now oneFile h)).1 = .ok o := by
  have hkey : twoFiles.material = oneFile.material := by decide +kernel
  constructor
  · intro hall
    have hsource := (hall twoFiles oneFile (congrArg utf8 hkey)).source
    exact absurd hsource (by decide)
  · intro s now h o σ ho
    have hdigest : twoFiles.digest = oneFile.digest := by
      rw [Request.digest, Request.digest, hkey]
    have hother : cached? s now oneFile h = some o := by
      rw [cached?, ← hdigest]
      exact ho
    exact answer_compile_of_cached σ (by decide +kernel) hother

end Preview

end Mender
