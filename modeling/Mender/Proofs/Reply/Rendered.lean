import Mathlib
import Mender.Proofs.KeyMap
import Mender.Proofs.Reply.Undone

/-!
Renderings without curly quotes.

A curly quote in the text of a value stands in one of its strings or keys, as long as no object
of the text writes a key twice: of two members with one key the first does not come to be in the
value.
-/

namespace Mender.Reply

open Json

/-- No string and no key of the value has a curly quote. -/
inductive Uncurled : Json → Prop
  | null : Uncurled .null
  | bool {b} : Uncurled (.bool b)
  | int {i} : Uncurled (.int i)
  | real {x} : Uncurled (.real x)
  | str {s} (h : Straight s.toList) : Uncurled (.str s)
  | arr {xs} (h : ∀ x ∈ xs, Uncurled x) : Uncurled (.arr xs)
  | obj {fs} (hk : ∀ e ∈ fs, Straight e.1.toList) (hv : ∀ e ∈ fs, Uncurled e.2) :
      Uncurled (.obj fs)

/-- The texts of a value in which no object writes a key twice. -/
def SpelledOnce : (depth : Nat) → Json → List Char → Prop
  | 0, v, u => Scalar v u
  | d + 1, v, u => Spells (SpelledOnce d) v u ∧
      ∀ es w, Row (Json.Field (SpelledOnce d)) es w → u = '{' :: (w ++ ['}']) → (es.map (·.1)).Nodup

/-- The text is read as the value, and no object in it writes a key twice. -/
def RendersOnce (v : Json) (t : List Char) : Prop :=
  ∃ b u e, t = b ++ (u ++ e) ∧ Spaces b ∧ Spaces e ∧ SpelledOnce depthLimit v u

/-! ### Strings -/

/-- What is read of a literal has its curly quotes. -/
lemma curly_mem_of_stringTail {state : StringState} {t cs r : List Char} {c : Char}
    (hc : c ∈ curlyQuotes) (h : stringTail state t = .ok (cs, r)) (hmem : c ∈ t) :
    c ∈ cs ∨ c ∈ r := by
  induction t generalizing state cs with
  | nil => cases hmem
  | cons d t ih =>
    by_cases hd : state.escaped = true ∨ d ≠ '"'
    · obtain ⟨next, p, hstep⟩ := exists_stepsTo h hd
      obtain ⟨ds, hds, rfl⟩ := map_ok_iff.1 ((hstep.reads t).symm.trans h)
      rcases List.mem_cons.1 hmem with rfl | hmem
      · rw [hstep.curly hc]
        exact .inl List.mem_cons_self
      · exact (ih hds hmem).imp_left (List.mem_append_right p)
    · obtain ⟨hs, hquote⟩ := not_or.1 hd
      obtain rfl := not_not.1 hquote
      obtain ⟨-, -, rfl⟩ := closes_of_stringTail h (Bool.eq_false_of_not_eq_true hs)
      refine .inr ((List.mem_cons.1 hmem).resolve_left ?_)
      rintro rfl
      exact absurd hc (by decide)

lemma straight_of_quoted {s : String} {u : List Char} (hu : Quoted s u)
    (hs : Straight s.toList) : Straight u := by
  obtain ⟨⟨cs, r⟩, hp, he⟩ := exists_of_map_eq_ok (hu.reads [])
  cases he
  rw [String.toList_ofList] at hs
  intro c hc hcurly
  rcases curly_mem_of_stringTail hcurly hp (List.mem_append_left _ hc) with h | h
  · exact hs c h hcurly
  · cases h

/-! ### Values -/

lemma straight_of_scalar {v : Json} {u : List Char} (h : Scalar v u) (hv : Uncurled v) :
    Straight u := by
  rcases solid_of_scalar h with ⟨s, w, rfl, rfl, hw⟩ | ⟨-, hsolid⟩
  · cases hv with
    | str hs => exact List.forall_mem_cons.2 ⟨by decide, straight_of_quoted hw hs⟩
  · exact fun c hc => (isSolid_iff.1 (hsolid c hc)).2.2.2.2

section Parts

variable {α : Type} {P : α → List Char → Prop} {xs : List α} {w : List Char}

lemma straight_of_more (hp : ∀ x ∈ xs, ∀ u, P x u → Straight u) (h : More P xs w) :
    Straight w := by
  induction h with
  | done hb => exact spaces_straight hb
  | next hb hb' hx _ ih =>
    obtain ⟨hhead, htail⟩ := List.forall_mem_cons.1 hp
    exact (spaces_straight hb).append (.cons (by decide)
      ((spaces_straight hb').append ((hhead _ hx).append (ih htail))))

lemma straight_of_row (hp : ∀ x ∈ xs, ∀ u, P x u → Straight u) (h : Row P xs w) :
    Straight w := by
  cases h with
  | empty hb => exact spaces_straight hb
  | parts hb hx hw =>
    obtain ⟨hhead, htail⟩ := List.forall_mem_cons.1 hp
    exact (spaces_straight hb).append ((hhead _ hx).append (straight_of_more htail hw))

end Parts

lemma straight_of_field {P : Json → List Char → Prop} {e : String × Json} {f : List Char}
    (hk : Straight e.1.toList) (hp : ∀ u, P e.2 u → Straight u) (h : Json.Field P e f) :
    Straight f := by
  cases h with
  | mk hks hb hb' hv =>
    exact .cons (by decide) ((straight_of_quoted hks hk).append ((spaces_straight hb).append
      (.cons (by decide) ((spaces_straight hb').append (hp _ hv)))))

lemma straight_of_spelledOnce {d : Nat} {v : Json} {u : List Char} (h : SpelledOnce d v u)
    (hv : Uncurled v) : Straight u := by
  induction d generalizing v u with
  | zero => exact straight_of_scalar h hv
  | succ d ih =>
    obtain ⟨hu, honce⟩ := h
    cases hu with
    | scalar hu => exact straight_of_scalar hu hv
    | @list xs w hw =>
      cases hv with
      | arr hxs =>
        have hrow := straight_of_row (fun x hx u hu => ih hu (hxs x hx)) hw
        exact .cons (by decide) (hrow.append (by decide))
    | @object es w hw =>
      generalize hfs : ofFields es = fs at hv
      cases hv with
      | @obj fs hk hes =>
        have hstay (e) (he : e ∈ es) : e ∈ fs := Json.obj.inj hfs ▸
          mem_foldl_insertEntry (honce es w hw rfl) (.inl he)
        have hrow := straight_of_row (fun e he f hf => straight_of_field (hk e (hstay e he))
          (fun u hu => ih hu (hes e (hstay e he))) hf) hw
        exact .cons (by decide) (hrow.append (by decide))
      | _ => cases hfs

lemma RendersOnce.straight {v : Json} {t : List Char} (h : RendersOnce v t) (hv : Uncurled v) :
    Straight t := by
  obtain ⟨b, u, e, rfl, hb, he, hu⟩ := h
  exact (spaces_straight hb).append ((straight_of_spelledOnce hu hv).append (spaces_straight he))

/-! ### A text without defects -/

lemma marred_literal {escaped : Bool} {u r : List Char} (h : Literal escaped u)
    (hr : Marred (.outside true) r r) :
    Marred .inside ((bif escaped then ['\\'] else []) ++ (u ++ r))
      ((bif escaped then ['\\'] else []) ++ (u ++ r)) := by
  induction h with
  | close => exact .closing List.mem_cons_self hr
  | plain hquote hback _ _ ih =>
    have hdrawn := Marred.draw (.plain hquote hback) ih
    exact hdrawn
  | backslash _ ih => exact ih
  | @escape c u _ _ ih =>
    have hdrawn := Marred.draw (.escape c) ih
    exact hdrawn

/-- A text that is not marred in front of one that is not. -/
def Unmarred (u : List Char) : Prop :=
  ∀ r, (∀ ended, Marred (.outside ended) r r) → ∀ ended, Marred (.outside ended) (u ++ r) (u ++ r)

lemma composes_unmarred : Composes Unmarred where
  nil _ hr := hr
  append {a b} ha hb r hr ended := by
    rw [List.append_assoc]
    exact ha _ (hb r hr) ended
  plain {c} hc r hr ended := by
    refine .keep ?_ (hr _)
    rintro rfl
    cases hc
  string hu r hr ended := .opening List.mem_cons_self (marred_literal hu (hr true))
  object {w} hw r hr ended := by
    rw [List.cons_append, List.append_assoc]
    exact .keep (by decide) (hw _ (fun _ => .keep (by decide) (hr _)) _)

lemma marred_self {t : List Char} {v : Json} (h : parse? t = some v) :
    Marred (.outside false) t t := by
  obtain ⟨b, u, e, rfl, hb, he, hu⟩ := parse?_eq_some_iff.1 h
  have he' := composes_unmarred.spaces he [] fun _ => .done
  rw [List.append_nil] at he'
  exact composes_unmarred.spaces hb _ (composes_unmarred.spelled hu _ he') false

/-! ### Mending -/

/-- **Mending undoes the defects it is for**, and leaves what has none its value. The text is to
have no curly quote of its own, and it has none when its value has none and it writes no key
twice. -/
theorem mendEscapes_undoes {t : List Char} {v : Json} (hv : parse? t = some v)
    (ht : Straight t ∨ Uncurled v ∧ RendersOnce v t) :
    parse? (mendEscapes t) = some v ∧
      ∀ t', Marred (.outside false) t t' → parse? (mendEscapes t') = some v := by
  have hstraight : Straight t := ht.elim id fun h => h.2.straight h.1
  exact ⟨parse?_mendEscapes hv hstraight (marred_self hv),
    fun t' h => parse?_mendEscapes hv hstraight h⟩

/-- All defects at once: a curly quote, a line end, a backslash and a comma. -/
theorem mendEscapes_undoes_all :
    parse? (mendEscapes "\x7b\u201ca\":[\"\\p\n\u201d , ]\x7d".toList) =
      some (.obj [("a", .arr [.str "p\n"])]) := by
  have hv : parse? "\x7b\"a\":[\"p\\n\"]\x7d".toList =
      some (.obj [("a", .arr [.str "p\n"])]) := by cbv
  have hkey : Drawn ['a'] ['a'] := .plain (by decide) (by decide)
  have hstray : Drawn ['p'] ['\\', 'p'] := .stray (by decide) (.plain (by decide) (by decide))
  have hline : Drawn ['\\', 'n'] ['\n'] := .raw (p := ('\n', ['\\', 'n'])) (by decide)
  have hspace : Spaces [' '] := List.forall_mem_singleton.2 rfl
  have hend : Marred (.outside true) [']', '\x7d'] [' ', ',', ' ', ']', '\x7d'] :=
    Marred.comma hspace hspace ⟨']', rfl, rfl⟩ (.keep (by decide) (.keep (by decide) .done))
  have hitem : Marred (.outside false) "\"p\\n\"]\x7d".toList "\"\\p\n\u201d , ]\x7d".toList :=
    .opening (by decide) (.draw hstray (.draw hline (.closing (by decide) hend)))
  have hfield : Marred (.outside false) "\"a\":[\"p\\n\"]\x7d".toList
      "\u201ca\":[\"\\p\n\u201d , ]\x7d".toList :=
    .opening (by decide) (.draw hkey (.closing (by decide)
      (.keep (by decide) (.keep (by decide) hitem))))
  exact (mendEscapes_undoes hv (.inl (by decide))).2 _ (.keep (by decide) hfield)

/-- A curly quote in a member that another of the same key replaces is made straight like any
other. -/
theorem replaced_member_not_mended :
    Uncurled (.obj [("a", .int 1)]) ∧
      parse? "\x7b\"a\":\"\u201c\",\"a\":1\x7d".toList = some (.obj [("a", .int 1)]) ∧
      Marred (.outside false) "\x7b\"a\":\"\u201c\",\"a\":1\x7d".toList
        "\x7b\"a\":\"\u201c\",\"a\":1,\x7d".toList ∧
      parse? (mendEscapes "\x7b\"a\":\"\u201c\",\"a\":1,\x7d".toList) = none := by
  refine ⟨.obj ?_ ?_, by cbv, ?_, by cbv⟩
  · exact List.forall_mem_singleton.2 (by decide)
  · exact List.forall_mem_singleton.2 .int
  · have hkey : Drawn ['a'] ['a'] := .plain (by decide) (by decide)
    have hcurly : Drawn ['\u201C'] ['\u201C'] := .plain (by decide) (by decide)
    have hend : Marred (.outside true) ['\x7d'] [',', '\x7d'] :=
      Marred.comma spaces_nil spaces_nil ⟨'\x7d', rfl, rfl⟩ (.keep (by decide) .done)
    have hlast : Marred (.outside false) "\"a\":1\x7d".toList "\"a\":1,\x7d".toList :=
      .opening (by decide) (.draw hkey (.closing (by decide)
        (.keep (by decide) (.keep (by decide) hend))))
    exact .keep (by decide) (.opening (by decide) (.draw hkey (.closing (by decide)
      (.keep (by decide) (.opening (by decide) (.draw hcurly (.closing (by decide)
        (.keep (by decide) hlast))))))))

end Mender.Reply
