import Mathlib.Data.List.Infix
import Mathlib.Tactic.Common
import Mathlib.Tactic.Lemma
import Mender.Component.Fallback
import Mender.Module.Stub

/-!
Text that is put into pages.

Escaped text has neither angle brackets nor quotes, and its entities give it back. So where it stands
between two tags or in the quotes of an attribute, it stays there: the tags of a page do not depend on
it, and it is read from the page as it was.
-/

namespace Mender.Markup

/-! ### Escaped text -/

/-- A text with characters in the place of their entities. -/
def unescape : List Char → List Char
  | '&' :: 'a' :: 'm' :: 'p' :: ';' :: r => '&' :: unescape r
  | '&' :: 'l' :: 't' :: ';' :: r => '<' :: unescape r
  | '&' :: 'g' :: 't' :: ';' :: r => '>' :: unescape r
  | '&' :: 'q' :: 'u' :: 'o' :: 't' :: ';' :: r => '"' :: unescape r
  | '&' :: '#' :: '3' :: '9' :: ';' :: r => '\'' :: unescape r
  | c :: r => c :: unescape r
  | [] => []

/-- The character ends no text and no quoted value, and begins no tag. -/
def Confined (c : Char) : Prop := c ≠ '<' ∧ c ≠ '>' ∧ c ≠ '"' ∧ c ≠ '\''

instance : DecidablePred Confined := fun _ => inferInstanceAs (Decidable (_ ∧ _))

/-- What a character is written as: an entity that gives it back, or itself. -/
inductive Written (c : Char) : List Char → Prop
  | entity (e : String) (tail : List Char) (he : entity? c = some e) (htext : e.toList = '&' :: tail)
      (hamp : '&' ∉ tail) (hconfined : ∀ d ∈ '&' :: tail, Confined d)
      (hback : ∀ r, unescape ('&' :: tail ++ r) = c :: unescape r) : Written c ('&' :: tail)
  | itself (hamp : c ≠ '&') (hconfined : Confined c) : Written c [c]

lemma unescape_cons {c : Char} (h : c ≠ '&') (r : List Char) : unescape (c :: r) = c :: unescape r := by
  conv_lhs => unfold unescape
  split <;> simp_all

lemma written_escapeChar (c : Char) : Written c (escapeChar c) := by
  unfold escapeChar
  fun_cases entity? c with
  | case6 _ hamp hlt hgt hquote hsingle => exact .itself hamp ⟨hlt, hgt, hquote, hsingle⟩
  | _ => exact .entity _ _ rfl rfl (by decide) (List.forall_iff_forall_mem.1 (by decide)) fun _ => rfl

lemma escape_cons (c : Char) (t : List Char) : escape (c :: t) = escapeChar c ++ escape t :=
  List.flatMap_cons

/-- **Nothing is lost.** -/
theorem unescape_escape (t : List Char) : unescape (escape t) = t := by
  induction t with
  | nil => rfl
  | cons c t ih =>
    have hw := written_escapeChar c
    rw [escape_cons]
    generalize escapeChar c = u at hw ⊢
    cases hw with
    | entity e tail he htext hamp hconfined hback => rw [hback, ih]
    | itself hamp hconfined => rw [List.singleton_append, unescape_cons hamp, ih]

/-- **Nothing gets out.** -/
theorem confined_escape (t : List Char) : ∀ d ∈ escape t, Confined d := by
  intro d hd
  obtain ⟨c, -, hc⟩ := List.mem_flatMap.1 hd
  have hw := written_escapeChar c
  generalize escapeChar c = u at hw hc
  cases hw with
  | entity e tail he htext hamp hconfined hback => exact hconfined d hc
  | itself hamp hconfined => exact List.mem_singleton.1 hc ▸ hconfined

/-- **Every ampersand begins an entity.** -/
theorem entity_of_ampersand {t a r : List Char} (h : escape t = a ++ '&' :: r) :
    ∃ c e, entity? c = some e ∧ e.toList <+: '&' :: r := by
  induction t generalizing a with
  | nil => exact absurd h (by simp [escape])
  | cons c t ih =>
    have hw := written_escapeChar c
    rw [escape_cons] at h
    generalize escapeChar c = u at hw h
    rcases List.append_eq_append_iff.1 h with ⟨v, -, hv⟩ | ⟨v, hu, hv⟩
    · exact ih hv
    cases v with
    | nil => exact ih (a := []) hv.symm
    | cons d v =>
      -- the ampersand stands in what the first character is written as, so it begins it
      obtain ⟨rfl, rfl⟩ := List.cons.inj hv
      cases hw with
      | entity e tail he htext hamp hconfined hback =>
        cases a with
        | nil =>
          obtain ⟨-, rfl⟩ := List.cons.inj hu
          exact ⟨c, e, he, htext ▸ List.prefix_append _ _⟩
        | cons x a =>
          obtain ⟨-, rfl⟩ := List.cons.inj hu
          exact absurd (List.mem_append_right a List.mem_cons_self) hamp
      | itself hamp hconfined =>
        have hmem : '&' ∈ [c] := hu ▸ List.mem_append_right a List.mem_cons_self
        exact absurd (List.mem_singleton.1 hmem).symm hamp

lemma unescape_append {l : List Char} (h : '&' ∉ l) (r : List Char) : unescape (l ++ r) = l ++ unescape r := by
  induction l with
  | nil => rfl
  | cons c l ih =>
    obtain ⟨hc, hl⟩ := not_or.1 (mt List.mem_cons.2 h)
    rw [List.cons_append, unescape_cons (Ne.symm hc), ih hl, List.cons_append]

/-! ### Pages -/

/-- A tag of a page with its attributes in their order. -/
structure PageTag where
  closing : Bool := false
  name : List Char
  attributes : List (List Char × List Char) := []
  deriving DecidableEq

/-- A page as a row of tags, each with the text in front of it, and the text behind the last one. -/
structure Page where
  rows : List (List Char × PageTag) := []
  text : List Char := []
  deriving DecidableEq

namespace Page

def tags (p : Page) : List PageTag := p.rows.map (·.2)

/-- The texts in front of the tags, between them and behind them. -/
def texts (p : Page) : List (List Char) := p.rows.map (·.1) ++ [p.text]

end Page

/-- What a place of a page lies in. -/
inductive PageMode
  | text
  /-- Behind the bracket that may begin a tag. -/
  | opening
  | closing
  /-- A declaration or a comment, which ends with the next bracket. -/
  | aside
  | name
  | between
  | key
  | behindKey
  | equals
  | quoted (quote : Char)
  | bare
  deriving DecidableEq

/-- What has been read of a page, with the tag and the attribute that are being read. -/
structure PageScan where
  mode : PageMode := .text
  page : Page := {}
  tag : PageTag := { name := [] }
  key : List Char := []
  value : List Char := []
  deriving DecidableEq

namespace PageScan

def addText (t : List Char) (s : PageScan) : PageScan :=
  { s with page := { s.page with text := s.page.text ++ t } }

def beginTag (closing : Bool) (c : Char) (s : PageScan) : PageScan :=
  { s with mode := .name, tag := { closing, name := [c] } }

def endTag (s : PageScan) : PageScan where
  page := { rows := s.page.rows ++ [(s.page.text, s.tag)] }

def endAttribute (s : PageScan) : PageScan where
  mode := .between
  page := s.page
  tag := { s.tag with attributes := s.tag.attributes ++ [(s.key, s.value)] }

def isSpace (c : Char) : Bool := "\t\n\x0c\r ".toList.contains c

/-- Reads a character as a browser does where a page has neither comments nor scripts. -/
def step (s : PageScan) (c : Char) : PageScan :=
  match s.mode with
  | .text => if c = '<' then { s with mode := .opening } else s.addText [c]
  | .opening =>
    if c.isAlpha then s.beginTag false c
    else if c = '/' then { s with mode := .closing }
    else if c = '!' ∨ c = '?' then { s with mode := .aside }
    else if c = '<' then s.addText ['<']
    else { s.addText ['<', c] with mode := .text }
  | .closing =>
    if c.isAlpha then s.beginTag true c
    else { s with mode := if c = '>' then .text else .aside }
  | .aside => if c = '>' then { s with mode := .text } else s
  | .name =>
    if c = '>' then s.endTag
    else if isSpace c ∨ c = '/' then { s with mode := .between }
    else { s with tag := { s.tag with name := s.tag.name ++ [c] } }
  | .between =>
    if c = '>' then s.endTag
    else if isSpace c ∨ c = '/' then s
    else { s with mode := .key, key := [c] }
  | .key =>
    if c = '>' then s.endAttribute.endTag
    else if c = '/' then s.endAttribute
    else if c = '=' then { s with mode := .equals }
    else if isSpace c then { s with mode := .behindKey }
    else { s with key := s.key ++ [c] }
  | .behindKey =>
    if c = '>' then s.endAttribute.endTag
    else if c = '/' then s.endAttribute
    else if c = '=' then { s with mode := .equals }
    else if isSpace c then s
    else { s.endAttribute with mode := .key, key := [c] }
  | .equals =>
    if c = '>' then s.endAttribute.endTag
    else if c = '"' ∨ c = '\'' then { s with mode := .quoted c }
    else if isSpace c then s
    else { s with mode := .bare, value := [c] }
  | .quoted quote => if c = quote then s.endAttribute else { s with value := s.value ++ [c] }
  | .bare =>
    if c = '>' then s.endAttribute.endTag
    else if isSpace c then s.endAttribute
    else { s with value := s.value ++ [c] }

def run (s : PageScan) (t : List Char) : PageScan := t.foldl step s

lemma run_append (s : PageScan) (t u : List Char) : s.run (t ++ u) = (s.run t).run u := List.foldl_append

/-- A text without an opening bracket is a text of the page. -/
lemma run_text {t : List Char} (ht : '<' ∉ t) {s : PageScan} (hs : s.mode = .text) :
    s.run t = s.addText t := by
  induction t generalizing s with
  | nil =>
    rw [addText, List.append_nil]
    rfl
  | cons c t ih =>
    obtain ⟨hc, ht⟩ := not_or.1 (mt List.mem_cons.2 ht)
    have hstep : s.step c = s.addText [c] := by
      unfold step
      rw [hs]
      exact if_neg (Ne.symm hc)
    have hrest : (s.addText [c]).run t = (s.addText [c]).addText t := ih ht hs
    show (s.step c).run t = _
    rw [hstep, hrest, addText, addText, addText, List.append_assoc]
    rfl

/-- A text without the quote is a value. -/
lemma run_quoted {t : List Char} {quote : Char} (ht : quote ∉ t) {s : PageScan}
    (hs : s.mode = .quoted quote) : s.run t = { s with value := s.value ++ t } := by
  induction t generalizing s with
  | nil =>
    rw [List.append_nil]
    rfl
  | cons c t ih =>
    obtain ⟨hc, ht⟩ := not_or.1 (mt List.mem_cons.2 ht)
    have hstep : s.step c = { s with value := s.value ++ [c] } := by
      unfold step
      rw [hs]
      exact if_neg (Ne.symm hc)
    have hrest : ({ s with value := s.value ++ [c] } : PageScan).run t = _ := ih ht hs
    show (s.step c).run t = _
    rw [hstep, hrest, List.append_assoc]
    rfl

end PageScan

/-- A text as a page. A tag that is not closed is left out. -/
def page (t : List Char) : Page := (PageScan.run {} t).page

/-! ### Pages as they are written -/

/-- A character of a tag's name or of a key. -/
def NameChar (c : Char) : Prop := c.isAlpha ∨ c = '-'

instance : DecidablePred NameChar := fun _ => inferInstanceAs (Decidable (_ ∨ _))

lemma NameChar.ne {c d : Char} (hc : NameChar c) (hd : ¬NameChar d) : c ≠ d := by
  rintro rfl
  exact hd hc

lemma NameChar.not_isSpace {c : Char} (hc : NameChar c) : ¬PageScan.isSpace c := by
  intro h
  have hmem : c ∈ "\t\n\x0c\r ".toList := List.contains_iff_mem.1 h
  have hspaces : ∀ d ∈ "\t\n\x0c\r ".toList, ¬NameChar d := List.forall_iff_forall_mem.1 (by decide)
  exact hspaces c hmem hc

namespace PageTag

def attributeText (e : List Char × List Char) : List Char :=
  ' ' :: (e.1 ++ ('=' :: '"' :: (e.2 ++ ['"'])))

def text (g : PageTag) : List Char :=
  '<' :: ((if g.closing then ['/'] else []) ++ (g.name ++ (g.attributes.flatMap attributeText ++ ['>'])))

/-- The key is a name, and the value ends where it is closed. -/
def PlainAttribute (e : List Char × List Char) : Prop := e.1 ≠ [] ∧ (∀ c ∈ e.1, NameChar c) ∧ '"' ∉ e.2

def Plain (g : PageTag) : Prop :=
  g.name.head?.any Char.isAlpha ∧ (∀ c ∈ g.name, NameChar c) ∧ ∀ e ∈ g.attributes, PlainAttribute e

instance : DecidablePred PlainAttribute := fun e =>
  have : Decidable (∀ c ∈ e.1, NameChar c) := List.decidableBAll _ _
  inferInstanceAs (Decidable (_ ∧ _))

instance : DecidablePred Plain := fun g =>
  have : Decidable (∀ c ∈ g.name, NameChar c) := List.decidableBAll _ _
  inferInstanceAs (Decidable (_ ∧ _))

end PageTag

namespace Page

def written (p : Page) : List Char := p.rows.flatMap (fun r => r.1 ++ r.2.text) ++ p.text

/-- Its texts have no brackets. -/
structure Plain (p : Page) : Prop where
  tags : ∀ g ∈ p.tags, g.Plain
  texts : ∀ t ∈ p.texts, '<' ∉ t

end Page

namespace PageScan

section

variable (p : Page) (g : PageTag)

lemma run_name {t : List Char} (ht : ∀ c ∈ t, NameChar c) :
    run { mode := .name, page := p, tag := g } t =
      { mode := .name, page := p, tag := { g with name := g.name ++ t } } := by
  induction t generalizing g with
  | nil =>
    rw [List.append_nil]
    rfl
  | cons c t ih =>
    obtain ⟨hc, ht⟩ := List.forall_mem_cons.1 ht
    have hbracket : c ≠ '>' := hc.ne (by decide)
    have hend : ¬(isSpace c ∨ c = '/') := not_or.2 ⟨hc.not_isSpace, hc.ne (by decide)⟩
    show run (step _ c) t = _
    simp only [step, if_neg hbracket, if_neg hend]
    rw [ih _ ht, List.append_assoc, List.singleton_append]

lemma run_key {t : List Char} (ht : ∀ c ∈ t, NameChar c) (k : List Char) :
    run { mode := .key, page := p, tag := g, key := k } t =
      { mode := .key, page := p, tag := g, key := k ++ t } := by
  induction t generalizing k with
  | nil =>
    rw [List.append_nil]
    rfl
  | cons c t ih =>
    obtain ⟨hc, ht⟩ := List.forall_mem_cons.1 ht
    have hbracket : c ≠ '>' := hc.ne (by decide)
    have hslash : c ≠ '/' := hc.ne (by decide)
    have hequals : c ≠ '=' := hc.ne (by decide)
    show run (step _ c) t = _
    simp only [step, if_neg hbracket, if_neg hslash, if_neg hequals, if_neg hc.not_isSpace]
    rw [ih ht, List.append_assoc, List.singleton_append]

/-- An attribute is read as it is written, behind the name and behind other attributes. -/
lemma run_attribute {m : PageMode} (hm : m = .name ∨ m = .between) {e : List Char × List Char}
    (he : PageTag.PlainAttribute e) :
    run { mode := m, page := p, tag := g } (PageTag.attributeText e) =
      { mode := .between, page := p, tag := { g with attributes := g.attributes ++ [e] } } := by
  obtain ⟨k, v⟩ := e
  obtain ⟨hk, hname, hv⟩ := he
  cases k with
  | nil => exact absurd rfl hk
  | cons c k =>
    obtain ⟨hc, hname⟩ := List.forall_mem_cons.1 hname
    have hblank : step { mode := m, page := p, tag := g } ' ' = { mode := .between, page := p, tag := g } := by
      rcases hm with rfl | rfl <;> rfl
    have hbracket : c ≠ '>' := hc.ne (by decide)
    have hend : ¬(isSpace c ∨ c = '/') := not_or.2 ⟨hc.not_isSpace, hc.ne (by decide)⟩
    have hkey : step { mode := .between, page := p, tag := g } c =
        { mode := .key, page := p, tag := g, key := [c] } := by
      simp only [step, if_neg hbracket, if_neg hend]
    show run (step (step _ ' ') c) (k ++ '=' :: '"' :: (v ++ ['"'])) = _
    rw [hblank, hkey, run_append, run_key p g hname]
    show run { mode := .quoted '"', page := p, tag := g, key := c :: k } (v ++ ['"']) = _
    rw [run_append, run_quoted hv rfl]
    rfl

lemma run_attributes {m : PageMode} (hm : m = .name ∨ m = .between) {l : List (List Char × List Char)}
    (hl : ∀ e ∈ l, PageTag.PlainAttribute e) :
    run { mode := m, page := p, tag := g } (l.flatMap PageTag.attributeText ++ ['>']) =
      endTag { page := p, tag := { g with attributes := g.attributes ++ l } } := by
  induction l generalizing m g with
  | nil =>
    rw [List.append_nil]
    rcases hm with rfl | rfl <;> rfl
  | cons e l ih =>
    obtain ⟨he, hl⟩ := List.forall_mem_cons.1 hl
    rw [List.flatMap_cons, List.append_assoc, run_append, run_attribute p g hm he, ih _ (.inr rfl) hl,
      List.append_assoc, List.singleton_append]

/-- **A tag is read as it is written.** -/
lemma run_tag (hg : g.Plain) : run { page := p } g.text = endTag { page := p, tag := g } := by
  obtain ⟨closing, name, attributes⟩ := g
  obtain ⟨hhead, hname, hattributes⟩ := hg
  obtain ⟨c, t, rfl⟩ : ∃ c t, name = c :: t := by
    cases name with
    | nil => exact absurd hhead Bool.false_ne_true
    | cons c t => exact ⟨c, t, rfl⟩
  have hc : c.isAlpha := hhead
  have hname : ∀ d ∈ t, NameChar d := (List.forall_mem_cons.1 hname).2
  have hbegin : run { page := p } ('<' :: ((if closing then ['/'] else []) ++ [c])) =
      { mode := .name, page := p, tag := { closing, name := [c] } } := by
    cases closing with
    | false =>
      show step { mode := .opening, page := p } c = _
      exact if_pos hc
    | true =>
      show step { mode := .closing, page := p } c = _
      exact if_pos hc
  have htext : PageTag.text { closing, name := c :: t, attributes } =
      ('<' :: ((if closing then ['/'] else []) ++ [c])) ++
        (t ++ (attributes.flatMap PageTag.attributeText ++ ['>'])) := by
    simp [PageTag.text]
  rw [htext, run_append, hbegin, run_append, run_name p _ hname, run_attributes p _ (.inl rfl) hattributes,
    List.nil_append, List.singleton_append]

end

lemma run_rows {l : List (List Char × PageTag)} (hl : ∀ r ∈ l, '<' ∉ r.1 ∧ r.2.Plain)
    (R : List (List Char × PageTag)) :
    run { page := { rows := R } } (l.flatMap fun r => r.1 ++ r.2.text) = { page := { rows := R ++ l } } := by
  induction l generalizing R with
  | nil =>
    rw [List.append_nil]
    rfl
  | cons r l ih =>
    obtain ⟨⟨htext, htag⟩, hl⟩ := List.forall_mem_cons.1 hl
    rw [List.flatMap_cons, List.append_assoc, run_append, run_text htext rfl, run_append]
    show run (run { page := { rows := R, text := r.1 } } r.2.text) _ = _
    rw [run_tag _ _ htag]
    show run { page := { rows := R ++ [r] } } _ = _
    rw [ih hl, List.append_assoc, List.singleton_append]

end PageScan

/-- **A page is read as it is written.** -/
theorem page_written {p : Page} (h : p.Plain) : page p.written = p := by
  have hrows : PageScan.run {} (p.rows.flatMap fun r => r.1 ++ r.2.text) = { page := { rows := p.rows } } :=
    PageScan.run_rows (fun r hr => ⟨h.texts _ (List.mem_append_left _ (List.mem_map_of_mem hr)),
      h.tags _ (List.mem_map_of_mem hr)⟩) []
  have htext : '<' ∉ p.text := h.texts _ (List.mem_append_right _ List.mem_cons_self)
  rw [page, Page.written, PageScan.run_append, hrows, PageScan.run_text htext rfl]
  rfl

/-! ### Pages that show a text -/

namespace PageTag

def decoded (g : PageTag) : PageTag := { g with attributes := g.attributes.map fun e => (e.1, unescape e.2) }

end PageTag

namespace Page

/-- The page as it is shown. -/
def decoded (p : Page) : Page where
  rows := p.rows.map fun r => (unescape r.1, r.2.decoded)
  text := unescape p.text

end Page

/-- A source that is not executed, under a notice with the reason. -/
def fallbackPage (source reason : List Char) : Page where
  rows := [
    ([], { name := "div".toList, attributes := [("class".toList, "pw-preview-fallback".toList),
      ("data-preview".toList, "source".toList)] }),
    ("\n".toList, { name := "p".toList, attributes := [("class".toList, "pw-preview-notice".toList)] }),
    ("Preview not executed: ".toList ++ reason, { closing := true, name := "p".toList }),
    ("\n".toList, { name := "pre".toList }),
    ([], { name := "code".toList, attributes := [("class".toList, "language-svelte".toList)] }),
    (source, { closing := true, name := "code".toList }),
    ([], { closing := true, name := "pre".toList }),
    ("\n".toList, { closing := true, name := "div".toList })]

/-- A name in the place of a component, as an attribute and as a text. -/
def placeholderPage (name : List Char) : Page where
  rows := [
    ([], { name := "div".toList, attributes := [("data-missing-dependency".toList, name),
      ("style".toList,
        "border:1px dashed #c0392b;padding:4px 8px;color:#c0392b;font:12px monospace".toList)] }),
    ("missing component: ".toList ++ name, { closing := true, name := "div".toList })]

lemma fallback_toList (source reason : String) : (Component.fallback source reason).toList =
    (fallbackPage (escape source.toList) (escape reason.toList)).written := by
  unfold Component.fallback
  simp only [escapeText, String.toList_append, String.toList_ofList, fallbackPage, Page.written, PageTag.text,
    PageTag.attributeText, List.flatMap_cons, List.flatMap_nil]
  simp

lemma placeholder_toList (name : String) :
    (Module.placeholder name).toList = (placeholderPage (escape name.toList)).written := by
  unfold Module.placeholder
  simp only [escapeText, String.toList_append, String.toList_ofList, placeholderPage, Page.written, PageTag.text,
    PageTag.attributeText, List.flatMap_cons, List.flatMap_nil]
  simp

lemma not_mem_escape {c : Char} (hc : ¬Confined c) (t : List Char) : c ∉ escape t :=
  fun h => hc (confined_escape t c h)

lemma plain_fallbackPage (source reason : List Char) : (fallbackPage (escape source) (escape reason)).Plain where
  tags := by
    have htags : ∀ g ∈ (fallbackPage [] []).tags, g.Plain := by decide
    exact htags
  texts := by
    have hlabel : '<' ∉ "Preview not executed: ".toList := by decide
    have hbreak : '<' ∉ "\n".toList := by decide
    have hsource : '<' ∉ escape source := not_mem_escape (by decide) source
    have hreason : '<' ∉ escape reason := not_mem_escape (by decide) reason
    simp only [Page.texts, fallbackPage, List.map_cons, List.map_nil, List.cons_append, List.nil_append,
      List.forall_mem_cons, List.mem_append, not_or]
    exact ⟨List.not_mem_nil, hbreak, ⟨hlabel, hreason⟩, hbreak, List.not_mem_nil, hsource, List.not_mem_nil, hbreak,
      List.not_mem_nil, fun _ h => absurd h List.not_mem_nil⟩

lemma plain_placeholderPage (name : List Char) : (placeholderPage (escape name)).Plain where
  tags := by
    have hname : '"' ∉ escape name := not_mem_escape (by decide) name
    have hkey : PageTag.PlainAttribute ("data-missing-dependency".toList, []) := by decide
    have hstyle : PageTag.PlainAttribute ("style".toList,
        "border:1px dashed #c0392b;padding:4px 8px;color:#c0392b;font:12px monospace".toList) := by decide
    have hend : PageTag.Plain { closing := true, name := "div".toList } := by decide
    simp only [Page.tags, placeholderPage, List.map_cons, List.map_nil, List.forall_mem_cons, PageTag.Plain]
    exact ⟨⟨hend.1, hend.2.1, ⟨hkey.1, hkey.2.1, hname⟩, hstyle, fun _ h => absurd h List.not_mem_nil⟩, hend,
      fun _ h => absurd h List.not_mem_nil⟩
  texts := by
    have hlabel : '<' ∉ "missing component: ".toList := by decide
    have hname : '<' ∉ escape name := not_mem_escape (by decide) name
    simp only [Page.texts, placeholderPage, List.map_cons, List.map_nil, List.cons_append, List.nil_append,
      List.forall_mem_cons, List.mem_append, not_or]
    exact ⟨List.not_mem_nil, ⟨hlabel, hname⟩, List.not_mem_nil, fun _ h => absurd h List.not_mem_nil⟩

/-- **The page of a component that is not executed.** -/
theorem page_fallback (source reason : String) : page (Component.fallback source reason).toList =
    fallbackPage (escape source.toList) (escape reason.toList) := by
  rw [fallback_toList, page_written (plain_fallbackPage _ _)]

theorem page_placeholder (name : String) :
    page (Module.placeholder name).toList = placeholderPage (escape name.toList) := by
  rw [placeholder_toList, page_written (plain_placeholderPage _)]

lemma decoded_fallbackPage (source reason : List Char) :
    (fallbackPage (escape source) (escape reason)).decoded = fallbackPage source reason := by
  have hlabel : unescape ("Preview not executed: ".toList ++ escape reason) =
      "Preview not executed: ".toList ++ reason := by
    rw [unescape_append (by decide), unescape_escape]
  simp only [Page.decoded, fallbackPage, List.map_cons, List.map_nil, hlabel, unescape_escape]
  rfl

lemma decoded_placeholderPage (name : List Char) :
    (placeholderPage (escape name)).decoded = placeholderPage name := by
  have hlabel : unescape ("missing component: ".toList ++ escape name) = "missing component: ".toList ++ name := by
    rw [unescape_append (by decide), unescape_escape]
  simp only [Page.decoded, placeholderPage, List.map_cons, List.map_nil, PageTag.decoded, hlabel, unescape_escape]
  rfl

/-- **Text stays where it is put.** Escaped text has no bracket and no quote, and its entities give it
back. So a source and a reason add no tag and no attribute to the page they are shown in, and they are
read from it as they are; so is the name of a missing component, as an attribute and as a text. -/
theorem escaped_text_confined (a b source reason name : String) :
    (escapeText (a ++ b) = escapeText a ++ escapeText b ∧
      (∀ c ∈ (escapeText a).toList, c ≠ '<' ∧ c ≠ '>' ∧ c ≠ '"' ∧ c ≠ '\'') ∧
      (∀ t r, (escapeText a).toList = t ++ '&' :: r → ∃ c e, entity? c = some e ∧ e.toList <+: '&' :: r) ∧
      unescape (escapeText a).toList = a.toList) ∧
    ((page (Component.fallback source reason).toList).tags = (page (Component.fallback "" "").toList).tags ∧
      (page (Component.fallback source reason).toList).decoded = fallbackPage source.toList reason.toList) ∧
    (page (Module.placeholder name).toList).decoded = placeholderPage name.toList := by
  refine ⟨⟨?append, ?confined, ?ampersand, ?back⟩, ⟨?tags, ?shown⟩, ?name⟩
  case append => simp only [escapeText, escape, String.toList_append, List.flatMap_append, String.ofList_append]
  case confined =>
    rw [escapeText, String.toList_ofList]
    exact confined_escape a.toList
  case ampersand =>
    intro t r h
    rw [escapeText, String.toList_ofList] at h
    exact entity_of_ampersand h
  case back => rw [escapeText, String.toList_ofList, unescape_escape]
  case tags =>
    rw [page_fallback, page_fallback]
    rfl
  case shown => rw [page_fallback, decoded_fallbackPage]
  case name => rw [page_placeholder, decoded_placeholderPage]

end Mender.Markup
