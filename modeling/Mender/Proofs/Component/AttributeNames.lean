import Mender.Proofs.Component.OpenTags
import Mender.Script.Lexeme

/-!
The names of a tag's attributes.

They are read from left to right. An attribute has a value behind a `=`, or none, or it is a name in
braces; quotes and braces are read as they are in the search for the end of the tag. An attribute that
is added has its name read, unless a `=` in front of it waits for a value.
-/

namespace Mender.Component

open Mender.Text Mender.Markup

/-! ### Reading a tag -/

/-- What is being read of an attribute: nothing yet, its name, what follows the name, what follows the
`=`, its value, or what stands in braces in its place. -/
inductive Phase
  | apart
  | name (letters : List Char)
  | named
  | equals
  | value
  | braced (text : List Char)
  deriving DecidableEq

namespace Phase

/-- Behind a sign that says nothing but itself. -/
def letter (c : Char) : Phase → Phase
  | .name w => .name (w ++ [c])
  | .equals | .value => .value
  | _ => .name [c]

/-- Behind a sign that is no quote and no brace, outside of these. -/
def pass (c : Char) (p : Phase) : Phase :=
  if isBlank c then
    match p with
    | .name _ => .named
    | .value | .braced _ => .apart
    | p => p
  else if c = '=' then
    match p with
    | .name _ | .named => .equals
    | _ => .value
  else if c = '/' then
    match p with
    | .equals | .value => .value
    | _ => .apart
  else p.letter c

/-- Behind a brace that opens; what is in it is an attribute if no value can stand there. -/
def opened : Phase → Phase
  | .name _ | .equals | .value => .value
  | _ => .braced []

/-- Behind the brace that closes it. -/
def shut : Phase → Phase
  | .braced _ => .named
  | p => p

/-- Behind a sign within quotes or braces. -/
def put (c : Char) : Phase → Phase
  | .braced w => .braced (w ++ [c])
  | p => p

def next (quote : Option Char) (depth : Nat) (c : Char) (p : Phase) : Phase :=
  match quote with
  | some q => if c = q ∧ depth = 0 then .apart else p.put c
  | none =>
    if depth = 0 then
      if isQuote c then .value
      else if c = '{' then p.opened
      else if c = '>' then .apart
      else p.pass c
    else if c = '}' ∧ depth = 1 then p.shut
    else p.put c

/-- The name in braces, if nothing else is in them. -/
def shorthand (text : List Char) : List (List Char) :=
  if trim text ≠ [] ∧ (trim text).all Script.isNameChar then [trim text] else []

/-- The names that are complete when the second phase follows the first. -/
def ended : Phase → Phase → List (List Char)
  | .name _, .name _ => []
  | .name w, _ => [w]
  | .braced w, .named => shorthand w
  | _, _ => []

end Phase

/-- What was read of a tag so far; of the names the last one comes first. -/
structure Reading where
  phase : Phase := .apart
  quote : Option Char := none
  depth : Nat := 0
  names : List (List Char) := []
  deriving DecidableEq

namespace Reading

def nextQuote (quote : Option Char) (c : Char) : Option Char :=
  match quote with
  | some q => if c = q then none else some q
  | none => if isQuote c then some c else none

def nextDepth (quote : Option Char) (depth : Nat) (c : Char) : Nat :=
  if quote.isSome ∨ isQuote c then depth
  else if c = '{' then depth + 1
  else if c = '}' then depth - 1
  else depth

def step (s : Reading) (c : Char) : Reading where
  phase := s.phase.next s.quote s.depth c
  quote := nextQuote s.quote c
  depth := nextDepth s.quote s.depth c
  names := s.phase.ended (s.phase.next s.quote s.depth c) ++ s.names

def run (s : Reading) (t : List Char) : Reading := t.foldl step s

@[simp] lemma run_nil (s : Reading) : run s [] = s := rfl

@[simp] lemma run_cons (s : Reading) (c : Char) (t : List Char) : run s (c :: t) = run (s.step c) t := rfl

lemma run_append (s : Reading) (t u : List Char) : run s (t ++ u) = run (run s t) u := List.foldl_append

end Reading

/-- The names of the attributes that stand between the name of a tag and its end. -/
def attributeNames (body : List Char) : List (List Char) := (Reading.run {} body).names

/-- The last attribute of a tag is a `=` that waits for a value. -/
def Dangles (body : List Char) : Prop := (Reading.run {} (attributesOf body.dropLast)).phase = .equals

instance (body : List Char) : Decidable (Dangles body) := inferInstanceAs (Decidable (_ = _))

example : attributeNames " src=\x7ba > b ? x : y\x7d alt='' \x7brel\x7d on:click>".toList =
    ["on:click".toList, "rel".toList, "alt".toList, "src".toList] := by
  decide +kernel

/-! ### Quotes and braces -/

namespace Reading

variable {s : Reading} {x r w : List Char}

/-- A tag ends at a `>` where nothing is open. -/
lemma splitTag_step (s : Reading) (c : Char) (r : List Char) :
    splitTag s.quote s.depth (c :: r) =
      if c = '>' ∧ s.quote = none ∧ s.depth = 0 then some ([c], r)
      else (splitTag (s.step c).quote (s.step c).depth r).map (splitTag.put c) := by
  obtain ⟨p, q, d, ns⟩ := s
  cases q with
  | some q => simp [splitTag, step, nextQuote, nextDepth]
  | none =>
    by_cases hquote : isQuote c = true
    · have hne : c ≠ '>' := by
        rintro rfl
        exact absurd hquote (by decide)
      simp [splitTag, step, nextQuote, nextDepth, hquote, hne]
    · by_cases hopen : c = '{'
      · subst hopen
        simp [splitTag, step, nextQuote, nextDepth, hquote]
      · by_cases hshut : c = '}'
        · subst hshut
          simp [splitTag, step, nextQuote, nextDepth, hquote]
        · simp [splitTag, step, nextQuote, nextDepth, hquote, hopen, hshut]

/-- What was read is set aside when the end of a tag is searched for. -/
lemma splitTag_run (hr : r ≠ []) (h : splitTag s.quote s.depth (x ++ r) = some (x ++ r, [])) :
    splitTag (run s x).quote (run s x).depth r = some (r, []) := by
  induction x generalizing s with
  | nil => exact h
  | cons c x ih =>
    rw [List.cons_append, splitTag_step] at h
    split at h
    · exact absurd (List.append_eq_nil_iff.1 (congrArg Prod.snd (Option.some.inj h))).2 hr
    · obtain ⟨⟨t, u⟩, hp, he⟩ := Option.map_eq_some_iff.1 h
      obtain ⟨htext, rfl⟩ := Prod.mk.inj he
      obtain rfl : t = x ++ r := (List.cons.inj htext).2
      exact ih hp

lemma quoted_run (hs : Quoted s.quote) (x : List Char) : Quoted (run s x).quote := by
  induction x generalizing s with
  | nil => exact hs
  | cons c x ih =>
    refine ih ?_
    obtain ⟨p, q, d, ns⟩ := s
    cases q with
    | some q =>
      show Quoted (if c = q then none else some q)
      split
      · exact quoted_none
      · exact hs
    | none =>
      show Quoted (if isQuote c = true then some c else none)
      split
      · next hc => exact quoted_some hc
      · exact quoted_none

/-- Nothing is open. -/
structure Level (s : Reading) : Prop where
  quote : s.quote = none
  depth : s.depth = 0

/-- What is left of a tag is no quote and no sign that is read of its own. -/
lemma plain_of_endsTagName {c : Char} (hc : endsTagName c = true) :
    isQuote c = false ∧ c ≠ '{' ∧ c ≠ '}' ∧ c ≠ '=' := by
  have hne {d : Char} (hd : endsTagName d = false) : c ≠ d := by
    rintro rfl
    rw [hc] at hd
    cases hd
  refine ⟨?_, hne (by decide), hne (by decide), hne (by decide)⟩
  simp [isQuote, hne (d := '"') (by decide), hne (d := '\'') (by decide), hne (d := '`') (by decide)]

/-- What is left of a tag opens nothing and closes nothing. -/
lemma step_ends {c : Char} (hc : endsTagName c = true) (hs : Quoted s.quote) :
    (s.step c).quote = s.quote ∧ (s.step c).depth = s.depth := by
  obtain ⟨hquote, hopen, hshut, -⟩ := plain_of_endsTagName hc
  obtain ⟨p, q, d, ns⟩ := s
  cases q with
  | some q =>
    have hne : c ≠ q := by
      rintro rfl
      rw [hs c rfl] at hquote
      cases hquote
    simp [step, nextQuote, nextDepth, hne]
  | none => simp [step, nextQuote, nextDepth, hquote, hopen, hshut]

/-- **Where a tag is left with its end**, nothing is open. -/
lemma level_of_splitTag (hs : Quoted s.quote) (hw : ∀ c ∈ w, endsTagName c = true)
    (h : splitTag s.quote s.depth w = some (w, [])) : Level s := by
  induction w generalizing s with
  | nil => cases h
  | cons c w ih =>
    obtain ⟨hc, hw⟩ := List.forall_mem_cons.1 hw
    rw [splitTag_step] at h
    split at h
    · next hend => exact ⟨hend.2.1, hend.2.2⟩
    · obtain ⟨⟨t, u⟩, hp, he⟩ := Option.map_eq_some_iff.1 h
      obtain ⟨htext, rfl⟩ := Prod.mk.inj he
      obtain rfl : t = w := (List.cons.inj htext).2
      obtain ⟨hquote, hdepth⟩ := step_ends hc hs
      obtain ⟨hlevel, hlevel'⟩ := ih (s := s.step c) (hquote ▸ hs) hw hp
      exact ⟨hquote ▸ hlevel, hdepth ▸ hlevel'⟩

/-! ### The end of a tag -/

/-- At the end of a tag a name that was being read is complete. -/
lemma next_ends (p : Phase) {c : Char} (hc : endsTagName c = true) :
    p.ended (p.next none 0 c) = p.ended .apart ∧ (p.next none 0 c).ended .apart = [] := by
  obtain ⟨hquote, hopen, -, heq⟩ := plain_of_endsTagName hc
  have hnext : p.next none 0 c = if c = '>' then .apart else p.pass c := by
    simp [Phase.next, hquote, hopen]
  rw [hnext]
  split
  · exact ⟨rfl, rfl⟩
  · next hgt =>
    unfold Phase.pass
    by_cases hblank : isBlank c = true
    · rw [if_pos hblank]
      cases p <;> exact ⟨rfl, rfl⟩
    · obtain rfl : c = '/' := by simpa [endsTagName, hblank, hgt] using hc
      rw [if_neg hblank, if_neg heq, if_pos rfl]
      cases p <;> exact ⟨rfl, rfl⟩

/-- At the end of a tag only a name is complete that was being read. -/
lemma names_ends (hs : Level s) (hne : w ≠ []) (hw : ∀ c ∈ w, endsTagName c = true) :
    (run s w).names = s.phase.ended .apart ++ s.names := by
  induction w generalizing s with
  | nil => exact absurd rfl hne
  | cons c w ih =>
    obtain ⟨hc, hw⟩ := List.forall_mem_cons.1 hw
    obtain ⟨hquote, hdepth⟩ := step_ends hc (hs.quote ▸ quoted_none)
    obtain ⟨hended, hrest⟩ := next_ends s.phase hc
    have hstep : (s.step c).names = s.phase.ended .apart ++ s.names := by
      rw [← hended]
      show s.phase.ended (s.phase.next s.quote s.depth c) ++ s.names = _
      rw [hs.quote, hs.depth]
    rw [run_cons]
    cases hnil : w with
    | nil => exact hstep
    | cons d v =>
      rw [← hnil, ih ⟨hquote.trans hs.quote, hdepth.trans hs.depth⟩ (hnil ▸ List.cons_ne_nil d v) hw, hstep]
      show (s.phase.next s.quote s.depth c).ended .apart ++ _ = _
      rw [hs.quote, hs.depth, hrest, List.nil_append]

/-! ### A name and a value -/

/-- A sign of a name that needs no quotes. -/
def isLetter (c : Char) : Bool := isInert c && !(isBlank c || c == '=' || c == '/')

lemma step_letter (p : Phase) {c : Char} (hc : isLetter c = true) (ns : List (List Char)) :
    step ⟨p, none, 0, ns⟩ c = ⟨p.letter c, none, 0, p.ended (p.letter c) ++ ns⟩ := by
  simp only [isLetter, isInert, Bool.and_eq_true, Bool.not_eq_true', Bool.or_eq_false_iff,
    beq_eq_false_iff_ne] at hc
  obtain ⟨⟨⟨⟨⟨hquote, hopen⟩, hshut⟩, -⟩, hgt⟩, ⟨hblank, heq⟩, hslash⟩ := hc
  have hnext : p.next none 0 c = p.letter c := by
    unfold Phase.next Phase.pass
    simp only [hquote, hopen, hgt, hblank, heq, hslash, if_true, if_false, Bool.false_eq_true]
  have hq : nextQuote none c = none := if_neg (ne_true_of_eq_false hquote)
  have hd : nextDepth none 0 c = 0 := by
    rw [nextDepth, if_neg (by simp [hquote]), if_neg hopen, if_neg hshut]
  show Reading.mk (p.next none 0 c) (nextQuote none c) (nextDepth none 0 c)
    (p.ended (p.next none 0 c) ++ ns) = _
  rw [hnext, hq, hd]

lemma run_name {u : List Char} (hu : u.all isLetter = true) (w : List Char) (ns : List (List Char)) :
    run ⟨.name w, none, 0, ns⟩ u = ⟨.name (w ++ u), none, 0, ns⟩ := by
  induction u generalizing w with
  | nil => rw [List.append_nil, run_nil]
  | cons c u ih =>
    obtain ⟨hc, hu⟩ := Bool.and_eq_true_iff.1 (List.all_cons ▸ hu)
    rw [run_cons, step_letter _ hc]
    exact (ih hu (w ++ [c])).trans (by rw [List.append_assoc]; rfl)

lemma run_value {u : List Char} (hu : u.all isLetter = true) (ns : List (List Char)) :
    run ⟨.value, none, 0, ns⟩ u = ⟨.value, none, 0, ns⟩ := by
  induction u with
  | nil => rfl
  | cons c u ih =>
    obtain ⟨hc, hu⟩ := Bool.and_eq_true_iff.1 (List.all_cons ▸ hu)
    rw [run_cons, step_letter _ hc]
    exact ih hu

lemma run_quoted {u : List Char} (hu : '"' ∉ u) (ns : List (List Char)) :
    run ⟨.value, some '"', 0, ns⟩ u = ⟨.value, some '"', 0, ns⟩ := by
  induction u with
  | nil => rfl
  | cons c u ih =>
    obtain ⟨hc, hu⟩ := not_or.1 (mt List.mem_cons.2 hu)
    have hstep : step ⟨.value, some '"', 0, ns⟩ c = ⟨.value, some '"', 0, ns⟩ := by
      simp [step, Phase.next, Phase.put, Phase.ended, nextQuote, nextDepth, Ne.symm hc]
    rw [run_cons, hstep]
    exact ih hu

end Reading

/-! ### Attributes that are added -/

/-- The two attributes that are added. -/
inductive Fix | image | link
  deriving DecidableEq

instance {p : Fix → Prop} [DecidablePred p] : Decidable (∀ k, p k) :=
  decidable_of_iff (p .image ∧ p .link)
    ⟨fun h k => by cases k; exacts [h.1, h.2], fun h => ⟨h .image, h .link⟩⟩

namespace Fix

/-- The start of the tags that get the attribute. -/
def opening : Fix → List Char
  | image => "<img".toList
  | link => "<a".toList

def extra : Fix → List Char → Option (List Char)
  | image => imageExtra
  | link => linkExtra

/-- The name of the attribute. -/
def key : Fix → List Char
  | image => "alt".toList
  | link => "rel".toList

def value : Fix → List Char
  | image => []
  | link => "noopener noreferrer".toList

/-- The attribute with its value. -/
def addition (k : Fix) : List Char := ' ' :: (k.key ++ '=' :: '"' :: (k.value ++ ['"']))

variable {k : Fix}

lemma isOpening (k : Fix) : IsOpening k.opening := by
  cases k
  · exact isOpening_image
  · exact isOpening_link

lemma extra_cases (k : Fix) (t : List Char) : k.extra t = none ∨ k.extra t = some k.addition := by
  cases k with
  | image => exact (ite_eq_or_eq ..).imp id fun h => h.trans (by decide)
  | link => exact (ite_eq_or_eq ..).symm.imp id fun h => h.trans (by decide)

/-- An attribute that is added is read, unless it is taken for a value. -/
lemma run_addition (k : Fix) {s : Reading} (hs : s.Level) :
    Reading.run s k.addition = if s.phase = .equals then { names := s.names }
      else { names := k.key :: (s.phase.ended .apart ++ s.names) } := by
  have hkey : k.key.all Reading.isLetter = true := by cases k <;> decide
  have hvalue : '"' ∉ k.value := by cases k <;> decide
  obtain ⟨c, w, hcons⟩ : ∃ c w, k.key = c :: w := by cases k <;> exact ⟨_, _, rfl⟩
  obtain ⟨p, q, d, ns⟩ := s
  obtain ⟨rfl, rfl⟩ := hs
  have hspace : Reading.step ⟨p, none, 0, ns⟩ ' ' = ⟨p.pass ' ', none, 0, p.ended .apart ++ ns⟩ := by
    cases p <;> rfl
  rw [hcons] at hkey
  obtain ⟨hc, hw⟩ := Bool.and_eq_true_iff.1 (List.all_cons ▸ hkey)
  rw [addition, hcons, Reading.run_cons, hspace, List.cons_append, Reading.run_cons,
    Reading.step_letter _ hc, Reading.run_append]
  by_cases heq : p = .equals
  · subst heq
    have hvalued : Reading.run ⟨.value, none, 0, ns⟩ ('=' :: '"' :: (k.value ++ ['"'])) =
        { names := ns } := by
      rw [Reading.run_cons, Reading.run_cons, Reading.run_append]
      exact congrArg (Reading.step · '"') (Reading.run_quoted hvalue ns)
    exact (congrArg (Reading.run · _) (Reading.run_value hw ns)).trans hvalued
  · have hname : (p.pass ' ').letter c = .name [c] ∧ (p.pass ' ').ended (.name [c]) = [] := by
      cases p <;> first | exact ⟨rfl, rfl⟩ | exact absurd rfl heq
    have hvalued : ∀ ns, Reading.run ⟨.name (c :: w), none, 0, ns⟩ ('=' :: '"' :: (k.value ++ ['"'])) =
        { names := (c :: w) :: ns } := by
      intro ns
      rw [Reading.run_cons, Reading.run_cons, Reading.run_append]
      exact congrArg (Reading.step · '"') (Reading.run_quoted hvalue ((c :: w) :: ns))
    rw [if_neg heq, hname.1, hname.2, List.nil_append, Reading.run_name hw]
    exact hvalued _

variable {body : List Char}

/-- Nothing is open where the attributes of a tag end. -/
lemma level_attributes (h : IsTag k.opening body) :
    (Reading.run {} (attributesOf body.dropLast)).Level := by
  obtain ⟨w, hw, hends, -⟩ := h.exists_attributes
  have hname : (Reading.run {} k.opening).Level := by cases k <;> exact ⟨rfl, rfl⟩
  have hne : body ≠ [] := by
    obtain ⟨c, r, rfl, -⟩ := h.named
    exact List.cons_ne_nil c r
  have hbody := Reading.splitTag_run (s := {}) hne h.ends
  rw [hname.quote, hname.depth] at hbody
  rw [hw] at hbody
  exact Reading.level_of_splitTag (Reading.quoted_run quoted_none _) hends
    (Reading.splitTag_run (s := {}) (by simp) hbody)

/-- **An attribute that is added** is one more, unless it is taken for a value. -/
theorem attributeNames_amendedBody (h : IsTag k.opening body) :
    attributeNames (amendedBody k.extra body) =
      if k.extra (attributesOf body.dropLast) ≠ none ∧ ¬ Dangles body then k.key :: attributeNames body
      else attributeNames body := by
  obtain ⟨w, hw, hends, -⟩ := h.exists_attributes
  have hne : w ++ ['>'] ≠ [] := by simp
  have hlevel := level_attributes h
  have hnames : attributeNames body =
      (Reading.run {} (attributesOf body.dropLast)).phase.ended .apart ++
        (Reading.run {} (attributesOf body.dropLast)).names := by
    conv_lhs => rw [hw]
    rw [attributeNames, Reading.run_append, Reading.names_ends hlevel hne hends]
  rw [attributeNames, amendedBody_eq hw, Reading.run_append]
  rcases k.extra_cases (attributesOf body.dropLast) with hnone | hsome
  · rw [hnone, if_neg fun h => h.1 rfl, Option.getD_none, List.nil_append,
      Reading.names_ends hlevel hne hends, hnames]
  · rw [hsome, Option.getD_some, Reading.run_append, k.run_addition hlevel]
    by_cases hdangles : Dangles body
    · have hequals : (Reading.run {} (attributesOf body.dropLast)).phase = .equals := hdangles
      rw [if_pos hequals, if_neg fun h => h.2 hdangles, Reading.names_ends ⟨rfl, rfl⟩ hne hends, hnames,
        hequals]
      rfl
    · have hequals : (Reading.run {} (attributesOf body.dropLast)).phase ≠ .equals := hdangles
      rw [if_neg hequals, if_pos ⟨Option.some_ne_none _, hdangles⟩,
        Reading.names_ends ⟨rfl, rfl⟩ hne hends, hnames]
      rfl

/-- The attribute is added to a tag that has one of the name. -/
def Overlooked (k : Fix) (body : List Char) : Prop :=
  k.extra (attributesOf body.dropLast) ≠ none ∧ ¬ Dangles body ∧ k.key ∈ attributeNames body

instance (k : Fix) (body : List Char) : Decidable (k.Overlooked body) :=
  inferInstanceAs (Decidable (_ ∧ _ ∧ _))

end Fix

/-- No attribute that can be added is there twice. -/
def Single (body : List Char) : Prop := ∀ k : Fix, (attributeNames body).count k.key ≤ 1

instance (body : List Char) : Decidable (Single body) :=
  inferInstanceAs (Decidable (∀ k : Fix, (attributeNames body).count k.key ≤ 1))

/-- **A tag whose attributes are there once** keeps that, unless one of them was overlooked. -/
theorem single_amendedBody_iff {k : Fix} {body : List Char} (h : IsTag k.opening body)
    (hsingle : Single body) : Single (amendedBody k.extra body) ↔ ¬ k.Overlooked body := by
  have hnames := Fix.attributeNames_amendedBody h
  constructor
  · rintro hamended ⟨hadded, hdangles, hmem⟩
    have hcount := hamended k
    rw [hnames, if_pos ⟨hadded, hdangles⟩, List.count_cons_self] at hcount
    have := List.count_pos_iff.2 hmem
    omega
  · intro hoverlooked j
    rw [hnames]
    split
    · next hadded =>
      have hnot : k.key ∉ attributeNames body := fun hmem => hoverlooked ⟨hadded.1, hadded.2, hmem⟩
      rw [List.count_cons]
      split
      · next hkey =>
        rw [← beq_iff_eq.1 hkey, List.count_eq_zero.2 hnot]
      · exact hsingle j
    · exact hsingle j

end Mender.Component
