/-
What filling in a sheet comes to. Its placeholders are visited in order (`Sheet.visits_expand`): the
first one without a value fails the whole, and otherwise each is replaced by the text of its value
and nothing else changes (`Sheet.expand_first_unfilled`).
-/
import Mathlib.Data.Nat.Digits.Defs
import ScopedCss.Proofs.Selector.Name
import ScopedCss.Proofs.Sheet.Placeholders

namespace ScopedCss

/-! ### Visiting placeholders -/

/-- `x` asks for the values of `ps` in order, fails as the first of them that has none, and else
comes to `a`, where `text` is what these values are filled in as. -/
def Values.Visits {α : Type} (vs : Values) (text : Placeholder → Text) (ps : List Placeholder)
    (x : Except Error α) (a : α) : Prop :=
  (∀ p ∈ ps, ∀ t, vs.fill p = .ok t → text p = t) → x = (fun _ => a) <$> ps.mapM vs.fill

namespace Values.Visits

variable {α β : Type} {vs : Values} {text : Placeholder → Text} {ps qs : List Placeholder}

theorem ok (a : α) : vs.Visits text [] (.ok a) a := fun _ => rfl

theorem bind {x : Except Error α} {f : α → Except Error β} {a : α} {b : β}
    (hx : vs.Visits text ps x a) (hf : vs.Visits text qs (f a) b) :
    vs.Visits text (ps ++ qs) (x >>= f) b := by
  intro h
  obtain ⟨hps, hqs⟩ := List.forall_mem_append.1 h
  rw [hx hps, List.mapM_append]
  cases ps.mapM vs.fill with
  | error e => rfl
  | ok ts =>
    rw [map_ok, ok_bind, ok_bind, hf hqs]
    cases qs.mapM vs.fill <;> rfl

theorem map {x : Except Error α} {a : α} (f : α → β) (hx : vs.Visits text ps x a) :
    vs.Visits text ps (f <$> x) (f a) := by
  intro h
  rw [hx h]
  cases ps.mapM vs.fill <;> rfl

theorem mapM {γ : Type} {f : γ → Except Error α} {g : γ → α} {visited : γ → List Placeholder}
    (h : ∀ c, vs.Visits text (visited c) (f c) (g c)) (as : List γ) :
    vs.Visits text (as.flatMap visited) (as.mapM f) (as.map g) := by
  induction as with
  | nil => exact .ok []
  | cons c as ih =>
    rw [List.mapM_cons, List.flatMap_cons, List.map_cons]
    exact (h c).bind (ih.map (g c :: ·))

end Values.Visits

/-! ### Filling in without failing -/

section FillWith

variable (text : Placeholder → Text)

/-- A fragment with `text` in place of a placeholder. -/
def Fragment.fillWith : Fragment → Fragment
  | .placeholder p => .literal (text p)
  | f => f

def Selector.fillWith (s : Selector) : Selector := ⟨s.fragments.map (Fragment.fillWith text)⟩

def Declaration.fillWith (d : Declaration) : Declaration :=
  if d.isDangling then d
  else
    { d with
      key := d.key.fillWith text
      value := Fragment.merge (d.value.map (Fragment.fillWith text)) }

def AtRule.fillWith (a : AtRule) : AtRule :=
  { a with condition := Fragment.merge (a.condition.map (Fragment.fillWith text)) }

mutual

def Content.fillWith : Content → Content
  | .rule selectors declarations nested location =>
    .rule (selectors.map (Selector.fillWith text)) (declarations.map (Declaration.fillWith text))
      (Sheet.fillWith nested) location
  | .atRule head body => .atRule (head.fillWith text) (Sheet.fillWith body)

/-- A sheet with `text` in place of all placeholders that are written out. -/
def Sheet.fillWith : Sheet → Sheet
  | [] => []
  | c :: cs => c.fillWith :: Sheet.fillWith cs

end

end FillWith

section Expand

variable {text : Placeholder → Text} (vs : Values)

theorem Fragment.visits_expand (f : Fragment) :
    vs.Visits text (placeholders [f]) (f.expand vs) (f.fillWith text) := by
  cases f with
  | literal t => exact .ok _
  | marker => exact .ok _
  | combinator c => exact .ok _
  | placeholder p =>
    intro h
    have htext := h p List.mem_cons_self
    have hvisit : (placeholders [.placeholder p]).mapM vs.fill = (fun t => [t]) <$> vs.fill p := by
      cases hfill : vs.fill p <;> simp [placeholders, placeholder?, hfill]
    rw [hvisit, expand, fillWith]
    cases hfill : vs.fill p with
    | error e => rfl
    | ok t => rw [htext t hfill]; rfl

theorem Fragment.placeholders_eq_flatMap (fs : List Fragment) :
    placeholders fs = fs.flatMap fun f => placeholders [f] := by
  induction fs with
  | nil => rfl
  | cons f fs ih =>
    rw [List.flatMap_cons, ← ih]
    exact List.filterMap_append (l := [f])

theorem Fragment.visits_mapM (fs : List Fragment) :
    vs.Visits text (placeholders fs) (fs.mapM (Fragment.expand vs))
      (fs.map (Fragment.fillWith text)) := by
  rw [placeholders_eq_flatMap]
  exact .mapM (Fragment.visits_expand vs) fs

theorem Selector.visits_expand (s : Selector) :
    vs.Visits text (Fragment.placeholders s.fragments) (s.expand vs) (s.fillWith text) :=
  (Fragment.visits_mapM vs s.fragments).map Selector.mk

theorem Declaration.visits_expand (d : Declaration) :
    vs.Visits text d.placeholders (d.expand vs) (d.fillWith text) := by
  unfold placeholders expand fillWith
  split
  · exact .ok d
  · have hcons : Fragment.placeholders (d.key :: d.value) =
        Fragment.placeholders [d.key] ++ (Fragment.placeholders d.value ++ []) := by
      rw [List.append_nil]
      exact List.filterMap_append (l := [d.key])
    rw [hcons]
    exact (Fragment.visits_expand vs d.key).bind
      (((Fragment.visits_mapM vs d.value).map Fragment.merge).bind (.ok _))

theorem AtRule.visits_expand (a : AtRule) :
    vs.Visits text (Fragment.placeholders a.condition) (a.expand vs) (a.fillWith text) := by
  rw [← List.append_nil (Fragment.placeholders a.condition)]
  exact ((Fragment.visits_mapM vs a.condition).map Fragment.merge).bind (.ok _)

mutual

theorem Content.visits_expand : ∀ c : Content,
    vs.Visits text c.placeholders (c.expand vs) (c.fillWith text)
  | .rule selectors declarations nested location => by
    rw [Content.placeholders, ← List.append_nil (Sheet.placeholders nested)]
    exact (Values.Visits.mapM (Selector.visits_expand vs) selectors).bind
      ((Values.Visits.mapM (Declaration.visits_expand vs) declarations).bind
        ((Sheet.visits_expand nested).bind (.ok _)))
  | .atRule head body => by
    rw [Content.placeholders, ← List.append_nil (Sheet.placeholders body)]
    exact (AtRule.visits_expand vs head).bind ((Sheet.visits_expand body).bind (.ok _))

/-- Filling in a sheet visits its placeholders in order. -/
theorem Sheet.visits_expand : ∀ s : Sheet,
    vs.Visits text (Sheet.placeholders s) (Sheet.expand vs s) (Sheet.fillWith text s)
  | [] => .ok []
  | c :: cs => by
    rw [Sheet.placeholders, ← List.append_nil (Sheet.placeholders cs)]
    exact (Content.visits_expand c).bind ((Sheet.visits_expand cs).bind (.ok _))

end

end Expand

/-! ### The texts of a sheet -/

section SpellOut

variable (write : Fragment → Text)

/-- What fragments write, as one literal. -/
def Fragment.spellOut (fs : List Fragment) : List Fragment := [.literal (fs.flatMap write)]

def Selector.spellOut (s : Selector) : Selector := ⟨Fragment.spellOut write s.fragments⟩

def Declaration.spellOut (d : Declaration) : Declaration :=
  if d.isDangling then d
  else { d with key := .literal (write d.key), value := Fragment.spellOut write d.value }

def AtRule.spellOut (a : AtRule) : AtRule :=
  { a with condition := Fragment.spellOut write a.condition }

mutual

def Content.spellOut : Content → Content
  | .rule selectors declarations nested location =>
    .rule (selectors.map (Selector.spellOut write)) (declarations.map (Declaration.spellOut write))
      (Sheet.spellOut nested) location
  | .atRule head body => .atRule (head.spellOut write) (Sheet.spellOut body)

/-- A sheet in which every selector, every condition and the key and value of every declaration that
is written out is the one text that `write` makes of it. -/
def Sheet.spellOut : Sheet → Sheet
  | [] => []
  | c :: cs => c.spellOut :: Sheet.spellOut cs

end

end SpellOut

section Texts

variable (text : Placeholder → Text)

/-- The text of a fragment with `text` in place of a placeholder. -/
def Fragment.textWith : Fragment → Text
  | .placeholder p => text p
  | f => f.text

theorem Fragment.text_fillWith (f : Fragment) : (f.fillWith text).text = f.textWith text := by
  cases f <;> rfl

theorem Fragment.flatMap_text_fillWith (fs : List Fragment) :
    (fs.map (fillWith text)).flatMap Fragment.text = fs.flatMap (textWith text) := by
  simp only [List.flatMap_map, text_fillWith]

theorem Fragment.flatMap_text_merge (fs : List Fragment) :
    (merge fs).flatMap Fragment.text = fs.flatMap Fragment.text := by
  induction fs with
  | nil => rfl
  | cons f fs ih =>
    rcases merge_cons_cases f fs with ⟨a, b, gs, rfl, hmerge, heq⟩ | heq
    · rw [heq, List.flatMap_cons, List.flatMap_cons, ← ih, hmerge, List.flatMap_cons,
        ← List.append_assoc]
      rfl
    · rw [heq, List.flatMap_cons, List.flatMap_cons, ih]

theorem Fragment.spellOut_merge_fillWith (fs : List Fragment) :
    spellOut Fragment.text (merge (fs.map (Fragment.fillWith text))) =
      spellOut (Fragment.textWith text) fs := by
  rw [spellOut, spellOut, flatMap_text_merge, flatMap_text_fillWith]

theorem Selector.spellOut_fillWith (s : Selector) :
    (s.fillWith text).spellOut Fragment.text = s.spellOut (Fragment.textWith text) := by
  rw [spellOut, spellOut, fillWith, Fragment.spellOut, Fragment.spellOut,
    Fragment.flatMap_text_fillWith]

theorem Declaration.isDangling_fillWith (d : Declaration) :
    (d.fillWith text).isDangling = d.isDangling := by
  unfold fillWith
  split <;> rfl

theorem Declaration.spellOut_fillWith (d : Declaration) :
    (d.fillWith text).spellOut Fragment.text = d.spellOut (Fragment.textWith text) := by
  unfold spellOut
  rw [isDangling_fillWith]
  split
  · rename_i hdangling
    rw [fillWith, if_pos hdangling]
  · rename_i hsound
    rw [fillWith, if_neg hsound, Fragment.text_fillWith, Fragment.spellOut_merge_fillWith]

theorem AtRule.spellOut_fillWith (a : AtRule) :
    (a.fillWith text).spellOut Fragment.text = a.spellOut (Fragment.textWith text) := by
  rw [spellOut, spellOut, fillWith, Fragment.spellOut_merge_fillWith]

mutual

theorem Content.spellOut_fillWith : ∀ c : Content,
    (c.fillWith text).spellOut Fragment.text = c.spellOut (Fragment.textWith text)
  | .rule selectors declarations nested location => by
    simp only [Content.fillWith, Content.spellOut, List.map_map, Function.comp_def,
      Selector.spellOut_fillWith, Declaration.spellOut_fillWith, Sheet.spellOut_fillWith nested]
  | .atRule head body => by
    rw [Content.fillWith, Content.spellOut, Content.spellOut, AtRule.spellOut_fillWith,
      Sheet.spellOut_fillWith body]

/-- A sheet that is filled in writes what it did before, with the values in place. -/
theorem Sheet.spellOut_fillWith : ∀ s : Sheet,
    Sheet.spellOut Fragment.text (Sheet.fillWith text s) =
      Sheet.spellOut (Fragment.textWith text) s
  | [] => rfl
  | c :: cs => by
    rw [Sheet.fillWith, Sheet.spellOut, Sheet.spellOut, Content.spellOut_fillWith c,
      Sheet.spellOut_fillWith cs]

end

end Texts

/-! ### Values -/

/-- The number that a placeholder's name writes, if it consists of digits. -/
def Placeholder.number? (p : Placeholder) : Option Nat :=
  if p.name ≠ [] ∧ p.name.all Char.isDigit then
    some (Nat.ofDigits 10 (p.name.reverse.map fun c => c.toNat - '0'.toNat))
  else none

/-- The value that a host has for a placeholder: the one of its name, or the one at the position
that its name writes. -/
def Values.value? : Values → Placeholder → Option Value
  | named entries, p => entries.get? p.name
  | positional values, p => p.number?.bind (values[·]?)
  | none, _ => .none
  | string _, _ => .none

def Values.lacks (vs : Values) (p : Placeholder) : Bool := (vs.value? p).isNone

/-- What is filled in for a placeholder. -/
def Values.valueText (vs : Values) (p : Placeholder) : Text :=
  ((vs.value? p).map Value.text).getD []

/-- A placeholder is read as these values need it: where they go by position, it has no more digits
than a number may, and the value that it has can be written. -/
structure Values.Reads (vs : Values) (p : Placeholder) : Prop where
  position : ∀ values, vs = positional values → p.name.all Char.isDigit = true →
    p.name.length ≤ Text.longestNumeral
  writable : ∀ v, vs.value? p = some v → v.isWritable = true

/-- The error that a placeholder without a value causes. -/
def Placeholder.unfilled (p : Placeholder) : Error := ⟨.placeholder (.noValue p.text), p.location⟩

namespace Text

theorem toNat_lt_of_isNamePart {c : Char} (h : Lexeme.isNamePart c = true) : c.toNat < 128 := by
  simp only [Lexeme.isNamePart, Char.isAlphanum, Bool.or_eq_true, decide_eq_true_eq] at h
  rcases h with (halpha | hdigit) | rfl
  · have hrange := Lexeme.range_of_isAlpha halpha
    omega
  · have hrange := Lexeme.range_of_isDigit hdigit
    omega
  · decide

/-- Digits of other scripts are not found in names. -/
theorem isDigit_of_isNamePart {c : Char} (h : Lexeme.isNamePart c = true) :
    isDigit c = c.isDigit := by
  have hlow := toNat_lt_of_isNamePart h
  have hzero : (zeroDigits.find? fun z => z ≤ c.toNat && c.toNat ≤ z + 9) = none := by
    have hscripts : ∀ z ∈ zeroDigits, 128 ≤ z := by decide
    refine List.find?_eq_none.2 fun z hz => ?_
    have := hscripts z hz
    simp only [Bool.and_eq_true, decide_eq_true_eq]
    omega
  have hplain : (plainDigits.any fun r => r.1 ≤ c.toNat && c.toNat ≤ r.2) = false := by
    have hruns : ∀ r ∈ plainDigits, 128 ≤ r.1 := by decide
    refine List.any_eq_false.2 fun r hr => ?_
    have := hruns r hr
    simp only [Bool.and_eq_true, decide_eq_true_eq]
    omega
  rw [isDigit, hplain, Bool.or_false, digitValue?, hzero]
  cases c.isDigit <;> rfl

theorem natural?_of_digits (t : Text) (h : ∀ c ∈ t, c.isDigit = true) :
    natural? t = some (Nat.ofDigits 10 (t.reverse.map fun c => c.toNat - '0'.toNat)) := by
  induction t using List.reverseRecOn with
  | nil => rfl
  | append_singleton t c ih =>
    obtain ⟨ht, hc⟩ := List.forall_mem_append.1 h
    have hvalue : digitValue? c = some (c.toNat - '0'.toNat) := by
      rw [digitValue?, if_pos (hc c List.mem_cons_self)]
      rfl
    have ih := ih ht
    rw [natural?] at ih
    rw [natural?, List.foldlM_append, ih, List.reverse_append, List.reverse_singleton,
      List.singleton_append, List.map_cons, Nat.ofDigits_cons]
    simp only [List.foldlM_cons, List.foldlM_nil, hvalue, Option.map_some, Option.bind_eq_bind,
      Option.bind_some, Option.pure_def]
    rw [Nat.add_comm]

end Text

namespace Placeholder.IsNamed

variable {p : Placeholder}

theorem all_isDigit (h : p.IsNamed) : p.name.all Text.isDigit = p.name.all Char.isDigit := by
  rw [Bool.eq_iff_iff, List.all_eq_true, List.all_eq_true]
  exact forall₂_congr fun c hc => by rw [Text.isDigit_of_isNamePart (h.2 c hc)]

theorem position_eq (h : p.IsNamed)
    (hreads : p.name.all Char.isDigit = true → p.name.length ≤ Text.longestNumeral) :
    p.position = .ok p.number? := by
  have hempty : p.name.isEmpty = false := by simpa using h.1
  unfold position Text.numeral? number?
  rw [h.all_isDigit, hempty]
  by_cases hdigits : p.name.all Char.isDigit = true
  · have hshort : ¬ Text.longestNumeral < p.name.length := Nat.not_lt.2 (hreads hdigits)
    simp [hdigits, hshort, h.1, Text.natural?_of_digits p.name (List.all_eq_true.1 hdigits)]
  · simp [hdigits]

/-- A placeholder is filled in with the text of its value, or fails for want of one. -/
theorem fill_eq (h : p.IsNamed) {vs : Values} (hreads : vs.Reads p) :
    vs.fill p = ((vs.value? p).map Value.text).elim (.error p.unfilled) .ok := by
  have hlookup : vs.lookup p = .ok (vs.value? p) := by
    cases vs with
    | none => rfl
    | named entries => rfl
    | positional values => rw [Values.lookup, h.position_eq (hreads.position values rfl)]; rfl
    | string text => rfl
  rw [Values.fill, hlookup]
  cases hvalue : vs.value? p with
  | none => rfl
  | some v => simp [hreads.writable v hvalue]

end Placeholder.IsNamed

/-! ### The first placeholder without a value -/

namespace Sheet

variable {source : Text} {s : Sheet}

theorem expand_eq_find? (hparse : Sheet.parse source = .ok s) {vs : Values}
    (hreads : ∀ p ∈ Sheet.placeholders s, vs.Reads p) :
    Sheet.expand vs s =
      ((Sheet.placeholders s).find? vs.lacks).elim
        (.ok (Sheet.fillWith vs.valueText s)) (.error ∘ Placeholder.unfilled) := by
  have hfill : ∀ p ∈ Sheet.placeholders s,
      vs.fill p = ((vs.value? p).map Value.text).elim (.error p.unfilled) .ok :=
    fun p hp => (isNamed_of_parse hparse p hp).fill_eq (hreads p hp)
  have htext : ∀ p ∈ Sheet.placeholders s, ∀ t, vs.fill p = .ok t → vs.valueText p = t := by
    intro p hp t ht
    rw [hfill p hp] at ht
    rw [Values.valueText]
    cases hvalue : (vs.value? p).map Value.text with
    | none => rw [hvalue] at ht; cases ht
    | some t' => rw [hvalue] at ht; cases ht; rfl
  rw [visits_expand vs s htext, mapM_eq_find? hfill]
  have hlacks : (fun p => ((vs.value? p).map Value.text).isNone) = vs.lacks :=
    funext fun p => Option.isNone_map
  rw [hlacks]
  cases (Sheet.placeholders s).find? vs.lacks <;> rfl

/-- Filling in a sheet fails exactly if one of its placeholders has no value, and then as the first
of those does. Otherwise the sheet writes what it did with the values in place. -/
theorem expand_first_unfilled (hparse : Sheet.parse source = .ok s) (vs : Values)
    (hreads : ∀ p ∈ Sheet.placeholders s, vs.Reads p) :
    ((∃ e, Sheet.expand vs s = .error e) ↔ ∃ p ∈ Sheet.placeholders s, vs.lacks p = true) ∧
    (∀ e, Sheet.expand vs s = .error e → ∃ p,
      (Sheet.placeholders s).find? vs.lacks = some p ∧
      e = ⟨.placeholder (.noValue p.text), p.location⟩ ∧
      e.message = "no value for placeholder '".toList ++ p.text ++ "'".toList) ∧
    ∀ s', Sheet.expand vs s = .ok s' →
      Sheet.spellOut Fragment.text s' = Sheet.spellOut (Fragment.textWith vs.valueText) s := by
  rw [expand_eq_find? hparse hreads]
  cases hfind : (Sheet.placeholders s).find? vs.lacks with
  | none =>
    refine ⟨⟨?_, ?_⟩, ?_, ?_⟩
    · rintro ⟨e, he⟩
      cases he
    · rintro ⟨p, hp, hlacks⟩
      exact absurd hlacks (List.find?_eq_none.1 hfind p hp)
    · intro e he
      cases he
    · rintro s' ⟨⟩
      exact spellOut_fillWith vs.valueText s
  | some p =>
    have hp : p ∈ Sheet.placeholders s := List.mem_of_find?_eq_some hfind
    refine ⟨⟨fun _ => ⟨p, hp, List.find?_some hfind⟩, fun _ => ⟨_, rfl⟩⟩, ?_, ?_⟩
    · rintro e ⟨⟩
      exact ⟨p, rfl, rfl, rfl⟩
    · intro s' hs'
      cases hs'

end Sheet

/-- Placeholders everywhere one can stand, one of them in a declaration that is malformed. -/
def placedSource : Text :=
  "@media $\x7b0\x7d \x7b .a-$\x7b1\x7d \x7b $\x7b9\x7d x; ".toList ++
    "$\x7b02\x7d: 1$\x7b0\x7d \x7d \x7d".toList

def placedValues : List Value := [.string "print".toList, .integer 7, .boolean true]

theorem expand_placedSource : ∃ s, Sheet.parse placedSource = .ok s ∧
    (∃ e, Sheet.expand (.positional (placedValues.take 2)) s = .error e ∧
      e.text = "no value for placeholder '$\x7b02\x7d' at line 1, column 33".toList) ∧
    ∃ s', Sheet.expand (.positional placedValues) s = .ok s' ∧
      Sheet.spellOut Fragment.text s' =
        Sheet.spellOut (Fragment.textWith (Values.positional placedValues).valueText) s := by
  have h : (do
      let s ← Sheet.parse placedSource
      let first := (Sheet.placeholders s).find? (Values.positional (placedValues.take 2)).lacks
      return ((Sheet.placeholders s).map Placeholder.name, first.map (·.unfilled.text),
        (Sheet.placeholders s).any (Values.positional placedValues).lacks)) =
      (.ok ([['0'], ['1'], ['0', '2'], ['0']],
        some "no value for placeholder '$\x7b02\x7d' at line 1, column 33".toList, false) :
        Except Error _) := by decide +kernel
  obtain ⟨s, hparse, h⟩ := bind_eq_ok.1 h
  obtain ⟨hnames, h⟩ := Prod.mk.inj (pure_eq_ok.1 h)
  obtain ⟨hfirst, hnone⟩ := Prod.mk.inj h
  have hlengths : ∀ name ∈ (Sheet.placeholders s).map Placeholder.name,
      name.length ≤ Text.longestNumeral := by
    rw [← hnames]
    decide
  have hwritable : ∀ v ∈ placedValues, v.isWritable = true := by decide
  have hreads : ∀ values ⊆ placedValues, ∀ p ∈ Sheet.placeholders s,
      (Values.positional values).Reads p := by
    intro values hsub p hp
    refine ⟨fun _ _ _ => hlengths _ (List.mem_map_of_mem hp), fun v hv => hwritable v (hsub ?_)⟩
    obtain ⟨i, -, hi⟩ := Option.bind_eq_some_iff.1 hv
    exact List.mem_of_getElem? hi
  refine ⟨s, hparse, ?_, ?_⟩
  · obtain ⟨p, hfind, htext⟩ := Option.map_eq_some_iff.1 hfirst.symm
    obtain ⟨hfails, herror, -⟩ := Sheet.expand_first_unfilled hparse _
      (hreads _ (List.take_subset 2 placedValues))
    obtain ⟨e, he⟩ := hfails.2 ⟨p, List.mem_of_find?_eq_some hfind, List.find?_some hfind⟩
    obtain ⟨p', hfind', rfl, -⟩ := herror e he
    cases hfind.symm.trans hfind'
    exact ⟨_, he, htext⟩
  · obtain ⟨hfails, -, hspells⟩ := Sheet.expand_first_unfilled hparse _ (hreads _ (List.Subset.refl _))
    cases hexpand : Sheet.expand (.positional placedValues) s with
    | error e =>
      obtain ⟨p, hp, hlacks⟩ := hfails.1 ⟨e, hexpand⟩
      exact absurd hlacks (List.any_eq_false.1 hnone.symm p hp)
    | ok s' => exact ⟨s', rfl, hspells s' hexpand⟩

end ScopedCss
