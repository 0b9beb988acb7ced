/-
Flattening under a class, with the class left open. `Sheet.template` flattens a sheet to a style
sheet whose selectors have holes; `Sheet.flatten_fills_template` says that flattening under any
class fills these holes with it, that every selector in scope has one, and that none has out of
scope.

What carries the second half is that a selector nested in another has the root exactly if the other
one does (`Selector.root_mem_nest`), so a context stays rooted, or free of the root, all the way
down.
-/
import ScopedCss.Proofs.Stylesheet.Flatten

namespace ScopedCss

/-- A piece of a selector in which the selector of the scope is left open. -/
inductive Piece where
  | hole
  | text (t : Text)
deriving DecidableEq, Repr

/-- A selector, piece by piece. -/
abbrev Pattern := List Piece

def Piece.fill (root : Text) : Piece → Text
  | hole => root
  | text t => t

/-- A selector with `root` in its holes. -/
def Pattern.fill (root : Text) (p : Pattern) : Text := (p.map (·.fill root)).flatten

/-- A rule or an at-rule of a style sheet whose scope is left open. -/
inductive TemplateItem where
  | rule (selectors : List Pattern) (declarations : List (Text × Text))
  | atRule (kind : AtRuleKind) (prelude : Text) (items : List TemplateItem)
deriving Repr

abbrev Template := List TemplateItem

mutual

def TemplateItem.fill (root : Text) : TemplateItem → FlatItem
  | .rule selectors declarations => .rule (selectors.map (Pattern.fill root)) declarations
  | .atRule _ prelude items => .atRule prelude (Template.fill root items)

/-- The style sheet with `root` in every hole. -/
def Template.fill (root : Text) : Template → Stylesheet
  | [] => []
  | i :: is => i.fill root :: Template.fill root is

end

mutual

def TemplateItem.Scoped (inScope : Bool) : TemplateItem → Prop
  | .rule selectors _ => ∀ p ∈ selectors, .hole ∈ p ↔ inScope = true
  | .atRule kind _ items => Template.Scoped (inScope && kind.isScoped) items

/-- In scope every selector has a hole, out of scope none has; a keyframes-like at-rule ends the
scope for all that is inside it. -/
def Template.Scoped (inScope : Bool) : Template → Prop
  | [] => True
  | i :: is => i.Scoped inScope ∧ Template.Scoped inScope is

end

mutual

def FlatItem.outline : FlatItem → FlatItem
  | .rule selectors declarations => .rule (selectors.map fun _ => []) declarations
  | .atRule prelude items => .atRule prelude (Stylesheet.outline items)

/-- A style sheet with every selector blanked out: what is left are the at-rules, the declarations,
the order of all items and the number of selectors of each rule. -/
def Stylesheet.outline : Stylesheet → Stylesheet
  | [] => []
  | i :: is => i.outline :: Stylesheet.outline is

end

/-- The piece that a part of a selector is. A placeholder without a value fails. -/
def ResolvedPart.piece : ResolvedPart → Except Error Piece
  | .root => .ok .hole
  | .literal t => .ok (.text t)
  | .placeholder p => .error ⟨.placeholder (.unresolved p.text), p.location⟩
  | .combinator c => .ok (.text c.text)

def Resolved.pattern (r : Resolved) : Except Error Pattern := r.mapM ResolvedPart.piece

/-- Resolving asks of a scope only whether it has a class, so any will do. -/
def Scope.someClass : Scope := ⟨some ['c']⟩

def TemplateItem.ofRule (selectors : List Resolved) (declarations : List (Text × Text)) :
    Except Error Template :=
  if declarations.isEmpty then .ok []
  else do
    let patterns ← selectors.mapM Resolved.pattern
    return [.rule patterns declarations]

def TemplateItem.ofAtRule (head : AtRule) (items : Template) : Except Error Template :=
  if items.isEmpty && head.kind.isScoped then .ok []
  else do
    let condition ← Fragment.resolveAll head.condition
    return [.atRule head.kind (AtRule.preludeOf head.name condition) items]

mutual

def Content.template (context : List Resolved) (inScope : Bool) :
    Content → Except Error Template
  | .rule selectors declarations nested _ => do
    let resolved ← Selector.resolveAll .someClass context inScope selectors
    let texts ← (declarations.filter (!·.isDangling)).mapM Declaration.resolve
    let own ← TemplateItem.ofRule resolved texts
    let below ← Sheet.templateIn resolved inScope nested
    return own ++ below
  | .atRule head body => do
    let items ←
      if head.kind.isScoped && inScope then Sheet.templateIn context true body
      else Sheet.templateIn [] false body
    TemplateItem.ofAtRule head items

def Sheet.templateIn (context : List Resolved) (inScope : Bool) : Sheet → Except Error Template
  | [] => .ok []
  | c :: cs => do
    let first ← c.template context inScope
    let others ← Sheet.templateIn context inScope cs
    return first ++ others

end

/-- A sheet flattened under a class that is left open. -/
def Sheet.template (s : Sheet) : Except Error Template := s.templateIn [] true

/-! ### Filling the holes -/

theorem Template.fill_append (root : Text) (s t : Template) :
    Template.fill root (s ++ t) = Template.fill root s ++ Template.fill root t := by
  induction s with
  | nil => rfl
  | cons i s ih => simp [Template.fill, ih]

theorem ResolvedPart.text_eq (root : Text) (p : ResolvedPart) :
    p.text root = Piece.fill root <$> p.piece := by
  cases p <;> rfl

theorem Resolved.text_eq (root : Text) (r : Resolved) :
    r.text root = Pattern.fill root <$> r.pattern := by
  have hparts : r.mapM (ResolvedPart.text root) = List.map (Piece.fill root) <$> r.pattern := by
    rw [Resolved.pattern, funext (ResolvedPart.text_eq root), mapM_map_right]
  rw [Resolved.text, hparts, ← comp_map]
  rfl

section Filling

variable {scope : Scope}

theorem TemplateItem.fill_ofRule (selectors : List Resolved) (declarations : List (Text × Text)) :
    FlatItem.ofRule scope selectors declarations =
      Template.fill scope.root <$> TemplateItem.ofRule selectors declarations := by
  unfold FlatItem.ofRule TemplateItem.ofRule
  split
  · rfl
  · simp only [funext (Resolved.text_eq scope.root), mapM_map_right, map_bind, bind_map_left,
      map_pure]
    rfl

theorem TemplateItem.fill_ofAtRule (root : Text) (head : AtRule) (items : Template) :
    FlatItem.ofAtRule head (Template.fill root items) =
      Template.fill root <$> TemplateItem.ofAtRule head items := by
  have hempty : (Template.fill root items).isEmpty = items.isEmpty := by cases items <;> rfl
  unfold FlatItem.ofAtRule TemplateItem.ofAtRule
  rw [hempty]
  split
  · rfl
  · simp only [map_bind, map_pure]
    rfl

/-- All classes resolve alike. -/
theorem Selector.resolveAll_eq (hs : scope.className.isSome = true) (context : List Resolved)
    (inScope : Bool) (selectors : List Selector) :
    Selector.resolveAll scope context inScope selectors =
      Selector.resolveAll .someClass context inScope selectors := by
  obtain ⟨c, hc⟩ := Option.isSome_iff_exists.1 hs
  have hqualify : Selector.qualify scope = Selector.qualify .someClass := by
    funext s
    simp [Selector.qualify, hc, Scope.someClass]
  rw [Selector.resolveAll, Selector.resolveAll, hqualify]

mutual

theorem Content.flatten_eq (hs : scope.className.isSome = true) :
    ∀ (context : List Resolved) (inScope : Bool) (c : Content),
      c.flatten scope context inScope =
        Template.fill scope.root <$> c.template context inScope
  | context, inScope, .rule selectors declarations nested location => by
    simp only [Content.flatten, Content.template, Selector.resolveAll_eq hs,
      TemplateItem.fill_ofRule, Sheet.flattenIn_eq hs, map_bind, bind_map_left, map_pure,
      Template.fill_append]
  | context, inScope, .atRule head body => by
    simp only [Content.flatten, Content.template]
    split <;>
      simp only [Sheet.flattenIn_eq hs, map_bind, bind_map_left, TemplateItem.fill_ofAtRule]

theorem Sheet.flattenIn_eq (hs : scope.className.isSome = true) :
    ∀ (context : List Resolved) (inScope : Bool) (s : Sheet),
      s.flattenIn scope context inScope =
        Template.fill scope.root <$> s.templateIn context inScope
  | context, inScope, [] => rfl
  | context, inScope, c :: cs => by
    simp only [Sheet.flattenIn, Sheet.templateIn, Content.flatten_eq hs, Sheet.flattenIn_eq hs,
      map_bind, bind_map_left, map_pure, Template.fill_append]

end

end Filling

mutual

theorem TemplateItem.outline_fill (root root' : Text) :
    ∀ i : TemplateItem, (i.fill root).outline = (i.fill root').outline
  | .rule selectors declarations => by
    simp [TemplateItem.fill, FlatItem.outline]
  | .atRule kind prelude items => by
    simp only [TemplateItem.fill, FlatItem.outline, Template.outline_fill root root' items]

/-- What is put in the holes does not show in the outline. -/
theorem Template.outline_fill (root root' : Text) :
    ∀ t : Template, (Template.fill root t).outline = (Template.fill root' t).outline
  | [] => rfl
  | i :: is => by
    simp only [Template.fill, Stylesheet.outline, TemplateItem.outline_fill root root' i,
      Template.outline_fill root root' is]

end

/-! ### Where the holes are -/

namespace Selector

theorem root_mem_substitute {parent : Resolved} {s : Selector} :
    .root ∈ s.substitute parent ↔ s.hasMarker = true ∧ .root ∈ parent := by
  simp only [substitute, hasMarker, List.mem_flatMap, List.contains_iff_mem]
  constructor
  · rintro ⟨f, hf, hroot⟩
    cases f <;> simp only [Fragment.substitute, List.mem_singleton, reduceCtorEq] at hroot
    exact ⟨hf, hroot⟩
  · rintro ⟨hmarker, hroot⟩
    exact ⟨.marker, hmarker, hroot⟩

/-- A nested selector has the root exactly if the one around it does. -/
theorem root_mem_nest {parent : Resolved} {s : Selector} :
    .root ∈ s.nest parent ↔ .root ∈ parent := by
  unfold nest
  split
  · rename_i hmarker
    simp [root_mem_substitute, hmarker]
  split
  · simp [root_mem_substitute]
  · simp [root_mem_substitute]

theorem root_not_mem_verbatim (s : Selector) : .root ∉ s.verbatim := by
  simp [verbatim, root_mem_substitute]

end Selector

theorem Resolved.root_mem_of_addRoot {r r' : Resolved} (h : r.addRoot = .ok r') : .root ∈ r' := by
  cases r with
  | nil => cases h
  | cons p ps =>
    simp only [addRoot, Except.ok.injEq] at h
    rw [← h]
    split <;> simp

/-- Under a class every selector at the top gets the root, by whichever route. -/
theorem Selector.root_mem_of_qualify {s : Selector} {r : Resolved}
    (h : s.qualify .someClass = .ok r) : .root ∈ r := by
  unfold qualify at h
  split at h
  · rename_i hcond
    have hmarker : s.hasMarker = true := by simpa [Scope.someClass] using hcond
    cases h
    exact root_mem_substitute.2 ⟨hmarker, List.mem_singleton_self _⟩
  split at h
  · cases h
    exact List.mem_cons_self
  split at h
  · rename_i hreplace
    cases h
    obtain ⟨before, after, -, rfl⟩ := Resolved.exists_of_replaceRoot hreplace
    exact List.mem_append_right before List.mem_cons_self
  · exact Resolved.root_mem_of_addRoot h

/-- Selectors that have the root, all of them in scope and none out of it. -/
def Rooted (inScope : Bool) (rs : List Resolved) : Prop := ∀ r ∈ rs, .root ∈ r ↔ inScope = true

theorem Rooted.nil (inScope : Bool) : Rooted inScope [] :=
  List.forall_mem_nil _

/-- Selectors resolve to rooted ones inside rooted ones. -/
theorem Rooted.resolveAll {context : List Resolved} {inScope : Bool} {selectors : List Selector}
    {resolved : List Resolved} (hc : Rooted inScope context)
    (h : Selector.resolveAll .someClass context inScope selectors = .ok resolved) :
    Rooted inScope resolved := by
  unfold Selector.resolveAll at h
  split at h
  · cases h
    split
    · exact hc
    · split
      · rename_i hin
        simp [Rooted, hin]
      · exact Rooted.nil _
  split at h
  · cases h
    intro r hr
    simp only [List.mem_flatMap, List.mem_map] at hr
    obtain ⟨parent, hparent, s, -, rfl⟩ := hr
    rw [Selector.root_mem_nest]
    exact hc parent hparent
  split at h
  · rename_i hin
    intro r hr
    obtain ⟨s, -, hs⟩ := exists_of_mem_mapM h hr
    simp [hin, Selector.root_mem_of_qualify hs]
  · rename_i hin
    cases h
    intro r hr
    simp only [List.mem_map] at hr
    obtain ⟨s, -, rfl⟩ := hr
    simp [hin, Selector.root_not_mem_verbatim]

theorem ResolvedPart.piece_eq_hole {part : ResolvedPart} {piece : Piece}
    (h : part.piece = .ok piece) : piece = .hole ↔ part = .root := by
  cases part <;> cases h <;> simp

/-- The holes of a pattern are the roots of its selector. -/
theorem Resolved.hole_mem_pattern {r : Resolved} {p : Pattern} (h : r.pattern = .ok p) :
    .hole ∈ p ↔ .root ∈ r := by
  rw [Resolved.pattern, mapM_eq_ok] at h
  induction h with
  | nil => simp
  | cons hpart _ ih =>
    rw [List.mem_cons, List.mem_cons, ih, eq_comm, ResolvedPart.piece_eq_hole hpart, eq_comm]

theorem Template.scoped_append {inScope : Bool} {s t : Template} :
    Template.Scoped inScope (s ++ t) ↔ Template.Scoped inScope s ∧ Template.Scoped inScope t := by
  induction s with
  | nil => simp [Template.Scoped]
  | cons i s ih => simp [Template.Scoped, ih, and_assoc]

theorem TemplateItem.scoped_ofRule {inScope : Bool} {resolved : List Resolved}
    {declarations : List (Text × Text)} {t : Template} (hr : Rooted inScope resolved)
    (h : TemplateItem.ofRule resolved declarations = .ok t) : Template.Scoped inScope t := by
  unfold TemplateItem.ofRule at h
  split at h
  · cases h
    trivial
  · rw [bind_eq_ok] at h
    obtain ⟨patterns, hpatterns, h⟩ := h
    cases h
    refine ⟨?_, trivial⟩
    intro p hp
    obtain ⟨r, hmem, hpattern⟩ := exists_of_mem_mapM hpatterns hp
    rw [Resolved.hole_mem_pattern hpattern]
    exact hr r hmem

theorem TemplateItem.scoped_ofAtRule {inScope : Bool} {head : AtRule} {items t : Template}
    (hi : Template.Scoped (inScope && head.kind.isScoped) items)
    (h : TemplateItem.ofAtRule head items = .ok t) : Template.Scoped inScope t := by
  unfold TemplateItem.ofAtRule at h
  split at h
  · cases h
    trivial
  · rw [bind_eq_ok] at h
    obtain ⟨condition, -, h⟩ := h
    cases h
    exact ⟨hi, trivial⟩

mutual

theorem Content.scoped_template : ∀ {context : List Resolved} {inScope : Bool} {c : Content}
    {t : Template}, Rooted inScope context → c.template context inScope = .ok t →
      Template.Scoped inScope t
  | context, inScope, .rule selectors declarations nested location, t, hc, h => by
    simp only [Content.template, bind_eq_ok, pure_eq_ok] at h
    obtain ⟨resolved, hresolved, texts, -, own, hown, below, hbelow, rfl⟩ := h
    have hr := hc.resolveAll hresolved
    exact Template.scoped_append.2
      ⟨TemplateItem.scoped_ofRule hr hown, Sheet.scoped_templateIn hr hbelow⟩
  | context, inScope, .atRule head body, t, hc, h => by
    rw [Content.template] at h
    split at h
    · rename_i hcond
      obtain ⟨items, hitems, h⟩ := bind_eq_ok.1 h
      refine TemplateItem.scoped_ofAtRule ?_ h
      rw [Bool.and_comm, hcond]
      rw [Bool.and_eq_true] at hcond
      rw [hcond.2] at hc
      exact Sheet.scoped_templateIn hc hitems
    · rename_i hcond
      obtain ⟨items, hitems, h⟩ := bind_eq_ok.1 h
      refine TemplateItem.scoped_ofAtRule ?_ h
      rw [Bool.and_comm, Bool.eq_false_iff.2 hcond]
      exact Sheet.scoped_templateIn (Rooted.nil false) hitems

theorem Sheet.scoped_templateIn : ∀ {context : List Resolved} {inScope : Bool} {s : Sheet}
    {t : Template}, Rooted inScope context → s.templateIn context inScope = .ok t →
      Template.Scoped inScope t
  | context, inScope, [], t, hc, h => by
    cases h
    trivial
  | context, inScope, c :: cs, t, hc, h => by
    simp only [Sheet.templateIn, bind_eq_ok, pure_eq_ok] at h
    obtain ⟨first, hfirst, others, hothers, rfl⟩ := h
    exact Template.scoped_append.2
      ⟨Content.scoped_template hc hfirst, Sheet.scoped_templateIn hc hothers⟩

end

theorem Sheet.flatten_eq (s : Sheet) {name : Text} (hn : name ≠ []) :
    s.flatten ⟨some name⟩ = Template.fill ('.' :: name) <$> s.template := by
  obtain ⟨c, cs, rfl⟩ := List.exists_cons_of_ne_nil hn
  exact Sheet.flattenIn_eq rfl [] true s

/-- **Flattening is parametric in the class.** Under any two classes it fails alike, or fills the
holes of one template with either class, so that the outlines agree; and in that template every
selector has a hole outside keyframes-like at-rules, and none has inside them. -/
theorem Sheet.flatten_fills_template (s : Sheet) {name name' : Text} (hn : name ≠ [])
    (hn' : name' ≠ []) :
    s.flatten ⟨some name⟩ = Template.fill ('.' :: name) <$> s.template ∧
      s.flatten ⟨some name'⟩ = Template.fill ('.' :: name') <$> s.template ∧
      ((∃ e, s.flatten ⟨some name⟩ = .error e) ↔ ∃ e, s.flatten ⟨some name'⟩ = .error e) ∧
      Stylesheet.outline <$> s.flatten ⟨some name⟩ =
        Stylesheet.outline <$> s.flatten ⟨some name'⟩ ∧
      ∀ t, s.template = .ok t → Template.Scoped true t := by
  have hfill := s.flatten_eq hn
  have hfill' := s.flatten_eq hn'
  refine ⟨hfill, hfill', ?_, ?_, fun t ht => Sheet.scoped_templateIn (Rooted.nil true) ht⟩
  · rw [hfill, hfill']
    cases s.template with
    | error e => exact iff_of_true ⟨e, rfl⟩ ⟨e, rfl⟩
    | ok t => exact iff_of_false (fun ⟨_, h⟩ => by cases h) (fun ⟨_, h⟩ => by cases h)
  · rw [hfill, hfill']
    cases s.template with
    | error e => rfl
    | ok t => exact congrArg Except.ok (Template.outline_fill _ _ t)

/-- A marker, an element, a combinator in a conditional, and frames with a rule nested in one. -/
def nestedSample : Sheet :=
  let rule (selector : List Fragment) (nested : Sheet) : Content :=
    .rule [⟨selector⟩] [⟨.literal ['p'], [.literal ['v']], none, none⟩] nested none
  [rule [.marker, .literal ['.', 'a']] [], rule [.literal ['b']] [
      .atRule ⟨.media, "media".toList, [.literal "print".toList], none⟩
        [rule [.combinator .child, .literal ['c']] []]],
    .atRule ⟨.keyframes, "keyframes".toList, [.literal ['k']], none⟩
      [rule [.literal "from".toList] [rule [.marker, .literal ['d']] []]]]

theorem flatten_fills_nestedSample :
    ∃ t, nestedSample.template = .ok t ∧
      nestedSample.flatten ⟨some ['x']⟩ = .ok (Template.fill ['.', 'x'] t) ∧
      nestedSample.flatten ⟨some ['y', 'z']⟩ = .ok (Template.fill ['.', 'y', 'z'] t) ∧
      Template.Scoped true t := by
  have hname : (['x'] : Text) ≠ [] := List.cons_ne_nil _ _
  have hname' : (['y', 'z'] : Text) ≠ [] := List.cons_ne_nil _ _
  obtain ⟨hx, hy, -, -, hscoped⟩ := nestedSample.flatten_fills_template hname hname'
  cases ht : nestedSample.template with
  | error e =>
    have hok : nestedSample.template.toBool = true := by decide +kernel
    rw [ht] at hok
    cases hok
  | ok t =>
    rw [ht] at hx hy
    exact ⟨t, rfl, hx, hy, hscoped t ht⟩

end ScopedCss
