/-
What a flattened sheet holds, read in order, against the sheet it came from.

`Sheet.sites` lists the rules and at-rules of a sheet depth first, each with the frames around it,
and `Site.entry` says from those frames alone how a site is written: under which preludes, with
which selectors and declarations. `Sheet.listing_flatten` says that this is what flattening writes,
for the sites that are written at all and for nothing else.

The flattener hands a context of resolved selectors down instead. `Path.context` is that context as
a function of the frames, and `Path.resolveAll_context` the step that ties the two.
-/
import Mathlib.Algebra.Group.Nat.Defs
import ScopedCss.Proofs.Stylesheet.Flatten

namespace ScopedCss

/-- What encloses a place in a sheet. -/
inductive Frame where
  | rule (selectors : List Selector)
  | atRule (head : AtRule)

namespace Frame

def isRule : Frame → Bool
  | rule _ => true
  | atRule _ => false

def isScoped : Frame → Bool
  | rule _ => true
  | atRule head => head.kind.isScoped

def selectors : Frame → List Selector
  | rule selectors => selectors
  | atRule _ => []

def prelude? : Frame → Option Text
  | rule _ => none
  | atRule head => some head.prelude

end Frame

/-- The frames around a place, the outermost one first. -/
abbrev Path := List Frame

/-- Every way to choose one element of each list, in lexicographic order. -/
def choices {α : Type} : List (List α) → List (List α)
  | [] => [[]]
  | l :: ls => l.flatMap fun a => (choices ls).map (a :: ·)

/-- The selector that a choice comes to: the first one as `base` puts it, and each of the others
nested in what is there so far. The root alone stands for no choice. -/
def Selector.joined (base : Selector → Except Error Resolved) :
    List Selector → Except Error Resolved
  | [] => .ok [.root]
  | s :: ss => (ss.foldl fun parent s => s.nest parent) <$> base s

namespace Path

/-- Whether no at-rule on a path ends the scope. -/
def inScope (path : Path) : Bool := path.all (·.isScoped)

/-- The selector lists on a path, without those that are empty. -/
def lists (path : Path) : List (List Selector) :=
  (path.map (·.selectors)).filter (!·.isEmpty)

def preludes (path : Path) : List Text := path.filterMap (·.prelude?)

/-- The rules after the last at-rule of a path. -/
def inner (path : Path) : Path := (path.reverse.takeWhile (·.isRule)).reverse

/-- The resolved selectors at the end of a path: one for each choice from its selector lists, joined
with the scope. Out of scope only the innermost rules count, and selectors stay as they are. -/
def resolved (scope : Scope) (path : Path) : Except Error (List Resolved) :=
  if path.inScope then (choices path.lists).mapM (Selector.joined (Selector.qualify scope))
  else if path.inner.lists.isEmpty then .ok []
  else (choices path.inner.lists).mapM (Selector.joined fun s => .ok s.verbatim)

end Path

/-- A rule or at-rule of a sheet, with what encloses it. -/
structure Site where
  path : Path
  content : Content

mutual

def Content.sites (path : Path) : Content → List Site
  | .rule selectors declarations nested location =>
    ⟨path, .rule selectors declarations nested location⟩ ::
      Sheet.sites (path ++ [.rule selectors]) nested
  | .atRule head body => ⟨path, .atRule head body⟩ :: Sheet.sites (path ++ [.atRule head]) body

/-- The rules and at-rules of a sheet, each before what is in it. -/
def Sheet.sites (path : Path) : Sheet → List Site
  | [] => []
  | c :: cs => c.sites path ++ Sheet.sites path cs

end

mutual

def Content.emits : Content → Bool
  | .rule _ declarations nested _ => declarations.any (!·.isDangling) || Sheet.emits nested
  | .atRule head body => !head.kind.isScoped || Sheet.emits body

/-- Whether anything of a sheet is written out: a declaration, or a keyframes-like at-rule. -/
def Sheet.emits : Sheet → Bool
  | [] => false
  | c :: cs => c.emits || Sheet.emits cs

end

/-- An item of a style sheet, in a list of them all: with the preludes of the at-rules around it. -/
inductive Listed where
  | rule (preludes selectors : List Text) (declarations : List (Text × Text))
  | atRule (preludes : List Text) (prelude : Text)
deriving DecidableEq, Repr

mutual

def FlatItem.listing (preludes : List Text) : FlatItem → List Listed
  | .rule selectors declarations => [.rule preludes selectors declarations]
  | .atRule prelude items =>
    .atRule preludes prelude :: Stylesheet.listing (preludes ++ [prelude]) items

/-- The items of a style sheet, each before what is in it. -/
def Stylesheet.listing (preludes : List Text) : Stylesheet → List Listed
  | [] => []
  | i :: is => i.listing preludes ++ Stylesheet.listing preludes is

end

def Declaration.texts (d : Declaration) : Text × Text := (d.key.text, Fragment.render d.value)

namespace Site

/-- The path of a site, itself included. -/
def chain (s : Site) : Path :=
  match s.content with
  | .rule selectors .. => s.path ++ [.rule selectors]
  | .atRule head _ => s.path ++ [.atRule head]

/-- Whether a site is written out: a rule if it has a declaration that is not malformed, an at-rule
if it is keyframes-like or something in it is. -/
def isWritten (s : Site) : Bool :=
  match s.content with
  | .rule _ declarations .. => declarations.any (!·.isDangling)
  | .atRule head body => !head.kind.isScoped || Sheet.emits body

/-- How a site is written under a scope. -/
def entry (scope : Scope) (s : Site) : Except Error Listed :=
  match s.content with
  | .rule _ declarations .. => do
    let resolved ← s.chain.resolved scope
    let texts ← resolved.mapM (Resolved.text scope.root)
    return .rule s.path.preludes texts
      ((declarations.filter (!·.isDangling)).map (·.texts))
  | .atRule head _ => return .atRule s.path.preludes head.prelude

end Site

/-! ### Choices -/

section Choices

variable {α : Type}

theorem choices_append (ls : List (List α)) (l : List α) :
    choices (ls ++ [l]) = (choices ls).flatMap fun c => l.map fun a => c ++ [a] := by
  induction ls with
  | nil => simp [choices, List.map_eq_flatMap]
  | cons l' ls ih =>
    simp [choices, ih, List.flatMap_assoc, List.map_flatMap, List.flatMap_map, Function.comp_def]

theorem length_choices (ls : List (List α)) :
    (choices ls).length = (ls.map List.length).prod := by
  induction ls with
  | nil => rfl
  | cons l ls ih => simp [choices, List.length_flatMap, ih]

theorem length_of_mem_choices {ls : List (List α)} {c : List α} (h : c ∈ choices ls) :
    c.length = ls.length := by
  induction ls generalizing c with
  | nil => simp [choices] at h; simp [h]
  | cons l ls ih =>
    simp only [choices, List.mem_flatMap, List.mem_map] at h
    obtain ⟨a, -, c', hc', rfl⟩ := h
    simp [ih hc']

theorem choices_ne_nil {ls : List (List α)} (h : ∀ l ∈ ls, l ≠ []) : choices ls ≠ [] := by
  induction ls with
  | nil => simp [choices]
  | cons l ls ih =>
    obtain ⟨hl, hls⟩ := List.forall_mem_cons.1 h
    obtain ⟨a, as, rfl⟩ := List.exists_cons_of_ne_nil hl
    simp [choices, ih hls]

end Choices

/-! ### Contexts from paths -/

section Joined

variable {base : Selector → Except Error Resolved}

theorem Selector.joined_append {c : List Selector} (hc : c ≠ []) (s : Selector) :
    Selector.joined base (c ++ [s]) = s.nest <$> Selector.joined base c := by
  obtain ⟨s', ss, rfl⟩ := List.exists_cons_of_ne_nil hc
  simp only [List.cons_append, Selector.joined, List.foldl_append, List.foldl_cons,
    List.foldl_nil, Functor.map_map]

/-- The first list is resolved by `base`. -/
theorem Selector.mapM_joined_singleton (selectors : List Selector) :
    (choices [selectors]).mapM (Selector.joined base) = selectors.mapM base := by
  have hchoices : choices [selectors] = selectors.map ([·]) := by
    simp [choices, List.map_eq_flatMap]
  have hone : (fun s => Selector.joined base [s]) = base := by
    funext s
    exact id_map (base s)
  rw [hchoices, List.mapM_map]
  exact congrArg (selectors.mapM ·) hone

/-- Each further list is nested in all that the lists before it come to. -/
theorem Selector.mapM_joined_append {ls : List (List Selector)} {context : List Resolved}
    (hls : ls ≠ []) (h : (choices ls).mapM (Selector.joined base) = .ok context)
    (selectors : List Selector) :
    (choices (ls ++ [selectors])).mapM (Selector.joined base) =
      .ok (context.flatMap fun parent => selectors.map (Selector.nest parent)) := by
  have hne : ∀ c ∈ choices ls, c ≠ [] := by
    intro c hc hnil
    have hlen := length_of_mem_choices hc
    rw [hnil] at hlen
    exact hls (List.length_eq_zero_iff.1 hlen.symm)
  rw [mapM_eq_ok] at h ⊢
  rw [choices_append]
  generalize choices ls = cs at h hne
  induction h with
  | nil => exact .nil
  | @cons c parent cs context hjoined _ ih =>
    obtain ⟨hc, hcs⟩ := List.forall_mem_cons.1 hne
    refine List.rel_append ?_ (ih hcs)
    rw [List.forall₂_map_left_iff, List.forall₂_map_right_iff, List.forall₂_same]
    intro s _
    rw [Selector.joined_append hc, hjoined]
    rfl

end Joined

namespace Path

theorem inScope_append (path : Path) (frame : Frame) :
    inScope (path ++ [frame]) = (path.inScope && frame.isScoped) := by
  simp [inScope]

theorem inScope_append_rule (path : Path) (selectors : List Selector) :
    inScope (path ++ [.rule selectors]) = path.inScope := by
  simp [inScope_append, Frame.isScoped]

theorem inScope_append_atRule (path : Path) (head : AtRule) :
    inScope (path ++ [.atRule head]) = (path.inScope && head.kind.isScoped) :=
  inScope_append path _

theorem preludes_append_rule (path : Path) (selectors : List Selector) :
    preludes (path ++ [.rule selectors]) = path.preludes := by
  simp [preludes, Frame.prelude?]

theorem preludes_append_atRule (path : Path) (head : AtRule) :
    preludes (path ++ [.atRule head]) = path.preludes ++ [head.prelude] := by
  simp [preludes, Frame.prelude?]

theorem lists_append (path : Path) (frame : Frame) :
    lists (path ++ [frame]) =
      if frame.selectors.isEmpty then path.lists else path.lists ++ [frame.selectors] := by
  cases h : frame.selectors.isEmpty <;> simp [lists, h]

theorem ne_nil_of_mem_lists {path : Path} {l : List Selector} (h : l ∈ path.lists) : l ≠ [] := by
  simp only [lists, List.mem_filter, Bool.not_eq_true', List.isEmpty_eq_false_iff] at h
  exact h.2

theorem inner_append_rule (path : Path) (selectors : List Selector) :
    inner (path ++ [.rule selectors]) = path.inner ++ [.rule selectors] := by
  simp [inner, Frame.isRule]

theorem inner_append_atRule (path : Path) (head : AtRule) :
    inner (path ++ [.atRule head]) = [] := by
  simp [inner, Frame.isRule]

/-- The selector lists that nest at the end of a path. -/
def active (path : Path) : List (List Selector) :=
  if path.inScope then path.lists else path.inner.lists

/-- How a first selector is resolved at the end of a path. -/
def base (scope : Scope) (path : Path) : Selector → Except Error Resolved :=
  if path.inScope then Selector.qualify scope else fun s => .ok s.verbatim

/-- The context that the flattener hands down to the end of a path. -/
def context (scope : Scope) (path : Path) : Except Error (List Resolved) :=
  if path.active.isEmpty then .ok []
  else (choices path.active).mapM (Selector.joined (path.base scope))

theorem resolved_eq (scope : Scope) (path : Path) :
    path.resolved scope =
      if path.active.isEmpty then .ok (if path.inScope then [[.root]] else [])
      else (choices path.active).mapM (Selector.joined (path.base scope)) := by
  unfold resolved active base
  cases path.inScope with
  | true =>
    simp only [if_true]
    split
    · rename_i hempty
      rw [List.isEmpty_iff.1 hempty]
      rfl
    · rfl
  | false => rfl

theorem active_append_rule (path : Path) (selectors : List Selector) :
    active (path ++ [.rule selectors]) =
      if selectors.isEmpty then path.active else path.active ++ [selectors] := by
  unfold active
  rw [inScope_append_rule, inner_append_rule, lists_append, lists_append]
  cases path.inScope <;> rfl

theorem ne_nil_of_mem_active {path : Path} {l : List Selector} (h : l ∈ path.active) :
    l ≠ [] := by
  unfold active at h
  split at h <;> exact ne_nil_of_mem_lists h

/-- Resolving a rule's selectors in the context of a path is resolving them at the end of the path
that goes on into the rule. -/
theorem resolveAll_context {scope : Scope} {path : Path} {context : List Resolved}
    (h : path.context scope = .ok context) (selectors : List Selector) :
    Selector.resolveAll scope context path.inScope selectors =
      resolved scope (path ++ [.rule selectors]) := by
  have hbase : base scope (path ++ [.rule selectors]) = path.base scope := by
    simp [base, inScope_append_rule]
  rw [resolved_eq, active_append_rule, inScope_append_rule, hbase]
  unfold Path.context at h
  cases hactive : path.active with
  | nil =>
    rw [hactive] at h
    cases h
    cases selectors with
    | nil => rfl
    | cons s ss =>
      simp only [List.isEmpty_cons, Bool.false_eq_true, if_false, List.nil_append,
        Selector.mapM_joined_singleton, base]
      cases path.inScope with
      | true => rfl
      | false => exact (List.mapM_pure (m := Except Error)).symm
  | cons l ls =>
    have hls : path.active ≠ [] := by simp [hactive]
    rw [if_neg (by simp [hactive])] at h
    have hcontext : context.isEmpty = false := by
      rw [List.isEmpty_eq_false_iff]
      rintro rfl
      exact choices_ne_nil (fun _ => ne_nil_of_mem_active)
        (List.forall₂_nil_right_iff.1 (mapM_eq_ok.1 h))
    cases selectors with
    | nil => simp [Selector.resolveAll, hcontext, ← hactive, hls, h]
    | cons s ss =>
      simp [Selector.resolveAll, hcontext, ← hactive, Selector.mapM_joined_append hls h]

/-- What a rule with selectors hands down is what it is written with. -/
theorem context_append_rule (scope : Scope) (path : Path) {selectors : List Selector}
    (h : selectors ≠ []) :
    context scope (path ++ [.rule selectors]) = resolved scope (path ++ [.rule selectors]) := by
  have hactive : (active (path ++ [.rule selectors])).isEmpty = false := by
    simp [active_append_rule, h]
  rw [resolved_eq, context, hactive]
  rfl

/-- An at-rule hands its context down unless the scope ends there. -/
theorem context_append_atRule {scope : Scope} {path : Path} {context : List Resolved}
    (h : path.context scope = .ok context) (head : AtRule) :
    Path.context scope (path ++ [.atRule head]) =
      .ok (if inScope (path ++ [.atRule head]) then context else []) := by
  cases hscope : inScope (path ++ [.atRule head]) with
  | true =>
    have hpath : path.inScope = true := by
      rw [inScope_append, Bool.and_eq_true] at hscope
      exact hscope.1
    have hactive : active (path ++ [.atRule head]) = path.active := by
      simp [active, hscope, hpath, lists_append, Frame.selectors]
    have hbase : base scope (path ++ [.atRule head]) = path.base scope := by
      simp [base, hscope, hpath]
    rw [Path.context, hactive, hbase]
    exact h
  | false =>
    have hactive : active (path ++ [.atRule head]) = [] := by
      simp [active, hscope, inner_append_atRule, lists]
    rw [Path.context, hactive]
    rfl

end Path

/-! ### Texts -/

theorem Fragment.eq_text_of_resolve {f : Fragment} {t : Text} (h : f.resolve = .ok t) :
    t = f.text := by
  cases f <;> cases h <;> rfl

theorem Fragment.eq_render_of_resolveAll {fs : List Fragment} {t : Text}
    (h : Fragment.resolveAll fs = .ok t) : t = Fragment.render fs := by
  obtain ⟨ts, hts, rfl⟩ := map_eq_ok.1 h
  rw [eq_map_of_mapM (fun _ _ => Fragment.eq_text_of_resolve) hts]
  rfl

theorem Declaration.eq_texts_of_resolve {d : Declaration} {t : Text × Text}
    (h : d.resolve = .ok t) : t = d.texts := by
  simp only [Declaration.resolve, bind_eq_ok, pure_eq_ok] at h
  obtain ⟨key, hkey, value, hvalue, rfl⟩ := h
  rw [Fragment.eq_text_of_resolve hkey, Fragment.eq_render_of_resolveAll hvalue]
  rfl

/-! ### What is written -/

section Written

variable {scope : Scope}

mutual

theorem Content.flatten_eq_nil_iff : ∀ {c : Content} {context : List Resolved} {inScope : Bool}
    {out : Stylesheet}, c.flatten scope context inScope = .ok out →
      (out = [] ↔ c.emits = false)
  | .rule selectors declarations nested location, context, inScope, out, h => by
    obtain ⟨resolved, texts, own, below, -, htexts, hown, hbelow, rfl⟩ :=
      Content.flatten_rule_eq_ok.1 h
    have htexts : texts = [] ↔ declarations.any (!·.isDangling) = false := by
      rw [eq_map_of_mapM (fun _ _ => Declaration.eq_texts_of_resolve) htexts]
      simp
    have hown : own = [] ↔ texts = [] := by
      rcases FlatItem.ofRule_eq_ok.1 hown with ⟨ht, rfl⟩ | ⟨ht, _, -, rfl⟩ <;> simp [ht]
    rw [List.append_eq_nil_iff, hown, htexts, Sheet.flattenIn_eq_nil_iff hbelow, Content.emits,
      Bool.or_eq_false_iff]
  | .atRule head body, context, inScope, out, h => by
    obtain ⟨items, hitems, hout⟩ := Content.flatten_atRule_eq_ok.1 h
    have hbody := Sheet.flattenIn_eq_nil_iff hitems
    rw [Content.emits, Bool.or_eq_false_iff, ← hbody, Bool.not_eq_false', and_comm]
    rcases FlatItem.ofAtRule_eq_ok.1 hout with ⟨hcond, rfl⟩ | ⟨hcond, _, -, rfl⟩ <;> simp [hcond]

/-- A sheet flattens to nothing exactly if nothing in it is written out. -/
theorem Sheet.flattenIn_eq_nil_iff : ∀ {s : Sheet} {context : List Resolved} {inScope : Bool}
    {out : Stylesheet}, s.flattenIn scope context inScope = .ok out →
      (out = [] ↔ Sheet.emits s = false)
  | [], context, inScope, out, h => by
    cases h
    simp [Sheet.emits]
  | c :: cs, context, inScope, out, h => by
    obtain ⟨first, others, hfirst, hothers, rfl⟩ := Sheet.flattenIn_cons_eq_ok.1 h
    rw [List.append_eq_nil_iff, Content.flatten_eq_nil_iff hfirst,
      Sheet.flattenIn_eq_nil_iff hothers, Sheet.emits, Bool.or_eq_false_iff]

end

theorem Stylesheet.listing_append (preludes : List Text) (s t : Stylesheet) :
    Stylesheet.listing preludes (s ++ t) =
      Stylesheet.listing preludes s ++ Stylesheet.listing preludes t := by
  induction s with
  | nil => rfl
  | cons i s ih => simp [Stylesheet.listing, ih]

/-- How the sites of a sheet are written, those that are written at all. -/
def Sheet.entries (scope : Scope) (path : Path) (s : Sheet) : Except Error (List Listed) :=
  ((Sheet.sites path s).filter (·.isWritten)).mapM (Site.entry scope)

theorem Site.mapM_entry_rule {path : Path} {selectors : List Selector}
    {declarations : List Declaration} {nested : Sheet} {location : Option Location}
    {resolved : List Resolved} {texts : List (Text × Text)} {own : Stylesheet}
    (hresolved : Path.resolved scope (path ++ [.rule selectors]) = .ok resolved)
    (htexts : texts = (declarations.filter (!·.isDangling)).map (·.texts))
    (hown : FlatItem.ofRule scope resolved texts = .ok own) :
    ([Site.mk path (.rule selectors declarations nested location)].filter (·.isWritten)).mapM
        (Site.entry scope) = .ok (Stylesheet.listing path.preludes own) := by
  rcases FlatItem.ofRule_eq_ok.1 hown with ⟨hnil, rfl⟩ | ⟨hsome, selectorTexts, htext, rfl⟩
  · have hunwritten : declarations.any (!·.isDangling) = false := by
      rw [hnil] at htexts
      simpa using htexts.symm
    simp [Site.isWritten, hunwritten, Stylesheet.listing, pure, Except.pure]
  · have hwritten :
        (Site.mk path (.rule selectors declarations nested location)).isWritten = true := by
      rw [htexts] at hsome
      simpa [Site.isWritten] using hsome
    have hentry : Site.entry scope ⟨path, .rule selectors declarations nested location⟩ =
        .ok (.rule path.preludes selectorTexts texts) := by
      simp only [Site.entry, Site.chain, bind_eq_ok, pure_eq_ok]
      exact ⟨resolved, hresolved, selectorTexts, htext, by rw [htexts]⟩
    rw [List.filter_cons_of_pos hwritten]
    exact mapM_eq_ok.2 (.cons hentry .nil)

theorem Site.mapM_entry_atRule {path : Path} {head : AtRule} {body : Sheet}
    {items out : Stylesheet} (hempty : items = [] ↔ Sheet.emits body = false)
    (hbelow : Sheet.entries scope (path ++ [.atRule head]) body =
      .ok (Stylesheet.listing (path.preludes ++ [head.prelude]) items))
    (hout : FlatItem.ofAtRule head items = .ok out) :
    (((Content.atRule head body).sites path).filter (·.isWritten)).mapM (Site.entry scope) =
      .ok (Stylesheet.listing path.preludes out) := by
  rw [Content.sites]
  rcases FlatItem.ofAtRule_eq_ok.1 hout with
    ⟨⟨rfl, hscoped⟩, rfl⟩ | ⟨hkept, condition, hcond, rfl⟩
  · have hunwritten : (Site.mk path (.atRule head body)).isWritten = false := by
      simp [Site.isWritten, hscoped, hempty.1 rfl]
    rw [List.filter_cons_of_neg (by simp [hunwritten])]
    exact hbelow
  · have hwritten : (Site.mk path (.atRule head body)).isWritten = true := by
      rw [hempty] at hkept
      simp only [not_and, Bool.not_eq_true] at hkept
      cases hemits : Sheet.emits body with
      | true => simp [Site.isWritten, hemits]
      | false => simp [Site.isWritten, hkept hemits]
    have hprelude : AtRule.preludeOf head.name condition = head.prelude := by
      rw [Fragment.eq_render_of_resolveAll hcond]
      rfl
    rw [List.filter_cons_of_pos hwritten, hprelude, Stylesheet.listing, FlatItem.listing,
      Stylesheet.listing, List.append_nil]
    exact mapM_eq_ok.2 (.cons rfl (mapM_eq_ok.1 hbelow))

mutual

theorem Content.entries_flatten : ∀ {c : Content} {path : Path} {context : List Resolved}
    {out : Stylesheet}, c.WellNested → path.context scope = .ok context →
      c.flatten scope context path.inScope = .ok out →
      ((c.sites path).filter (·.isWritten)).mapM (Site.entry scope) =
        .ok (Stylesheet.listing path.preludes out)
  | .rule selectors declarations nested location, path, context, out, hw, hc, h => by
    obtain ⟨resolved, texts, own, below, hresolved, htexts, hown, hbelow, rfl⟩ :=
      Content.flatten_rule_eq_ok.1 h
    rw [Path.resolveAll_context hc] at hresolved
    have htexts := eq_map_of_mapM (fun _ _ => Declaration.eq_texts_of_resolve) htexts
    rw [Stylesheet.listing_append, Content.sites, ← List.singleton_append, List.filter_append]
    refine mapM_append_eq_ok (Site.mapM_entry_rule hresolved htexts hown) ?_
    obtain ⟨-, hbare, hnested⟩ := hw
    by_cases hs : selectors = []
    · -- a rule without selectors has nothing nested in it
      rw [hbare hs] at hbelow ⊢
      cases hbelow
      rfl
    · rw [← Path.context_append_rule scope path hs] at hresolved
      rw [← Path.inScope_append_rule path selectors] at hbelow
      rw [← Path.preludes_append_rule path selectors]
      exact Sheet.entries_flattenIn hnested hresolved hbelow
  | .atRule head body, path, context, out, hw, hc, h => by
    obtain ⟨items, hitems, hout⟩ := Content.flatten_atRule_eq_ok.1 h
    have hempty := Sheet.flattenIn_eq_nil_iff hitems
    rw [← Path.inScope_append_atRule] at hitems
    have hbelow := Sheet.entries_flattenIn hw (Path.context_append_atRule hc head) hitems
    rw [Path.preludes_append_atRule] at hbelow
    exact Site.mapM_entry_atRule hempty hbelow hout

theorem Sheet.entries_flattenIn : ∀ {s : Sheet} {path : Path} {context : List Resolved}
    {out : Stylesheet}, Sheet.WellNested s → path.context scope = .ok context →
      s.flattenIn scope context path.inScope = .ok out →
      s.entries scope path = .ok (Stylesheet.listing path.preludes out)
  | [], path, context, out, hw, hc, h => by
    cases h
    rfl
  | c :: cs, path, context, out, hw, hc, h => by
    obtain ⟨first, others, hfirst, hothers, rfl⟩ := Sheet.flattenIn_cons_eq_ok.1 h
    rw [Stylesheet.listing_append, Sheet.entries, Sheet.sites, List.filter_append]
    exact mapM_append_eq_ok (Content.entries_flatten hw.1 hc hfirst)
      (Sheet.entries_flattenIn hw.2 hc hothers)

end

end Written

/-- In scope there is one selector for each choice. -/
theorem Path.length_resolved {scope : Scope} {path : Path} {resolved : List Resolved}
    (hs : path.inScope = true) (h : path.resolved scope = .ok resolved) :
    resolved.length = (path.lists.map List.length).prod := by
  rw [Path.resolved, if_pos hs, mapM_eq_ok] at h
  rw [← h.length_eq, length_choices]

theorem Site.length_of_entry {scope : Scope} {s : Site} {preludes selectors : List Text}
    {declarations : List (Text × Text)} (hs : s.chain.inScope = true)
    (h : s.entry scope = .ok (.rule preludes selectors declarations)) :
    selectors.length = (s.chain.lists.map List.length).prod := by
  unfold Site.entry at h
  split at h
  · simp only [bind_eq_ok, pure_eq_ok] at h
    obtain ⟨resolved, hresolved, texts, htexts, heq⟩ := h
    cases heq
    rw [← (mapM_eq_ok.1 htexts).length_eq, Path.length_resolved hs hresolved]
  · cases h

/-- **Flattening loses, repeats and reorders nothing.** A sheet that was read and filled in flattens
under every scope, and what comes out, read in order, is exactly its sites that are written, as
their paths say they are; a rule in scope has as many selectors as there are choices from the
selector lists around it. -/
theorem Sheet.listing_flatten {source : Text} {values : Values} {parsed s : Sheet}
    (hp : Sheet.parse source = .ok parsed) (he : Sheet.expand values parsed = .ok s)
    (scope : Scope) :
    ∃ out, s.flatten scope = .ok out ∧
      ((Sheet.sites [] s).filter (·.isWritten)).mapM (Site.entry scope) =
        .ok (Stylesheet.listing [] out) ∧
      ∀ site ∈ Sheet.sites [] s, site.chain.inScope = true →
        ∀ preludes selectors declarations,
          site.entry scope = .ok (.rule preludes selectors declarations) →
            selectors.length = (site.chain.lists.map List.length).prod := by
  have hw := (Sheet.wellNested_of_parse hp).expand he
  obtain ⟨out, hout⟩ := Sheet.exists_flatten scope hw (Sheet.filled_of_expand he)
  have hcontext : Path.context scope [] = .ok [] := rfl
  exact ⟨out, hout, Sheet.entries_flattenIn hw hcontext hout,
    fun site _ hs _ _ _ => Site.length_of_entry hs⟩

/-- Two lists, one nested in the other, a malformed declaration, an at-rule that stays empty, and
frames. -/
def crossedSource : Text :=
  "a, b \x7b c: $\x7bv\x7d; &:d, > e \x7b f: g; h \x7d \x7d".toList ++
    "@media m \x7b p \x7b \x7d \x7d @keyframes k \x7b from \x7b l: o \x7d \x7d".toList

def crossedValues : Values := .named [(['v'], .string "red".toList)]

/-- What it comes to: the second rule has a selector for each of the four choices. -/
def crossedListing : List Listed :=
  [.rule [] ["a.x".toList, "b.x".toList] [(['c'], "red".toList)],
    .rule [] ["a.x:d".toList, "a.x > e".toList, "b.x:d".toList, "b.x > e".toList] [(['f'], ['g'])],
    .atRule [] "@keyframes k".toList,
    .rule ["@keyframes k".toList] ["from".toList] [(['l'], ['o'])]]

theorem listing_flatten_crossedSource : ∃ parsed s out,
    Sheet.parse crossedSource = .ok parsed ∧ Sheet.expand crossedValues parsed = .ok s ∧
      s.flatten ⟨some ['x']⟩ = .ok out ∧ Stylesheet.listing [] out = crossedListing := by
  have h : (do
      let parsed ← Sheet.parse crossedSource
      let s ← Sheet.expand crossedValues parsed
      ((Sheet.sites [] s).filter Site.isWritten).mapM (Site.entry ⟨some ['x']⟩)) =
        .ok crossedListing := by decide +kernel
  obtain ⟨parsed, hp, h⟩ := bind_eq_ok.1 h
  obtain ⟨s, he, h⟩ := bind_eq_ok.1 h
  obtain ⟨out, hout, hlisting, -⟩ := Sheet.listing_flatten hp he ⟨some ['x']⟩
  rw [h] at hlisting
  exact ⟨parsed, s, out, hp, he, hout, (Except.ok.inj hlisting).symm⟩

end ScopedCss
