/-
What flattening comes to, item by item, and that a well nested sheet without placeholders flattens
under every scope (`Sheet.exists_flatten`).
-/
import ScopedCss.Proofs.Sheet.Expansion
import ScopedCss.Stylesheet.Flatten

namespace ScopedCss

section Inversion

variable {scope : Scope} {context : List Resolved} {inScope : Bool} {out : Stylesheet}

theorem Content.flatten_rule_eq_ok {selectors : List Selector} {declarations : List Declaration}
    {nested : Sheet} {location : Option Location} :
    (Content.rule selectors declarations nested location).flatten scope context inScope = .ok out ↔
      ∃ resolved texts own below,
        Selector.resolveAll scope context inScope selectors = .ok resolved ∧
        (declarations.filter (!·.isDangling)).mapM Declaration.resolve = .ok texts ∧
        FlatItem.ofRule scope resolved texts = .ok own ∧
        Sheet.flattenIn scope resolved inScope nested = .ok below ∧ out = own ++ below := by
  simp only [Content.flatten, bind_eq_ok, pure_eq_ok]
  constructor
  · rintro ⟨resolved, hr, texts, ht, own, ho, below, hb, rfl⟩
    exact ⟨resolved, texts, own, below, hr, ht, ho, hb, rfl⟩
  · rintro ⟨resolved, texts, own, below, hr, ht, ho, hb, rfl⟩
    exact ⟨resolved, hr, texts, ht, own, ho, below, hb, rfl⟩

/-- An at-rule hands its context on to its body only if both are in scope. -/
theorem Content.flatten_atRule_eq_ok {head : AtRule} {body : Sheet} :
    (Content.atRule head body).flatten scope context inScope = .ok out ↔
      ∃ items, Sheet.flattenIn scope (if inScope && head.kind.isScoped then context else [])
          (inScope && head.kind.isScoped) body = .ok items ∧
        FlatItem.ofAtRule head items = .ok out := by
  rw [Content.flatten, Bool.and_comm]
  cases inScope && head.kind.isScoped with
  | true => simp only [if_true, bind_eq_ok]
  | false => simp only [Bool.false_eq_true, if_false, bind_eq_ok]

theorem Sheet.flattenIn_cons_eq_ok {c : Content} {cs : Sheet} :
    Sheet.flattenIn scope context inScope (c :: cs) = .ok out ↔
      ∃ first others, c.flatten scope context inScope = .ok first ∧
        Sheet.flattenIn scope context inScope cs = .ok others ∧ out = first ++ others := by
  simp only [Sheet.flattenIn, bind_eq_ok, pure_eq_ok]
  constructor
  · rintro ⟨first, hf, others, ho, rfl⟩
    exact ⟨first, others, hf, ho, rfl⟩
  · rintro ⟨first, others, hf, ho, rfl⟩
    exact ⟨first, hf, others, ho, rfl⟩

theorem FlatItem.ofRule_eq_ok {resolved : List Resolved} {declarations : List (Text × Text)} :
    FlatItem.ofRule scope resolved declarations = .ok out ↔
      declarations = [] ∧ out = [] ∨
        declarations ≠ [] ∧ ∃ texts, resolved.mapM (Resolved.text scope.root) = .ok texts ∧
          out = [.rule texts declarations] := by
  unfold FlatItem.ofRule
  cases declarations with
  | nil => simp [eq_comm]
  | cons d ds =>
    simp only [List.isEmpty_cons, Bool.false_eq_true, if_false, bind_eq_ok, pure_eq_ok,
      reduceCtorEq, false_and, ne_eq, not_false_eq_true, true_and, false_or]

theorem FlatItem.ofAtRule_eq_ok {head : AtRule} {items : Stylesheet} :
    FlatItem.ofAtRule head items = .ok out ↔
      (items = [] ∧ head.kind.isScoped = true) ∧ out = [] ∨
        ¬(items = [] ∧ head.kind.isScoped = true) ∧
          ∃ condition, Fragment.resolveAll head.condition = .ok condition ∧
            out = [.atRule (AtRule.preludeOf head.name condition) items] := by
  unfold FlatItem.ofAtRule
  split
  · rename_i hcond
    simp only [Bool.and_eq_true, List.isEmpty_iff] at hcond
    simp [hcond, eq_comm]
  · rename_i hcond
    simp only [Bool.and_eq_true, List.isEmpty_iff] at hcond
    simp only [hcond, false_and, not_false_eq_true, true_and, false_or, bind_eq_ok, pure_eq_ok]

end Inversion

/-! ### Sheets without placeholders flatten -/

theorem Fragment.IsPlain.resolve {f : Fragment} (h : f.IsPlain) : f.resolve = .ok f.text := by
  cases f with
  | placeholder p => exact absurd rfl (h p)
  | literal t => rfl
  | marker => rfl
  | combinator c => rfl

theorem Fragment.exists_resolveAll {fs : List Fragment} (h : ∀ f ∈ fs, f.IsPlain) :
    ∃ t, Fragment.resolveAll fs = .ok t := by
  obtain ⟨ts, hts⟩ := exists_mapM_eq_ok fun f hf => ⟨f.text, (h f hf).resolve⟩
  exact ⟨ts.flatten, map_eq_ok.2 ⟨ts, hts, rfl⟩⟩

theorem Declaration.exists_resolve {d : Declaration} (hd : d.isDangling = false) (h : d.Filled) :
    ∃ texts, d.resolve = .ok texts := by
  obtain ⟨hkey, hvalue⟩ := h hd
  obtain ⟨t, ht⟩ := Fragment.exists_resolveAll hvalue
  exact ⟨(d.key.text, t), bind_eq_ok.2 ⟨_, hkey.resolve, bind_eq_ok.2 ⟨t, ht, rfl⟩⟩⟩

/-- A selector without placeholders. -/
def Resolved.IsPlain (r : Resolved) : Prop := ∀ p, .placeholder p ∉ r

theorem Resolved.IsPlain.exists_text {r : Resolved} (h : r.IsPlain) (root : Text) :
    ∃ t, r.text root = .ok t := by
  have hparts : ∀ part ∈ r, ∃ t, part.text root = .ok t := by
    intro part hmem
    cases part with
    | placeholder p => exact absurd hmem (h p)
    | root => exact ⟨_, rfl⟩
    | literal t => exact ⟨_, rfl⟩
    | combinator c => exact ⟨_, rfl⟩
  obtain ⟨ts, hts⟩ := exists_mapM_eq_ok hparts
  exact ⟨ts.flatten, map_eq_ok.2 ⟨ts, hts, rfl⟩⟩

/-- The root takes the place of one part, and all the others stay. -/
theorem Resolved.exists_of_replaceRoot {r r' : Resolved} (h : r.replaceRoot = some r') :
    ∃ before after, r = before ++ .literal Scope.globalRoot :: after ∧
      r' = before ++ .root :: after := by
  induction r generalizing r' with
  | nil => cases h
  | cons p ps ih =>
    unfold replaceRoot at h
    split at h
    · cases h
    · cases h
    · rename_i heq
      injection heq with hp hps
      subst hp hps
      split at h
      · rename_i hroot
        cases h
        exact ⟨[], ps, by rw [hroot, List.nil_append], rfl⟩
      · simp only [Option.map_eq_map, Option.map_eq_some_iff] at h
        obtain ⟨rest, hrest, rfl⟩ := h
        obtain ⟨before, after, hps, rfl⟩ := ih hrest
        exact ⟨p :: before, after, by rw [hps, List.cons_append], rfl⟩

namespace Selector

variable {s : Selector} {parent : Resolved} {p : Placeholder}

theorem placeholder_of_substitute (h : .placeholder p ∈ s.substitute parent) :
    .placeholder p ∈ s.fragments ∨ .placeholder p ∈ parent := by
  obtain ⟨f, hf, hmem⟩ := List.mem_flatMap.1 h
  cases f with
  | placeholder q =>
    cases List.mem_singleton.1 hmem
    exact .inl hf
  | marker => exact .inr hmem
  | literal t => simp [Fragment.substitute] at hmem
  | combinator c => simp [Fragment.substitute] at hmem

theorem placeholder_of_substitute_nil (h : .placeholder p ∈ s.substitute []) :
    .placeholder p ∈ s.fragments :=
  (placeholder_of_substitute h).resolve_right List.not_mem_nil

/-- Nesting brings in no placeholder. -/
theorem placeholder_of_nest (h : .placeholder p ∈ s.nest parent) :
    .placeholder p ∈ s.fragments ∨ .placeholder p ∈ parent := by
  unfold Selector.nest at h
  split at h
  · exact placeholder_of_substitute h
  split at h
  · rcases List.mem_append.1 h with hparent | hown
    · exact .inr hparent
    · exact .inl (placeholder_of_substitute_nil hown)
  · rcases List.mem_append.1 h with hparent | hown
    · exact .inr hparent
    · exact .inl (placeholder_of_substitute_nil (by simpa using hown))

/-- Without a marker nothing of a selector goes away. -/
theorem substitute_ne_nil (hm : s.hasMarker = false) (hf : s.fragments ≠ []) :
    s.substitute [] ≠ [] := by
  obtain ⟨f, fs, hs⟩ := List.exists_cons_of_ne_nil hf
  cases f <;> simp [hasMarker, hs, substitute, Fragment.substitute] at hm ⊢

/-- A selector with a fragment is joined with every scope, and that brings in no placeholder. -/
theorem exists_qualify (hf : s.fragments ≠ []) (scope : Scope) :
    ∃ r, s.qualify scope = .ok r ∧ ∀ p, .placeholder p ∈ r → .placeholder p ∈ s.fragments := by
  unfold qualify
  split
  · refine ⟨_, rfl, fun p hp => (placeholder_of_substitute hp).resolve_right ?_⟩
    simp
  rename_i hcond
  split
  · exact ⟨_, rfl, fun p hp => placeholder_of_substitute_nil (by simpa using hp)⟩
  split
  · rename_i r hr
    obtain ⟨before, after, hsub, rfl⟩ := Resolved.exists_of_replaceRoot hr
    refine ⟨_, rfl, fun p hp => placeholder_of_substitute_nil ?_⟩
    rw [hsub]
    simpa using hp
  · have hm : s.hasMarker = false := by
      simp only [Bool.or_eq_true, not_or, Bool.not_eq_true] at hcond
      exact hcond.2
    obtain ⟨q, qs, hq⟩ := List.exists_cons_of_ne_nil (substitute_ne_nil hm hf)
    rw [hq]
    refine ⟨_, rfl, fun p hp => placeholder_of_substitute_nil ?_⟩
    rw [hq]
    split at hp <;> simpa using hp

/-- Selectors with fragments resolve, and their placeholders are those of the selectors and of what
encloses them. -/
theorem exists_resolveAll (scope : Scope) (inScope : Bool) (context : List Resolved)
    {selectors : List Selector} (hf : ∀ s ∈ selectors, s.fragments ≠ []) :
    ∃ resolved, resolveAll scope context inScope selectors = .ok resolved ∧
      ∀ r ∈ resolved, ∀ p, .placeholder p ∈ r →
        (∃ s ∈ selectors, .placeholder p ∈ s.fragments) ∨ ∃ r ∈ context, .placeholder p ∈ r := by
  unfold resolveAll
  split
  · refine ⟨_, rfl, ?_⟩
    split
    · exact fun r hr p hp => .inr ⟨r, hr, hp⟩
    · split <;> simp
  split
  · refine ⟨_, rfl, fun r hr p hp => ?_⟩
    simp only [List.mem_flatMap, List.mem_map] at hr
    obtain ⟨parent, hparent, s, hs, rfl⟩ := hr
    exact (placeholder_of_nest hp).imp (fun h => ⟨s, hs, h⟩) fun h => ⟨parent, hparent, h⟩
  split
  · have hall := fun s hs => exists_qualify (hf s hs) scope
    obtain ⟨resolved, hresolved⟩ :=
      exists_mapM_eq_ok fun s hs => (hall s hs).imp fun _ => And.left
    refine ⟨resolved, hresolved, fun r hr p hp => ?_⟩
    obtain ⟨s, hs, hq⟩ := exists_of_mem_mapM hresolved hr
    obtain ⟨r', hq', hown⟩ := hall s hs
    rw [hq] at hq'
    cases hq'
    exact .inl ⟨s, hs, hown p hp⟩
  · refine ⟨_, rfl, fun r hr p hp => ?_⟩
    obtain ⟨s, hs, rfl⟩ := List.mem_map.1 hr
    refine .inl ⟨s, hs, (placeholder_of_substitute hp).resolve_right ?_⟩
    simp

end Selector

/-- In scope every rule is put under some selector. -/
theorem Selector.resolveAll_ne_nil {scope : Scope} {context resolved : List Resolved}
    {selectors : List Selector} (h : resolveAll scope context true selectors = .ok resolved) :
    resolved ≠ [] := by
  unfold resolveAll at h
  split at h
  · cases h
    split
    · simpa using ‹(!context.isEmpty) = true›
    · exact List.cons_ne_nil _ _
  obtain ⟨s, ss, rfl⟩ := List.exists_cons_of_ne_nil (by simpa using ‹¬selectors.isEmpty = true›)
  split at h
  · obtain ⟨parent, context, rfl⟩ := List.exists_cons_of_ne_nil
      (l := context) (by simpa using ‹(!context.isEmpty) = true›)
    cases h
    exact List.cons_ne_nil _ _
  · obtain ⟨r, rs, -, -, rfl⟩ := List.forall₂_cons_left_iff.1 (mapM_eq_ok.1 h)
    exact List.cons_ne_nil _ _

theorem FlatItem.exists_ofRule (scope : Scope) {resolved : List Resolved}
    (hr : ∀ r ∈ resolved, r.IsPlain) (declarations : List (Text × Text)) :
    ∃ out, FlatItem.ofRule scope resolved declarations = .ok out := by
  obtain ⟨texts, htexts⟩ := exists_mapM_eq_ok fun r hmem => (hr r hmem).exists_text scope.root
  unfold FlatItem.ofRule
  split
  · exact ⟨_, rfl⟩
  · exact ⟨_, bind_eq_ok.2 ⟨texts, htexts, rfl⟩⟩

theorem FlatItem.exists_ofAtRule {head : AtRule} (hc : ∀ f ∈ head.condition, f.IsPlain)
    (items : Stylesheet) : ∃ out, FlatItem.ofAtRule head items = .ok out := by
  obtain ⟨condition, hcondition⟩ := Fragment.exists_resolveAll hc
  unfold FlatItem.ofAtRule
  split
  · exact ⟨_, rfl⟩
  · exact ⟨_, bind_eq_ok.2 ⟨condition, hcondition, rfl⟩⟩

section Success

variable (scope : Scope)

mutual

theorem Content.exists_flatten : ∀ {c : Content} {context : List Resolved} (inScope : Bool),
    c.WellNested → c.Filled → (∀ r ∈ context, r.IsPlain) →
      ∃ out, c.flatten scope context inScope = .ok out
  | .rule selectors declarations nested location, context, inScope, hw, hf, hc => by
    obtain ⟨hfragments, -, hnested⟩ := hw
    obtain ⟨hselectors, hdeclarations, hfilled⟩ := hf
    obtain ⟨resolved, hresolved, horigin⟩ :=
      Selector.exists_resolveAll scope inScope context hfragments
    have hplain : ∀ r ∈ resolved, r.IsPlain := by
      intro r hr p hp
      rcases horigin r hr p hp with ⟨s, hs, hmem⟩ | ⟨r', hr', hmem⟩
      · exact hselectors s hs _ hmem p rfl
      · exact hc r' hr' p hmem
    obtain ⟨texts, htexts⟩ :
        ∃ texts, (declarations.filter (!·.isDangling)).mapM Declaration.resolve = .ok texts := by
      apply exists_mapM_eq_ok
      intro d hd
      simp only [List.mem_filter, Bool.not_eq_true'] at hd
      exact Declaration.exists_resolve hd.2 (hdeclarations d hd.1)
    obtain ⟨own, hown⟩ := FlatItem.exists_ofRule scope hplain texts
    obtain ⟨below, hbelow⟩ := Sheet.exists_flattenIn inScope hnested hfilled hplain
    exact ⟨own ++ below, Content.flatten_rule_eq_ok.2
      ⟨resolved, texts, own, below, hresolved, htexts, hown, hbelow, rfl⟩⟩
  | .atRule head body, context, inScope, hw, hf, hc => by
    obtain ⟨hcondition, hfilled⟩ := hf
    have hpassed : ∀ r ∈ if inScope && head.kind.isScoped then context else [], r.IsPlain := by
      split
      · exact hc
      · exact List.forall_mem_nil _
    obtain ⟨items, hitems⟩ := Sheet.exists_flattenIn (inScope && head.kind.isScoped) hw hfilled
      hpassed
    obtain ⟨out, hout⟩ := FlatItem.exists_ofAtRule hcondition items
    exact ⟨out, Content.flatten_atRule_eq_ok.2 ⟨items, hitems, hout⟩⟩

theorem Sheet.exists_flattenIn : ∀ {s : Sheet} {context : List Resolved} (inScope : Bool),
    Sheet.WellNested s → Sheet.Filled s → (∀ r ∈ context, r.IsPlain) →
      ∃ out, s.flattenIn scope context inScope = .ok out
  | [], context, inScope, hw, hf, hc => ⟨[], rfl⟩
  | c :: cs, context, inScope, hw, hf, hc => by
    obtain ⟨first, hfirst⟩ := Content.exists_flatten inScope hw.1 hf.1 hc
    obtain ⟨others, hothers⟩ := Sheet.exists_flattenIn inScope hw.2 hf.2 hc
    exact ⟨first ++ others, Sheet.flattenIn_cons_eq_ok.2 ⟨first, others, hfirst, hothers, rfl⟩⟩

end

/-- A well nested sheet without placeholders flattens under every scope. -/
theorem Sheet.exists_flatten {s : Sheet} (hw : Sheet.WellNested s) (hf : Sheet.Filled s) :
    ∃ out, s.flatten scope = .ok out :=
  Sheet.exists_flattenIn scope true hw hf (List.forall_mem_nil _)

end Success

end ScopedCss
