/-
Conditionals and the rules around them. An at-rule in scope hands its context on unchanged, so a
conditional inside a rule comes to the same as the rule inside the conditional
(`Content.flatten_conditional`), and flattening looks at an item only through what it flattens to
(`Sheet.Slot.flattenIn_put`): the two can be exchanged at every slot of a sheet.
-/
import ScopedCss.Proofs.Stylesheet.Listing

namespace ScopedCss

/-- A slot for one item in a sheet: between two items of a list, inside the rules and at-rules that
the constructors name from the outside in. -/
inductive Sheet.Slot where
  | here (before after : Sheet)
  | inRule (before : Sheet) (selectors : List Selector) (declarations : List Declaration)
      (inside : Slot) (location : Option Location) (after : Sheet)
  | inAtRule (before : Sheet) (head : AtRule) (inside : Slot) (after : Sheet)

namespace Sheet.Slot

/-- The sheet with `c` in the slot. -/
def put (c : Content) : Slot → Sheet
  | here before after => before ++ c :: after
  | inRule before selectors declarations inside location after =>
    before ++ .rule selectors declarations (inside.put c) location :: after
  | inAtRule before head inside after => before ++ .atRule head (inside.put c) :: after

/-- Whether no at-rule around a slot ends the scope. -/
def inScope : Slot → Bool
  | here _ _ => true
  | inRule _ _ _ inside _ _ => inside.inScope
  | inAtRule _ head inside _ => head.kind.isScoped && inside.inScope

end Sheet.Slot

section Exchange

variable {scope : Scope} {context : List Resolved} {inScope : Bool}

theorem Sheet.flattenIn_append_congr (before : Sheet) {s t : Sheet}
    (h : Sheet.flattenIn scope context inScope s = Sheet.flattenIn scope context inScope t) :
    Sheet.flattenIn scope context inScope (before ++ s) =
      Sheet.flattenIn scope context inScope (before ++ t) := by
  induction before with
  | nil => exact h
  | cons c before ih => rw [List.cons_append, List.cons_append, flattenIn, flattenIn, ih]

theorem Sheet.flattenIn_between (before after : Sheet) {c d : Content}
    (h : c.flatten scope context inScope = d.flatten scope context inScope) :
    Sheet.flattenIn scope context inScope (before ++ c :: after) =
      Sheet.flattenIn scope context inScope (before ++ d :: after) := by
  refine Sheet.flattenIn_append_congr before ?_
  rw [flattenIn, flattenIn, h]

/-- What flattens alike in scope can be put in each other's place in every slot in scope. -/
theorem Sheet.Slot.flattenIn_put {c d : Content}
    (h : ∀ context, c.flatten scope context true = d.flatten scope context true) {slot : Slot}
    (hslot : slot.inScope = true) (context : List Resolved) :
    Sheet.flattenIn scope context true (slot.put c) =
      Sheet.flattenIn scope context true (slot.put d) := by
  induction slot generalizing context with
  | here before after => exact Sheet.flattenIn_between before after (h context)
  | inRule before selectors declarations inside location after ih =>
    have hinside := ih hslot
    refine Sheet.flattenIn_between before after ?_
    simp only [Content.flatten, hinside]
  | inAtRule before head inside after ih =>
    obtain ⟨hscoped, hinside⟩ := Bool.and_eq_true_iff.1 hslot
    refine Sheet.flattenIn_between before after ?_
    simp only [Content.flatten, hscoped, Bool.and_self, if_true, ih hinside]

/-- In scope a rule without selectors is resolved to what encloses it. -/
theorem Selector.resolveAll_nil (scope : Scope) (inScope : Bool) {resolved : List Resolved}
    (h : resolved ≠ []) : Selector.resolveAll scope resolved inScope [] = .ok resolved := by
  simp [Selector.resolveAll, h]

/-- A rule around nothing but a conditional comes to the conditional around the rule. -/
theorem Content.flatten_conditional {head : AtRule} (hscoped : head.kind.isScoped = true)
    (selectors : List Selector) (declarations : List Declaration) (nested : Sheet)
    (outer bare inner : Option Location) (context : List Resolved) :
    (Content.rule selectors [] [.atRule head (.rule [] declarations [] bare :: nested)]
        outer).flatten scope context true =
      (Content.atRule head [.rule selectors declarations nested inner]).flatten scope context
        true := by
  cases hresolved : Selector.resolveAll scope context true selectors with
  | error e => simp [Content.flatten, Sheet.flattenIn, hscoped, hresolved]
  | ok resolved =>
    -- what the rule's own declarations are put under inside the conditional
    have hbare := Selector.resolveAll_nil scope true (Selector.resolveAll_ne_nil hresolved)
    simp only [Content.flatten, Sheet.flattenIn, hscoped, hresolved, hbare, Bool.and_self, if_true,
      ok_bind, List.filter_nil, List.mapM_nil, pure_bind, FlatItem.ofRule, List.isEmpty_nil,
      bind_assoc, List.append_nil, List.nil_append, bind_pure]

end Exchange

/-- **A conditional may be moved across the rule that holds it.** At every slot of a sheet that is
in scope, a rule around a conditional with the rule's declarations in front comes to the same as the
conditional around the rule, whatever the selectors, the declarations, what is nested and the
scope. -/
theorem Sheet.flatten_put_exchange {slot : Sheet.Slot} (hslot : slot.inScope = true)
    {head : AtRule} (hscoped : head.kind.isScoped = true) (selectors : List Selector)
    (declarations : List Declaration) (nested : Sheet) (outer bare inner : Option Location)
    (scope : Scope) :
    Sheet.flatten scope
        (slot.put (.rule selectors [] [.atRule head (.rule [] declarations [] bare :: nested)]
          outer)) =
      Sheet.flatten scope
        (slot.put (.atRule head [.rule selectors declarations nested inner])) :=
  Sheet.Slot.flattenIn_put
    (Content.flatten_conditional hscoped selectors declarations nested outer bare inner) hslot []

/-- Inside `a, > b` inside a conditional, with frames behind it. -/
def exchangeSlot : Sheet.Slot :=
  .inAtRule [] ⟨.media, "media".toList, [.literal ['m']], none⟩
    (.inRule [] [⟨[.literal ['a']]⟩, ⟨[.combinator .child, .literal ['b']]⟩] []
      (.here [] [.rule [⟨[.literal ['c']]⟩] [] [] none]) none [])
    [.atRule ⟨.keyframes, "keyframes".toList, [.literal ['k']], none⟩ []]

def exchangeHead : AtRule := ⟨.supports, "supports".toList, [.literal ['s']], none⟩

/-- The rule `&:d { e: f; g { h: i } }`, with `@supports s` inside it. -/
theorem flatten_put_exchangeSlot :
    exchangeSlot.inScope = true ∧ exchangeHead.kind.isScoped = true ∧
    Stylesheet.listing [] <$> Sheet.flatten ⟨some ['x']⟩ (exchangeSlot.put
      (.rule [⟨[.marker, .literal ":d".toList]⟩] []
        [.atRule exchangeHead
          [.rule [] [⟨.literal ['e'], [.literal ['f']], none, none⟩] [] none,
            .rule [⟨[.literal ['g']]⟩] [⟨.literal ['h'], [.literal ['i']], none, none⟩] [] none]]
        none)) =
      .ok [.atRule [] "@media m".toList, .atRule ["@media m".toList] "@supports s".toList,
        .rule ["@media m".toList, "@supports s".toList]
          ["a.x:d".toList, ".x > b:d".toList] [(['e'], ['f'])],
        .rule ["@media m".toList, "@supports s".toList]
          ["a.x:d g".toList, ".x > b:d g".toList] [(['h'], ['i'])],
        .atRule [] "@keyframes k".toList] := by
  refine ⟨rfl, rfl, ?_⟩
  rw [Sheet.flatten_put_exchange rfl rfl _ _ _ _ _ none]
  decide +kernel

end ScopedCss
