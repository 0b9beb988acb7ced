/-
Items that flatten to the parts of a style sheet (`Sheet.Restores`) make a sheet that is flattened to
the same lines (`Sheet.Restores.exists_flatten`). The style sheet need not be the same: declarations
outside all rules come to stand in one rule without selectors where there were several side by side,
and that does not show in print (`Stylesheet.SameText`).
-/
import ScopedCss.Proofs.Stylesheet.Legible
import ScopedCss.Proofs.Stylesheet.Relocation
import ScopedCss.Stylesheet.Printer

namespace ScopedCss

/-! ### Lines -/

theorem Stylesheet.lines_append (indent : Text) (depth : Nat) (s t : Stylesheet) :
    Stylesheet.lines indent depth (s ++ t) =
      Stylesheet.lines indent depth s ++ Stylesheet.lines indent depth t := by
  induction s with
  | nil => rfl
  | cons i s ih => rw [List.cons_append, Stylesheet.lines, ih, Stylesheet.lines, List.append_assoc]

theorem Text.stripRight_concat (x : Text) {c : Char} (hc : isBlank c = false) :
    stripRight (x ++ [c]) = x ++ [c] := by
  rw [stripRight, List.reverse_append, List.reverse_singleton, List.singleton_append,
    List.dropWhile_cons_of_neg (by simp [hc]), List.reverse_cons, List.reverse_reverse]

theorem FlatItem.stripRight_declarationLine (pad : Text) (d : Text × Text) :
    Text.stripRight (declarationLine pad d) = declarationLine pad d :=
  Text.stripRight_concat _ (by decide)

theorem FlatItem.stripRight_headLine (pad head : Text) :
    Text.stripRight (headLine pad head) = headLine pad head := by
  have hline : headLine pad head = pad ++ head ++ [' '] ++ ['\x7b'] := by simp [headLine]
  rw [hline, Text.stripRight_concat _ (by decide)]

theorem FlatItem.stripRight_closeLine (pad : Text) :
    Text.stripRight (closeLine pad) = closeLine pad :=
  Text.stripRight_concat _ (by decide)

mutual

theorem FlatItem.stripRight_lines (indent : Text) : ∀ (depth : Nat) (i : FlatItem),
    (i.lines indent depth).map Text.stripRight = i.lines indent depth
  | depth, .rule [] declarations => by
    simp [FlatItem.lines, Function.comp_def, FlatItem.stripRight_declarationLine]
  | depth, .rule (s :: ss) declarations => by
    simp [FlatItem.lines, Function.comp_def, FlatItem.stripRight_declarationLine,
      FlatItem.stripRight_headLine, FlatItem.stripRight_closeLine]
  | depth, .atRule prelude items => by
    simp [FlatItem.lines, FlatItem.stripRight_headLine, FlatItem.stripRight_closeLine,
      Stylesheet.stripRight_lines indent (depth + 1) items]

/-- No line ends in a blank. -/
theorem Stylesheet.stripRight_lines (indent : Text) : ∀ (depth : Nat) (s : Stylesheet),
    (Stylesheet.lines indent depth s).map Text.stripRight = Stylesheet.lines indent depth s
  | _, [] => rfl
  | depth, i :: is => by
    rw [Stylesheet.lines, List.map_append, FlatItem.stripRight_lines indent depth i,
      Stylesheet.stripRight_lines indent depth is]

end

theorem Text.mem_of_mem_indentation {c : Char} {indent : Text} {depth : Nat}
    (h : c ∈ indentation indent depth) : c ∈ indent := by
  obtain ⟨l, hl, hc⟩ := List.mem_flatten.1 h
  rwa [List.eq_of_mem_replicate hl] at hc

/-- Style sheets that are printed alike, whatever the indent. -/
def Stylesheet.SameText (s t : Stylesheet) : Prop :=
  ∀ indent depth, Stylesheet.lines indent depth s = Stylesheet.lines indent depth t

theorem Stylesheet.SameText.append {s s' t t' : Stylesheet} (h : SameText s s')
    (h' : SameText t t') : SameText (s ++ t) (s' ++ t') := by
  intro indent depth
  rw [lines_append, lines_append, h, h']

theorem Stylesheet.SameText.print {s t : Stylesheet} (h : SameText s t) (indent : Text) :
    print indent s = print indent t := by
  rw [Stylesheet.print, Stylesheet.print, h]

/-- Declarations that stand by themselves. -/
def FlatItem.bare : List (Text × Text) → Stylesheet
  | [] => []
  | d :: ds => [.rule [] (d :: ds)]

theorem FlatItem.lines_bare (indent : Text) (depth : Nat) (ds : List (Text × Text)) :
    Stylesheet.lines indent depth (bare ds) =
      ds.map (declarationLine (Text.indentation indent depth)) := by
  cases ds <;> simp [bare, Stylesheet.lines, FlatItem.lines]

/-- Declarations that stand by themselves may be taken together. -/
theorem FlatItem.sameText_bare (ds : List (Text × Text)) :
    Stylesheet.SameText (bare ds) (ds.map fun d => .rule [] [d]) := by
  intro indent depth
  rw [lines_bare]
  induction ds with
  | nil => rfl
  | cons d ds ih => simp [Stylesheet.lines, FlatItem.lines, ih]

/-! ### What is read back -/

theorem Sheet.flattenIn_append {scope : Scope} {context : List Resolved} {inScope : Bool}
    {s t : Sheet} {out out' : Stylesheet} (h : Sheet.flattenIn scope context inScope s = .ok out)
    (h' : Sheet.flattenIn scope context inScope t = .ok out') :
    Sheet.flattenIn scope context inScope (s ++ t) = .ok (out ++ out') := by
  induction s generalizing out with
  | nil =>
    cases h
    exact h'
  | cons c s ih =>
    obtain ⟨first, others, hc, hs, rfl⟩ := Sheet.flattenIn_cons_eq_ok.1 h
    rw [List.append_assoc]
    exact Sheet.flattenIn_cons_eq_ok.2 ⟨first, _, hc, ih hs, rfl⟩

theorem Declaration.filter_of_settled {ds : List Declaration} (h : ∀ d ∈ ds, d.Settled) :
    ds.filter (!·.isDangling) = ds := by
  rw [List.filter_eq_self]
  intro d hd
  simp [(h d hd).1]

theorem Item.flatten_bareRule {inScope : Bool} {ds : List Declaration}
    {texts : List (Text × Text)} (hds : ∀ d ∈ ds, d.Settled)
    (htexts : ds.mapM Declaration.resolve = .ok texts) (hbare : ds ≠ [] → inScope = false) :
    Sheet.flattenIn ⟨none⟩ [] inScope (bareRule ds) = .ok (FlatItem.bare texts) := by
  cases ds with
  | nil =>
    cases htexts
    rfl
  | cons d ds =>
    cases hbare nofun
    obtain ⟨t, ts, -, -, rfl⟩ := List.forall₂_cons_left_iff.1 (mapM_eq_ok.1 htexts)
    refine Sheet.flattenIn_cons_eq_ok.2 ⟨[.rule [] (t :: ts)], [], ?_, rfl, rfl⟩
    refine Content.flatten_rule_eq_ok.2
      ⟨[], t :: ts, [.rule [] (t :: ts)], [], rfl, ?_, rfl, rfl, rfl⟩
    rw [Declaration.filter_of_settled hds, htexts]

namespace Sheet

/-- Items that flatten, one by one, to the parts of a style sheet; declarations come only out of
scope. -/
inductive Restores (inScope : Bool) : Stylesheet → List Item → Prop
  | nil : Restores inScope [] []
  | declaration {d : Declaration} {texts : Text × Text} {s : Stylesheet} {items : List Item}
      (bare : inScope = false) (settled : d.Settled) (resolve : d.resolve = .ok texts)
      (rest : Restores inScope s items) :
      Restores inScope (.rule [] [texts] :: s) (.declaration d :: items)
  | content {c : Content} {out s : Stylesheet} {items : List Item} (settled : c.Settled)
      (flatten : c.flatten ⟨none⟩ [] inScope = .ok out) (rest : Restores inScope s items) :
      Restores inScope (out ++ s) (.content c :: items)

namespace Restores

variable {inScope : Bool} {s t : Stylesheet} {items items' : List Item}

theorem append (h : Restores inScope s items) (h' : Restores inScope t items') :
    Restores inScope (s ++ t) (items ++ items') := by
  induction h with
  | nil => exact h'
  | declaration bare settled resolve _ ih => exact .declaration bare settled resolve ih
  | content settled flatten _ ih =>
    rw [List.append_assoc]
    exact .content settled flatten ih

theorem settled (h : Restores inScope s items) : Sheet.Settled (Item.contents [] items) := by
  refine Item.all_contents (List.forall_mem_nil _) (List.forall_mem_nil _) ?_
  induction h with
  | nil => exact List.forall_mem_nil _
  | declaration _ settled _ _ ih => exact List.forall_mem_cons.2 ⟨settled, ih⟩
  | content settled _ _ ih => exact List.forall_mem_cons.2 ⟨settled, ih⟩

/-- The contents made of the items are flattened to the same lines. `run` is what stands in front of
them by itself. -/
theorem exists_flatten (h : Restores inScope s items) {run : List Declaration}
    {texts : List (Text × Text)} (hrun : ∀ d ∈ run, d.Settled)
    (htexts : run.reverse.mapM Declaration.resolve = .ok texts)
    (hbare : run ≠ [] → inScope = false) :
    ∃ out, Sheet.flattenIn ⟨none⟩ [] inScope (Item.contents run items) = .ok out ∧
      Stylesheet.SameText out (FlatItem.bare texts ++ s) := by
  have hreverse : ∀ {run : List Declaration}, (∀ d ∈ run, d.Settled) →
      ∀ d ∈ run.reverse, d.Settled := fun hrun d hd => hrun d (List.mem_reverse.1 hd)
  induction h generalizing run texts with
  | nil =>
    refine ⟨FlatItem.bare texts, ?_, by rw [List.append_nil]; exact fun _ _ => rfl⟩
    exact Item.flatten_bareRule (hreverse hrun) htexts (by simpa using hbare)
  | @declaration d t s items bare settled resolve _ ih =>
    have hmore : (d :: run).reverse.mapM Declaration.resolve = .ok (texts ++ [t]) := by
      rw [List.reverse_cons]
      exact mapM_append_eq_ok htexts (mapM_eq_ok.2 (.cons resolve .nil))
    obtain ⟨out, hout, hsame⟩ := ih (List.forall_mem_cons.2 ⟨settled, hrun⟩) hmore fun _ => bare
    refine ⟨out, hout, fun indent depth => ?_⟩
    rw [hsame, Stylesheet.lines_append, Stylesheet.lines_append, FlatItem.lines_bare,
      FlatItem.lines_bare]
    simp [Stylesheet.lines, FlatItem.lines]
  | @content c out s items settled flatten _ ih =>
    obtain ⟨later, hlater, hsame⟩ := ih (List.forall_mem_nil _) rfl (absurd rfl)
    have hfront := Item.flatten_bareRule (hreverse hrun) htexts (by simpa using hbare)
    have hcontents : Sheet.flattenIn ⟨none⟩ [] inScope (c :: Item.contents [] items) =
        .ok (out ++ later) := Sheet.flattenIn_cons_eq_ok.2 ⟨out, later, flatten, hlater, rfl⟩
    refine ⟨_, Sheet.flattenIn_append hfront hcontents, ?_⟩
    exact .append (fun _ _ => rfl) (.append (fun _ _ => rfl) hsame)

end Restores

end Sheet

/-! ### Rules and at-rules -/

/-- Selectors are flattened to what they write. -/
theorem Fragment.Write.text_substitute {nesting : Bool} {x : Text} {s : Selector}
    (h : Write nesting x s.fragments) (root : Text) {parent : Resolved}
    (hparent : nesting = true → parent = [.literal ['&']]) :
    Resolved.text root (s.substitute parent) = .ok x := by
  have hparts : s.substitute parent = s.fragments.map (·.part) := by
    cases nesting with
    | true =>
      rw [hparent rfl]
      exact Selector.substitute_marker s.fragments
    | false =>
      exact Selector.substitute_eq_parts (by simpa [Selector.hasMarker] using h.unmarked rfl) parent
  have hplain : Resolved.IsPlain (s.fragments.map (·.part)) := by
    intro p hp
    obtain ⟨f, hf, heq⟩ := List.mem_map.1 hp
    cases f with
    | placeholder q => exact absurd rfl (h.plain _ hf q)
    | _ => cases heq
  rw [hparts, Resolved.text_eq_write hplain, Resolved.write_parts, h.render]

theorem Selector.exists_resolved {inScope : Bool} {selectors : List Selector} {xs : List Text}
    (h : List.Forall₂ (fun s x => Fragment.Write (!inScope) x s.fragments) selectors xs)
    (hne : xs ≠ []) :
    ∃ resolved, resolveAll ⟨none⟩ [] inScope selectors = .ok resolved ∧
      resolved.mapM (Resolved.text (Scope.root ⟨none⟩)) = .ok xs := by
  have hselectors : selectors.isEmpty = false := by
    cases h with
    | nil => exact absurd rfl hne
    | cons _ _ => rfl
  have hqualify : selectors.mapM (qualify ⟨none⟩) = .ok (selectors.map (·.substitute [.root])) := by
    rw [mapM_eq_ok, List.forall₂_map_right_iff, List.forall₂_same]
    exact fun s _ => rfl
  cases inScope with
  | true =>
    refine ⟨selectors.map (·.substitute [.root]), ?_, ?_⟩
    · simpa [resolveAll, hselectors] using hqualify
    · rw [mapM_eq_ok, List.forall₂_map_left_iff]
      exact h.imp fun s x hx => hx.text_substitute _ nofun
  | false =>
    refine ⟨selectors.map verbatim, ?_, ?_⟩
    · simp [resolveAll, hselectors]
    · rw [mapM_eq_ok, List.forall₂_map_left_iff]
      exact h.imp fun s x hx => hx.text_substitute _ fun _ => rfl

theorem Content.flatten_written {inScope : Bool} {selectors : List Selector} {xs : List Text}
    {ds : List Declaration} {texts : List (Text × Text)}
    (h : List.Forall₂ (fun s x => Fragment.Write (!inScope) x s.fragments) selectors xs)
    (hxs : xs ≠ []) (hds : ∀ d ∈ ds, d.Settled)
    (htexts : ds.mapM Declaration.resolve = .ok texts) (hne : texts ≠ [])
    (location : Option Location) :
    (Content.rule selectors ds [] location).flatten ⟨none⟩ [] inScope = .ok [.rule xs texts] := by
  obtain ⟨resolved, hresolved, hwritten⟩ := Selector.exists_resolved h hxs
  refine Content.flatten_rule_eq_ok.2 ⟨resolved, texts, [.rule xs texts], [], hresolved, ?_, ?_, rfl,
    rfl⟩
  · rw [Declaration.filter_of_settled hds, htexts]
  · exact FlatItem.ofRule_eq_ok.2 (.inr ⟨hne, xs, hwritten, rfl⟩)

/-- An at-rule that is flattened to something, or whose kind is kept empty, is restored if its body
is. -/
theorem Content.flatten_restored {inScope : Bool} {head : AtRule} {x : Text} {s : Stylesheet}
    {items : List Item} (h : Sheet.Restores (inScope && head.kind.isScoped) s items)
    (hcondition : Fragment.resolveAll head.condition = .ok x)
    (hkept : head.kind.isScoped = true → ∃ indent, Stylesheet.lines indent 0 s ≠ []) :
    ∃ out, (Content.atRule head (Item.contents [] items)).flatten ⟨none⟩ [] inScope =
        .ok [.atRule (AtRule.preludeOf head.name x) out] ∧ Stylesheet.SameText out s := by
  obtain ⟨out, hout, hsame⟩ := h.exists_flatten (List.forall_mem_nil _) rfl (absurd rfl)
  refine ⟨out, Content.flatten_atRule_eq_ok.2 ⟨out, by simpa using hout, ?_⟩, hsame⟩
  refine FlatItem.ofAtRule_eq_ok.2 (.inr ⟨?_, x, hcondition, rfl⟩)
  rintro ⟨rfl, hscoped⟩
  obtain ⟨indent, hlines⟩ := hkept hscoped
  exact hlines (hsame indent 0).symm

end ScopedCss
