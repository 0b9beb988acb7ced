/-
Filling in is done once and touches nothing else: no placeholder is left, further values change
nothing, the sheet flattens under every scope, and its malformed declarations are those of the
source (`Sheet.expand_settles`). So a new style warns of just what a check of its source reports.
-/
import ScopedCss.CommandLine.Run
import ScopedCss.Proofs.Fingerprint.Values
import ScopedCss.Proofs.Registry.Run
import ScopedCss.Proofs.Sheet.Filling
import ScopedCss.Proofs.Stylesheet.Flatten

namespace ScopedCss

/-! ### Nothing is left to fill in -/

theorem Fragment.placeholders_of_isPlain {fs : List Fragment} (h : ∀ f ∈ fs, f.IsPlain) :
    placeholders fs = [] := by
  refine List.filterMap_eq_nil_iff.2 fun f hf => ?_
  cases f with
  | placeholder p => exact absurd rfl (h _ hf p)
  | literal t => rfl
  | marker => rfl
  | combinator c => rfl

theorem Declaration.placeholders_of_filled {d : Declaration} (h : d.Filled) :
    d.placeholders = [] := by
  unfold placeholders
  split
  · rfl
  · rename_i hsound
    obtain ⟨hkey, hvalue⟩ := h (Bool.eq_false_iff.2 hsound)
    exact Fragment.placeholders_of_isPlain (List.forall_mem_cons.2 ⟨hkey, hvalue⟩)

mutual

theorem Content.placeholders_of_filled : ∀ {c : Content}, c.Filled → c.placeholders = []
  | .rule selectors declarations nested location, h => by
    obtain ⟨hselectors, hdeclarations, hnested⟩ := h
    rw [Content.placeholders, Sheet.placeholders_of_filled hnested, List.append_nil,
      List.append_eq_nil_iff, List.flatMap_eq_nil_iff, List.flatMap_eq_nil_iff]
    exact ⟨fun s hs => Fragment.placeholders_of_isPlain (hselectors s hs),
      fun d hd => Declaration.placeholders_of_filled (hdeclarations d hd)⟩
  | .atRule head body, h => by
    rw [Content.placeholders, Fragment.placeholders_of_isPlain h.1,
      Sheet.placeholders_of_filled h.2, List.append_nil]

theorem Sheet.placeholders_of_filled : ∀ {s : Sheet}, Sheet.Filled s → Sheet.placeholders s = []
  | [], _ => rfl
  | c :: cs, h => by
    rw [Sheet.placeholders, Content.placeholders_of_filled h.1, Sheet.placeholders_of_filled h.2,
      List.append_nil]

end

/-! ### Filling in again -/

theorem Fragment.merge_cons_congr (f : Fragment) {fs gs : List Fragment}
    (h : merge fs = merge gs) : merge (f :: fs) = merge (f :: gs) := by
  cases f <;> simp only [merge, h]

theorem Fragment.merge_literal_append (a b : Text) (fs : List Fragment) :
    merge (.literal (a ++ b) :: fs) = merge (.literal a :: .literal b :: fs) := by
  cases hmerge : merge fs with
  | nil => simp only [merge, hmerge]
  | cons g gs => cases g <;> simp only [merge, hmerge, List.append_assoc]

theorem Fragment.merge_merge (fs : List Fragment) : merge (merge fs) = merge fs := by
  induction fs with
  | nil => rfl
  | cons f fs ih =>
    rcases merge_cons_cases f fs with ⟨a, b, gs, rfl, hmerge, heq⟩ | heq
    · rw [hmerge] at ih
      rw [heq, merge_literal_append, merge, ih]
    · rw [heq, merge_cons_congr f ih, heq]

section Again

variable (text text' : Placeholder → Text)

theorem Fragment.fillWith_fillWith (f : Fragment) :
    (f.fillWith text).fillWith text' = f.fillWith text := by
  cases f <;> rfl

theorem Fragment.fillWith_of_isPlain {f : Fragment} (h : f.IsPlain) : f.fillWith text = f := by
  cases f with
  | placeholder p => exact absurd rfl (h p)
  | literal t => rfl
  | marker => rfl
  | combinator c => rfl

theorem Fragment.isPlain_fillWith (f : Fragment) : (f.fillWith text).IsPlain := by
  cases f with
  | placeholder p => exact isPlain_literal _
  | literal t => exact isPlain_literal _
  | marker => exact isPlain_marker
  | combinator c => exact isPlain_combinator c

theorem Fragment.merge_fillWith_merge (fs : List Fragment) :
    merge ((merge (fs.map (fillWith text))).map (fillWith text')) =
      merge (fs.map (fillWith text)) := by
  have hplain : ∀ f ∈ merge (fs.map (fillWith text)), f.IsPlain := by
    refine isPlain_merge fun f hf => ?_
    obtain ⟨g, -, rfl⟩ := List.mem_map.1 hf
    exact isPlain_fillWith text g
  rw [List.map_congr_left fun f hf => fillWith_of_isPlain text' (hplain f hf), List.map_id',
    merge_merge]

theorem Selector.fillWith_fillWith (s : Selector) :
    (s.fillWith text).fillWith text' = s.fillWith text := by
  simp only [fillWith, List.map_map, Function.comp_def, Fragment.fillWith_fillWith]

theorem Declaration.fillWith_of_isDangling {d : Declaration} (h : d.isDangling = true) :
    d.fillWith text = d := if_pos h

theorem Declaration.fillWith_fillWith (d : Declaration) :
    (d.fillWith text).fillWith text' = d.fillWith text := by
  cases hd : d.isDangling with
  | true => rw [fillWith_of_isDangling text hd, fillWith_of_isDangling text' hd]
  | false =>
    have hsound : ∀ d' : Declaration, d'.isDangling = false → ¬ d'.isDangling = true :=
      fun d' h => Bool.eq_false_iff.1 h
    rw [fillWith, isDangling_fillWith, if_neg (hsound d hd)]
    simp only [fillWith, if_neg (hsound d hd), Fragment.fillWith_fillWith,
      Fragment.merge_fillWith_merge]

theorem AtRule.fillWith_fillWith (a : AtRule) :
    (a.fillWith text).fillWith text' = a.fillWith text := by
  simp only [fillWith, Fragment.merge_fillWith_merge]

mutual

theorem Content.fillWith_fillWith : ∀ c : Content,
    (c.fillWith text).fillWith text' = c.fillWith text
  | .rule selectors declarations nested location => by
    simp only [Content.fillWith, List.map_map, Function.comp_def, Selector.fillWith_fillWith,
      Declaration.fillWith_fillWith, Sheet.fillWith_fillWith nested]
  | .atRule head body => by
    rw [Content.fillWith, Content.fillWith, AtRule.fillWith_fillWith,
      Sheet.fillWith_fillWith body]

theorem Sheet.fillWith_fillWith : ∀ s : Sheet,
    Sheet.fillWith text' (Sheet.fillWith text s) = Sheet.fillWith text s
  | [] => rfl
  | c :: cs => by
    rw [Sheet.fillWith, Sheet.fillWith, Content.fillWith_fillWith c, Sheet.fillWith_fillWith cs]

end

/-! ### Malformed declarations stay -/

theorem Declaration.filter_isDangling_fillWith (ds : List Declaration) :
    (ds.map (Declaration.fillWith text)).filter (·.isDangling) = ds.filter (·.isDangling) := by
  induction ds with
  | nil => rfl
  | cons d ds ih =>
    rw [List.map_cons, List.filter_cons, List.filter_cons, isDangling_fillWith, ih]
    split
    · rename_i hd
      rw [fillWith_of_isDangling text hd]
    · rfl

mutual

theorem Content.dangling_fillWith : ∀ c : Content, (c.fillWith text).dangling = c.dangling
  | .rule selectors declarations nested location => by
    rw [Content.fillWith, Content.dangling, Content.dangling,
      Declaration.filter_isDangling_fillWith, Sheet.dangling_fillWith nested]
  | .atRule head body => Sheet.dangling_fillWith body

theorem Sheet.dangling_fillWith : ∀ s : Sheet,
    Sheet.dangling (Sheet.fillWith text s) = Sheet.dangling s
  | [] => rfl
  | c :: cs => by
    rw [Sheet.fillWith, Sheet.dangling, Sheet.dangling, Content.dangling_fillWith c,
      Sheet.dangling_fillWith cs]

end

end Again

section Settled

variable {source : Text} {vs : Values} {s s' : Sheet}

theorem Sheet.exists_fillWith (hexpand : Sheet.expand vs s = .ok s') :
    ∃ text, s' = Sheet.fillWith text s := by
  have htext : ∀ p ∈ Sheet.placeholders s, ∀ t, vs.fill p = .ok t →
      (vs.fill p).toOption.getD [] = t := by
    intro p _ t ht
    rw [ht]
    rfl
  rw [Sheet.visits_expand vs s htext] at hexpand
  obtain ⟨_, -, hs'⟩ := map_eq_ok.1 hexpand
  exact ⟨_, hs'⟩

theorem Sheet.expand_of_expand (hexpand : Sheet.expand vs s = .ok s') (vs' : Values) :
    Sheet.expand vs' s' = .ok s' := by
  have hnone := Sheet.placeholders_of_filled (Sheet.filled_of_expand hexpand)
  obtain ⟨text, hs'⟩ := Sheet.exists_fillWith hexpand
  have hagain : vs'.Visits text (Sheet.placeholders s') (Sheet.expand vs' s') _ :=
    Sheet.visits_expand vs' s'
  rw [hnone] at hagain
  rw [hagain (List.forall_mem_nil _), hs', Sheet.fillWith_fillWith]
  rfl

theorem Sheet.danglingInOrder_of_expand (hexpand : Sheet.expand vs s = .ok s') :
    Sheet.danglingInOrder s' = Sheet.danglingInOrder s := by
  obtain ⟨text, rfl⟩ := Sheet.exists_fillWith hexpand
  rw [danglingInOrder, danglingInOrder, dangling_fillWith]

theorem Sheet.exists_flatten_of_expand (hparse : Sheet.parse source = .ok s)
    (hexpand : Sheet.expand vs s = .ok s') (scope : Scope) :
    ∃ items, s'.flatten scope = .ok items :=
  Sheet.exists_flatten scope ((Sheet.wellNested_of_parse hparse).expand hexpand)
    (Sheet.filled_of_expand hexpand)

/-! ### What a new style warns of -/

/-- The lines that a check of the file at `path` prints if it finds `warnings`. -/
def CommandLine.report (path : Text) (warnings : List Diagnostic) : List Text :=
  if warnings = [] then ["OK: ".toList ++ baseName path ++ " is valid (0 diagnostics)".toList]
  else
    warnings.map (·.text) ++
      [[], "Summary: 0 error(s), ".toList ++ Text.ofNat warnings.length ++ " warning(s)".toList]

theorem CommandLine.stdout_runCheck (hparse : Sheet.parse source = .ok s)
    (echo : List Text → Text) (i : Invocation) (path : Text) :
    (runCheck echo i path source).stdout = echo (report path (Sheet.warnings s)) := by
  have hread : (Sheet.read source).result = .ok s := hparse
  simp only [runCheck, hread, report, List.isEmpty_iff]

theorem Style.exists_compile (hparse : Sheet.parse source = .ok s)
    (hexpand : Sheet.expand vs s = .ok s') (config : Config) (isGlobal : Bool) :
    ∃ style, (Style.compile config [] ⟨source, vs, isGlobal⟩).2 = .ok style ∧
      style.warnings = Sheet.warnings s' := by
  have hread : (Sheet.read source).result = .ok s := hparse
  simp only [Style.compile, Style.ofSheet, hread, Except.mapError, ok_bind, hexpand,
    List.foldlM_nil, pure_bind]
  obtain ⟨items, hitems⟩ := Sheet.exists_flatten_of_expand hparse hexpand _
  rw [hitems]
  exact ⟨_, rfl, rfl⟩

theorem Registry.exists_compile (hparse : Sheet.parse source = .ok s)
    (hexpand : Sheet.expand vs s = .ok s') {r : Registry} (htransforms : r.transforms = [])
    (hw : vs.areWritable = true) {isGlobal : Bool}
    (hnew : r.get? (Request.mk source vs isGlobal).fingerprint = none) (hs : Holdings)
    (owner : RegistryId) :
    ∃ h holding, (r.compile hs owner ⟨source, vs, isGlobal⟩).result = .ok h ∧
      (r.compile hs owner ⟨source, vs, isGlobal⟩).holdings[h]? = some holding ∧
      holding.style.warnings = Sheet.warnings s' := by
  obtain ⟨style, hstyle, hwarnings⟩ := Style.exists_compile hparse hexpand r.config isGlobal
  have hstored : ∀ h, r.get? (Request.mk source vs isGlobal).fingerprint = some h →
      ∃ holding, hs[h]? = some holding := by
    intro h hget
    rw [hnew] at hget
    cases hget
  rcases compile_cases owner _ hstored with
    ⟨e, log, ⟨err, hcheck, -⟩ | ⟨-, -, hfails⟩, -⟩ | ⟨-, ⟨h, holding, hget, -⟩ |
      ⟨style', log, -, hcompile, heq⟩⟩
  · rw [Values.check_eq_ok.2 hw] at hcheck
    cases hcheck
  · rw [htransforms, hstyle] at hfails
    cases hfails
  · rw [hnew] at hget
    cases hget
  · rw [htransforms, hstyle] at hcompile
    cases hcompile
    rw [heq]
    exact ⟨hs.fresh, _, rfl,
      Holdings.getElem?_setHolders_self _ (Holdings.getElem?_add_fresh hs style _), hwarnings⟩

/-- Filling in is complete and changes nothing else: in what comes out of it, no placeholder is left
to fill in, whatever the values; every scope flattens it; and its malformed declarations are those
of the source. So a newly compiled style warns of what a check of its source prints, however that is
put before the reader. -/
theorem Sheet.expand_settles (hparse : Sheet.parse source = .ok s)
    (hexpand : Sheet.expand vs s = .ok s') :
    Sheet.placeholders s' = [] ∧
    (∀ vs' : Values, Sheet.expand vs' s' = .ok s') ∧
    (∀ scope : Scope, ∃ items, s'.flatten scope = .ok items) ∧
    Sheet.danglingInOrder s' = Sheet.danglingInOrder s ∧
    ∀ (r : Registry) (hs : Holdings) (owner : RegistryId) (isGlobal : Bool),
      r.transforms = [] → vs.areWritable = true →
      r.get? (Request.mk source vs isGlobal).fingerprint = none →
      ∃ h holding, (r.compile hs owner ⟨source, vs, isGlobal⟩).result = .ok h ∧
        (r.compile hs owner ⟨source, vs, isGlobal⟩).holdings[h]? = some holding ∧
        holding.style.warnings = (Sheet.danglingInOrder s).map .ofDangling ∧
        ∀ echo i path, (CommandLine.runCheck echo i path source).stdout =
          echo (CommandLine.report path holding.style.warnings) := by
  have hdangling := Sheet.danglingInOrder_of_expand hexpand
  refine ⟨Sheet.placeholders_of_filled (Sheet.filled_of_expand hexpand),
    Sheet.expand_of_expand hexpand, Sheet.exists_flatten_of_expand hparse hexpand, hdangling, ?_⟩
  intro r hs owner isGlobal htransforms hw hnew
  obtain ⟨h, holding, hresult, hholding, hwarnings⟩ :=
    Registry.exists_compile hparse hexpand htransforms hw hnew hs owner
  rw [Sheet.warnings, hdangling] at hwarnings
  refine ⟨h, holding, hresult, hholding, hwarnings, fun echo i path => ?_⟩
  rw [CommandLine.stdout_runCheck hparse, hwarnings, Sheet.warnings]

end Settled

/-- Two malformed declarations, one of them with a placeholder in it, around a nested rule. -/
def warnedSource : Text :=
  "a \x7b x: $\x7bv\x7d$\x7bv\x7d; $\x7bw\x7d; b \x7b y: z \x7d 1 \x7d".toList

def warnedValues : Values := .named [(['v'], .string [])]

theorem expand_settles_warnedSource : ∃ s s', Sheet.parse warnedSource = .ok s ∧
    Sheet.expand warnedValues s = .ok s' ∧ Sheet.placeholders s' = [] ∧
    Sheet.expand .none s' = .ok s' ∧ Sheet.danglingInOrder s' = Sheet.danglingInOrder s ∧
    ∃ h holding,
      (Registry.compile {} [] 0 ⟨warnedSource, warnedValues, false⟩).result = .ok h ∧
      (Registry.compile {} [] 0 ⟨warnedSource, warnedValues, false⟩).holdings[h]? = some holding ∧
      holding.style.warnings.length = 2 ∧
      ∀ echo i path, (CommandLine.runCheck echo i path warnedSource).stdout =
        echo (CommandLine.report path holding.style.warnings) := by
  have h : (do
      let s ← Sheet.parse warnedSource
      let s' ← Sheet.expand warnedValues s
      return ((Sheet.placeholders s).length, (Sheet.dangling s).length)) =
        (.ok (2, 2) : Except Error _) := by decide +kernel
  obtain ⟨s, hparse, h⟩ := bind_eq_ok.1 h
  obtain ⟨s', hexpand, h⟩ := bind_eq_ok.1 h
  obtain ⟨-, hlength⟩ := Prod.mk.inj (pure_eq_ok.1 h)
  obtain ⟨hnone, hagain, -, hdangling, hcompile⟩ := Sheet.expand_settles hparse hexpand
  obtain ⟨h, holding, hresult, hholding, hwarnings, hcheck⟩ := hcompile {} [] 0 false rfl rfl rfl
  refine ⟨s, s', hparse, hexpand, hnone, hagain .none, hdangling, h, holding, hresult, hholding,
    ?_, hcheck⟩
  rw [hwarnings, List.length_map, Sheet.danglingInOrder, List.length_mergeSort, ← hlength]

end ScopedCss
