/-
Filling in and flattening do not look at places. A sheet moved to one place is filled in as before,
moved to that place (`Sheet.expand_movedTo`), and a sheet without placeholders is flattened alike
wherever it is (`Sheet.flattenIn_movedTo`); filling in values leaves such a sheet as it is
(`Sheet.expand_of_filled`).
-/
import ScopedCss.Proofs.Sheet.Relocation
import ScopedCss.Proofs.Sheet.Standing
import ScopedCss.Proofs.Sheet.WellFormed

namespace ScopedCss

/-! ### Filling in -/

namespace Fragment

theorem merge_of_merged {fs : List Fragment} (h : Merged fs) : merge fs = fs := by
  induction fs with
  | nil => rfl
  | cons f fs ih =>
    have hfs : Merged fs := ⟨(List.forall_mem_cons.1 h.nonempty).2, h.apart.tail⟩
    cases f with
    | literal a =>
      rw [merge, ih hfs]
      cases fs with
      | nil => rfl
      | cons g gs =>
        cases g with
        | literal b => exact absurd (List.isChain_cons_cons.1 h.apart).1 (by simp [isLiteral])
        | _ => rfl
    | placeholder p =>
      rw [merge, ih hfs]
      rintro _ ⟨⟩
    | marker =>
      rw [merge, ih hfs]
      rintro _ ⟨⟩
    | combinator c =>
      rw [merge, ih hfs]
      rintro _ ⟨⟩

theorem IsPlain.expand {f : Fragment} (h : f.IsPlain) (vs : Values) : f.expand vs = .ok f := by
  cases f with
  | placeholder p => exact absurd rfl (h p)
  | _ => rfl

theorem mapM_expand {fs : List Fragment} (h : ∀ f ∈ fs, f.IsPlain) (vs : Values) :
    fs.mapM (Fragment.expand vs) = .ok fs := by
  rw [mapM_eq_ok, List.forall₂_same]
  exact fun f hf => (h f hf).expand vs

theorem expandAll_of_plain {fs : List Fragment} (hmerged : Merged fs) (h : ∀ f ∈ fs, f.IsPlain)
    (vs : Values) : expandAll vs fs = .ok fs := by
  rw [expandAll, mapM_expand h, map_ok, merge_of_merged hmerged]

end Fragment

theorem Declaration.expand_of_filled {d : Declaration} (hw : d.WellFormed) (h : d.Filled)
    (vs : Values) : d.expand vs = .ok d := by
  unfold Declaration.expand
  split
  · rfl
  · rename_i hsound
    obtain ⟨hkey, hvalue⟩ := h (by simpa using hsound)
    rw [hkey.expand, Fragment.expandAll_of_plain hw.value hvalue]
    rfl

section Filled

variable (vs : Values)

mutual

theorem Content.expand_of_filled : ∀ {c : Content},
    c.All (∀ s ∈ ·, s.WellFormed) Declaration.WellFormed
      (fun head => Fragment.Merged head.condition) → c.Filled → c.expand vs = .ok c
  | .rule selectors declarations nested location, ⟨_, hdeclarations, hnested⟩,
      ⟨hplain, hfilled, hbelow⟩ => by
    have hs : selectors.mapM (Selector.expand vs) = .ok selectors := by
      rw [mapM_eq_ok, List.forall₂_same]
      intro s hs
      rw [Selector.expand, Fragment.mapM_expand (hplain s hs)]
      rfl
    have hd : declarations.mapM (Declaration.expand vs) = .ok declarations := by
      rw [mapM_eq_ok, List.forall₂_same]
      exact fun d hd => Declaration.expand_of_filled (hdeclarations d hd) (hfilled d hd) vs
    rw [Content.expand, hs, hd, Sheet.expand_of_filled hnested hbelow]
    rfl
  | .atRule head body, ⟨hmerged, hbody⟩, ⟨hplain, hbelow⟩ => by
    rw [Content.expand, AtRule.expand, Fragment.expandAll_of_plain hmerged hplain,
      Sheet.expand_of_filled hbody hbelow]
    rfl

/-- Where there is no placeholder nothing is filled in. -/
theorem Sheet.expand_of_filled : ∀ {s : Sheet},
    Sheet.All (∀ s ∈ ·, s.WellFormed) Declaration.WellFormed
      (fun head => Fragment.Merged head.condition) s → Sheet.Filled s → Sheet.expand vs s = .ok s
  | [], _, _ => rfl
  | _ :: _, ⟨hc, hcs⟩, ⟨hfilled, hbelow⟩ => by
    rw [Sheet.expand, Content.expand_of_filled hc hfilled, Sheet.expand_of_filled hcs hbelow]
    rfl

end

end Filled

/-! ### Moving -/

section FillingMoved

variable (place : Location) (vs : Values)

theorem Placeholder.position_movedTo (p : Placeholder) :
    position { p with location := p.location.map fun _ => place } = moved place id p.position := by
  unfold position
  rcases Text.numeral? p.name with _ | _ | _ <;> rfl

theorem Values.fill_movedTo (p : Placeholder) :
    vs.fill { p with location := p.location.map fun _ => place } = moved place id (vs.fill p) := by
  have hlookup : vs.lookup { p with location := p.location.map fun _ => place } =
      moved place id (vs.lookup p) := by
    cases vs with
    | positional values =>
      simp only [lookup, Placeholder.position_movedTo]
      refine bind_moved place (fun _ => ?_) _
      rfl
    | none => rfl
    | named entries => rfl
    | string text => rfl
  unfold fill
  rw [hlookup]
  rcases vs.lookup p with e | _ | v
  · rfl
  · rfl
  · simp [Error.movedTo]

theorem Fragment.expand_movedTo (f : Fragment) :
    (f.movedTo place).expand vs = moved place (·.movedTo place) (f.expand vs) := by
  cases f with
  | placeholder p => simp [Fragment.movedTo, Fragment.expand, Values.fill_movedTo]
  | _ => rfl

theorem Fragment.expandAll_movedTo (fs : List Fragment) :
    Fragment.expandAll vs (fs.map (·.movedTo place)) =
      moved place (List.map (·.movedTo place)) (Fragment.expandAll vs fs) := by
  rw [expandAll, expandAll, mapM_moved place (Fragment.expand_movedTo place vs), map_moved,
    moved_map]
  simp only [merge_movedTo]

theorem Selector.expand_movedTo (s : Selector) :
    (s.movedTo place).expand vs = moved place (·.movedTo place) (s.expand vs) := by
  simp only [expand, movedTo, mapM_moved place (Fragment.expand_movedTo place vs), map_moved,
    moved_map]

theorem Declaration.expand_movedTo (d : Declaration) :
    (d.movedTo place).expand vs = moved place (·.movedTo place) (d.expand vs) := by
  unfold expand
  rw [isDangling_movedTo]
  split
  · rfl
  · simp only [movedTo, Fragment.expand_movedTo, Fragment.expandAll_movedTo]
    refine bind_moved place (fun key => ?_) _
    refine bind_moved place (fun value => ?_) _
    rfl

theorem AtRule.expand_movedTo (a : AtRule) :
    (a.movedTo place).expand vs = moved place (·.movedTo place) (a.expand vs) := by
  simp only [expand, movedTo, Fragment.expandAll_movedTo]
  refine bind_moved place (fun condition => ?_) _
  rfl

mutual

theorem Content.expand_movedTo : ∀ c : Content,
    (c.movedTo place).expand vs = moved place (·.movedTo place) (c.expand vs)
  | .rule selectors declarations nested location => by
    simp only [Content.movedTo, Content.expand, Sheet.expand_movedTo nested,
      mapM_moved place (Selector.expand_movedTo place vs),
      mapM_moved place (Declaration.expand_movedTo place vs)]
    refine bind_moved place (fun selectors => ?_) _
    refine bind_moved place (fun declarations => ?_) _
    refine bind_moved place (fun nested => ?_) _
    rfl
  | .atRule head body => by
    simp only [Content.movedTo, Content.expand, AtRule.expand_movedTo, Sheet.expand_movedTo body]
    refine bind_moved place (fun head => ?_) _
    refine bind_moved place (fun body => ?_) _
    rfl

/-- Filling in a sheet does not look at places. -/
theorem Sheet.expand_movedTo : ∀ s : Sheet,
    Sheet.expand vs (s.movedTo place) = moved place (Sheet.movedTo place) (Sheet.expand vs s)
  | [] => rfl
  | c :: cs => by
    simp only [Sheet.movedTo, Sheet.expand, Content.expand_movedTo c, Sheet.expand_movedTo cs]
    refine bind_moved place (fun c => ?_) _
    refine bind_moved place (fun cs => ?_) _
    rfl

end

end FillingMoved

section Moving

variable {place : Location}

theorem Fragment.isPlain_movedTo {f : Fragment} (h : (f.movedTo place).IsPlain) : f.IsPlain := by
  cases f with
  | placeholder p => exact absurd rfl (h _)
  | _ => exact nofun

theorem Fragment.map_movedTo {fs : List Fragment} (h : ∀ f ∈ fs, f.IsPlain) :
    fs.map (·.movedTo place) = fs := by
  rw [List.map_congr_left fun f hf => movedTo_of_isPlain (h f hf) place]
  exact List.map_id fs

theorem Declaration.resolve_movedTo {d : Declaration} (hsound : d.isDangling = false)
    (h : d.Filled) : (d.movedTo place).resolve = d.resolve := by
  obtain ⟨hkey, hvalue⟩ := h hsound
  simp only [resolve, movedTo, Fragment.movedTo_of_isPlain hkey, Fragment.map_movedTo hvalue]

theorem Declaration.mapM_resolve_movedTo {ds : List Declaration} (h : ∀ d ∈ ds, d.Filled) :
    ((ds.map (·.movedTo place)).filter (!·.isDangling)).mapM resolve =
      (ds.filter (!·.isDangling)).mapM resolve := by
  induction ds with
  | nil => rfl
  | cons d ds ih =>
    obtain ⟨hd, hds⟩ := List.forall_mem_cons.1 h
    cases hsound : d.isDangling with
    | true =>
      have hmoved : (d.movedTo place).isDangling = true := by rw [isDangling_movedTo, hsound]
      simpa [hsound, hmoved] using ih hds
    | false =>
      have hmoved : (d.movedTo place).isDangling = false := by rw [isDangling_movedTo, hsound]
      simp [hsound, hmoved, List.mapM_cons, resolve_movedTo hsound hd, ih hds]

mutual

theorem Content.flatten_movedTo {scope : Scope} : ∀ {context : List Resolved} {inScope : Bool}
    {c : Content}, c.Filled →
      (c.movedTo place).flatten scope context inScope = c.flatten scope context inScope
  | context, inScope, .rule selectors declarations nested location, ⟨hplain, hfilled, hbelow⟩ => by
    have hselectors : selectors.map (·.movedTo place) = selectors := by
      rw [List.map_congr_left (g := id) fun s hs => ?_]
      · exact List.map_id _
      · exact congrArg Selector.mk (Fragment.map_movedTo (hplain s hs))
    simp only [Content.movedTo, Content.flatten, hselectors,
      Declaration.mapM_resolve_movedTo hfilled, Sheet.flattenIn_movedTo hbelow]
  | context, inScope, .atRule head body, ⟨hplain, hbelow⟩ => by
    simp only [Content.movedTo, Content.flatten, Sheet.flattenIn_movedTo hbelow, AtRule.movedTo,
      FlatItem.ofAtRule, Fragment.map_movedTo hplain]

/-- Flattening a sheet without placeholders does not look at places. -/
theorem Sheet.flattenIn_movedTo {scope : Scope} : ∀ {context : List Resolved} {inScope : Bool}
    {s : Sheet}, Sheet.Filled s →
      Sheet.flattenIn scope context inScope (s.movedTo place) =
        Sheet.flattenIn scope context inScope s
  | _, _, [], _ => rfl
  | _, _, _ :: _, ⟨hfilled, hbelow⟩ => by
    simp only [Sheet.movedTo, Sheet.flattenIn, Content.flatten_movedTo hfilled,
      Sheet.flattenIn_movedTo hbelow]

end

end Moving

/-! ### Settled sheets -/

/-- A declaration that neither dangles nor has a placeholder. -/
def Declaration.Settled (d : Declaration) : Prop :=
  d.isDangling = false ∧ d.key.IsPlain ∧ ∀ f ∈ d.value, f.IsPlain

def Content.Settled (c : Content) : Prop :=
  c.All (∀ s ∈ ·, s.IsPlain) Declaration.Settled (fun head => ∀ f ∈ head.condition, f.IsPlain)

/-- Nothing dangles and nothing has a placeholder. -/
def Sheet.Settled (s : Sheet) : Prop :=
  Sheet.All (∀ s ∈ ·, s.IsPlain) Declaration.Settled (fun head => ∀ f ∈ head.condition, f.IsPlain) s

section Settled

variable {place : Location}

mutual

theorem Content.settled_of_movedTo : ∀ {c : Content}, (c.movedTo place).Settled → c.Settled
  | .rule selectors declarations nested location, ⟨hselectors, hdeclarations, hnested⟩ => by
    refine ⟨fun s hs f hf => ?_, fun d hd => ?_, Sheet.settled_of_movedTo hnested⟩
    · have hmoved := hselectors _ (List.mem_map_of_mem hs)
      exact Fragment.isPlain_movedTo (hmoved _ (List.mem_map_of_mem hf))
    · obtain ⟨hsound, hkey, hvalue⟩ := hdeclarations _ (List.mem_map_of_mem hd)
      exact ⟨by rwa [Declaration.isDangling_movedTo] at hsound, Fragment.isPlain_movedTo hkey,
        fun f hf => Fragment.isPlain_movedTo (hvalue _ (List.mem_map_of_mem hf))⟩
  | .atRule head body, ⟨hhead, hbody⟩ =>
    ⟨fun f hf => Fragment.isPlain_movedTo (hhead _ (List.mem_map_of_mem hf)),
      Sheet.settled_of_movedTo hbody⟩

theorem Sheet.settled_of_movedTo : ∀ {s : Sheet},
    Sheet.Settled (s.movedTo place) → Sheet.Settled s
  | [], _ => trivial
  | _ :: _, ⟨hc, hcs⟩ => ⟨Content.settled_of_movedTo hc, Sheet.settled_of_movedTo hcs⟩

end

mutual

theorem Content.filled_of_settled : ∀ {c : Content}, c.Settled → c.Filled ∧ c.dangling = []
  | .rule selectors declarations nested location, ⟨hselectors, hdeclarations, hnested⟩ => by
    obtain ⟨hfilled, hdangling⟩ := Sheet.filled_of_settled hnested
    refine ⟨⟨hselectors, fun d hd _ => (hdeclarations d hd).2, hfilled⟩, ?_⟩
    have hnone : declarations.filter (·.isDangling) = [] := by
      rw [List.filter_eq_nil_iff]
      intro d hd
      simp [(hdeclarations d hd).1]
    rw [Content.dangling, hnone, hdangling, List.append_nil]
  | .atRule head body, ⟨hhead, hbody⟩ =>
    ⟨⟨hhead, (Sheet.filled_of_settled hbody).1⟩, (Sheet.filled_of_settled hbody).2⟩

theorem Sheet.filled_of_settled : ∀ {s : Sheet},
    Sheet.Settled s → Sheet.Filled s ∧ Sheet.dangling s = []
  | [], _ => ⟨trivial, rfl⟩
  | _ :: _, ⟨hc, hcs⟩ => by
    obtain ⟨hfilled, hdangling⟩ := Content.filled_of_settled hc
    obtain ⟨hfilled', hdangling'⟩ := Sheet.filled_of_settled hcs
    exact ⟨⟨hfilled, hfilled'⟩, by rw [Sheet.dangling, hdangling, hdangling', List.append_nil]⟩

end

end Settled

end ScopedCss
