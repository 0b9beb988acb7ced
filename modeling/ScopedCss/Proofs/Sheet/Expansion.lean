/-
What filling in a sheet comes to, item by item. Values which fill in all that others do fill in
every sheet alike (`Sheet.expand_mono`); a sheet that is filled in has no placeholder left that
could be written out (`Sheet.filled_of_expand`) and is as well nested as before.
-/
import ScopedCss.Proofs.Sheet.Reading
import ScopedCss.Sheet.Expansion

namespace ScopedCss

section Inversion

variable {vs : Values}

theorem Declaration.expand_eq_ok {d d' : Declaration} :
    d.expand vs = .ok d' ↔
      d.isDangling = true ∧ d' = d ∨
        d.isDangling = false ∧ ∃ key value, d.key.expand vs = .ok key ∧
          Fragment.expandAll vs d.value = .ok value ∧
          d' = { d with key := key, value := value } := by
  unfold expand
  cases hd : d.isDangling with
  | true => simp [eq_comm]
  | false =>
    simp only [Bool.false_eq_true, ↓reduceIte, bind_eq_ok, pure_eq_ok, false_and, false_or,
      true_and]
    constructor
    · rintro ⟨key, hkey, value, hvalue, rfl⟩
      exact ⟨key, value, hkey, hvalue, rfl⟩
    · rintro ⟨key, value, hkey, hvalue, rfl⟩
      exact ⟨key, hkey, value, hvalue, rfl⟩

theorem AtRule.expand_eq_ok {a a' : AtRule} :
    a.expand vs = .ok a' ↔
      ∃ condition, Fragment.expandAll vs a.condition = .ok condition ∧
        a' = { a with condition := condition } := by
  simp only [expand, bind_eq_ok, pure_eq_ok]

theorem Content.expand_rule_eq_ok {selectors : List Selector} {declarations : List Declaration}
    {nested : Sheet} {location : Option Location} {c : Content} :
    (Content.rule selectors declarations nested location).expand vs = .ok c ↔
      ∃ selectors' declarations' nested', selectors.mapM (Selector.expand vs) = .ok selectors' ∧
        declarations.mapM (Declaration.expand vs) = .ok declarations' ∧
        Sheet.expand vs nested = .ok nested' ∧
        c = .rule selectors' declarations' nested' location := by
  simp only [Content.expand, bind_eq_ok, pure_eq_ok]
  constructor
  · rintro ⟨ss, hs, ds, hd, n, hn, rfl⟩
    exact ⟨ss, ds, n, hs, hd, hn, rfl⟩
  · rintro ⟨ss, ds, n, hs, hd, hn, rfl⟩
    exact ⟨ss, hs, ds, hd, n, hn, rfl⟩

theorem Content.expand_atRule_eq_ok {head : AtRule} {body : Sheet} {c : Content} :
    (Content.atRule head body).expand vs = .ok c ↔
      ∃ head' body', head.expand vs = .ok head' ∧ Sheet.expand vs body = .ok body' ∧
        c = .atRule head' body' := by
  simp only [Content.expand, bind_eq_ok, pure_eq_ok]
  constructor
  · rintro ⟨h, hh, b, hb, rfl⟩
    exact ⟨h, b, hh, hb, rfl⟩
  · rintro ⟨h, b, hh, hb, rfl⟩
    exact ⟨h, hh, b, hb, rfl⟩

theorem Sheet.expand_cons_eq_ok {c : Content} {cs s : Sheet} :
    Sheet.expand vs (c :: cs) = .ok s ↔
      ∃ c' cs', c.expand vs = .ok c' ∧ Sheet.expand vs cs = .ok cs' ∧ s = c' :: cs' := by
  simp only [Sheet.expand, bind_eq_ok, pure_eq_ok]
  constructor
  · rintro ⟨c', hc, cs', hcs, rfl⟩
    exact ⟨c', cs', hc, hcs, rfl⟩
  · rintro ⟨c', cs', hc, hcs, rfl⟩
    exact ⟨c', hc, cs', hcs, rfl⟩

end Inversion

/-- Whether `vs'` fills in every placeholder that `vs` does, with the same text. -/
def Values.Refines (vs' vs : Values) : Prop := ∀ p t, vs.fill p = .ok t → vs'.fill p = .ok t

section Refinement

variable {vs vs' : Values}

theorem Fragment.expand_mono (h : vs'.Refines vs) {f g : Fragment} (hf : f.expand vs = .ok g) :
    f.expand vs' = .ok g := by
  cases f with
  | placeholder p =>
    simp only [expand, map_eq_ok] at hf ⊢
    obtain ⟨t, ht, rfl⟩ := hf
    exact ⟨t, h p t ht, rfl⟩
  | literal t => exact hf
  | marker => exact hf
  | combinator c => exact hf

theorem Fragment.expandAll_mono (h : vs'.Refines vs) {fs gs : List Fragment}
    (hf : Fragment.expandAll vs fs = .ok gs) : Fragment.expandAll vs' fs = .ok gs := by
  simp only [expandAll, map_eq_ok] at hf ⊢
  obtain ⟨es, he, rfl⟩ := hf
  exact ⟨es, mapM_mono (fun _ _ => Fragment.expand_mono h) he, rfl⟩

theorem Selector.expand_mono (h : vs'.Refines vs) {s s' : Selector} (hs : s.expand vs = .ok s') :
    s.expand vs' = .ok s' := by
  simp only [expand, map_eq_ok] at hs ⊢
  obtain ⟨fs, hf, rfl⟩ := hs
  exact ⟨fs, mapM_mono (fun _ _ => Fragment.expand_mono h) hf, rfl⟩

theorem Declaration.expand_mono (h : vs'.Refines vs) {d d' : Declaration}
    (hd : d.expand vs = .ok d') : d.expand vs' = .ok d' := by
  rw [Declaration.expand_eq_ok] at hd ⊢
  rcases hd with hd | ⟨hd, key, value, hkey, hvalue, rfl⟩
  · exact .inl hd
  · exact .inr ⟨hd, key, value, Fragment.expand_mono h hkey, Fragment.expandAll_mono h hvalue, rfl⟩

mutual

theorem Content.expand_mono (h : vs'.Refines vs) :
    ∀ {c c' : Content}, c.expand vs = .ok c' → c.expand vs' = .ok c'
  | .rule .., c', hc => by
    rw [Content.expand_rule_eq_ok] at hc ⊢
    obtain ⟨ss, ds, n, hs, hd, hn, rfl⟩ := hc
    exact ⟨ss, ds, n, mapM_mono (fun _ _ => Selector.expand_mono h) hs,
      mapM_mono (fun _ _ => Declaration.expand_mono h) hd, Sheet.expand_mono h hn, rfl⟩
  | .atRule .., c', hc => by
    rw [Content.expand_atRule_eq_ok] at hc ⊢
    obtain ⟨a, b, ha, hb, rfl⟩ := hc
    rw [AtRule.expand_eq_ok] at ha
    obtain ⟨condition, hcond, rfl⟩ := ha
    exact ⟨_, b, AtRule.expand_eq_ok.2 ⟨condition, Fragment.expandAll_mono h hcond, rfl⟩,
      Sheet.expand_mono h hb, rfl⟩

/-- A sheet that `vs` fills in comes out the same under values that fill in as much. -/
theorem Sheet.expand_mono (h : vs'.Refines vs) :
    ∀ {s s' : Sheet}, Sheet.expand vs s = .ok s' → Sheet.expand vs' s = .ok s'
  | [], s', hs => hs
  | c :: cs, s', hs => by
    rw [Sheet.expand_cons_eq_ok] at hs ⊢
    obtain ⟨c', cs', hc, hcs, rfl⟩ := hs
    exact ⟨c', cs', Content.expand_mono h hc, Sheet.expand_mono h hcs, rfl⟩

end

end Refinement

/-! ### No placeholder is left -/

/-- A fragment that is not a placeholder. -/
def Fragment.IsPlain (f : Fragment) : Prop := ∀ p, f ≠ .placeholder p

theorem Fragment.isPlain_literal (x : Text) : (literal x).IsPlain := nofun

theorem Fragment.isPlain_marker : marker.IsPlain := nofun

theorem Fragment.isPlain_combinator (c : Combinator) : (combinator c).IsPlain := nofun

/-- A selector without placeholders. -/
def Selector.IsPlain (s : Selector) : Prop := ∀ f ∈ s.fragments, f.IsPlain

/-- Declarations that are written out have no placeholder. -/
def Declaration.Filled (d : Declaration) : Prop :=
  d.isDangling = false → d.key.IsPlain ∧ ∀ f ∈ d.value, f.IsPlain

mutual

def Content.Filled : Content → Prop
  | .rule selectors declarations nested _ =>
    (∀ s ∈ selectors, s.IsPlain) ∧ (∀ d ∈ declarations, d.Filled) ∧
      Sheet.Filled nested
  | .atRule head body => (∀ f ∈ head.condition, f.IsPlain) ∧ Sheet.Filled body

/-- Nothing that is written out has a placeholder. -/
def Sheet.Filled : Sheet → Prop
  | [] => True
  | c :: cs => c.Filled ∧ Sheet.Filled cs

end

section Filled

variable {vs : Values}

theorem Fragment.isPlain_of_expand {f g : Fragment} (h : f.expand vs = .ok g) : g.IsPlain := by
  intro p hp
  subst hp
  cases f with
  | placeholder q =>
    obtain ⟨t, -, ht⟩ := map_eq_ok.1 h
    cases ht
  | literal t => cases h
  | marker => cases h
  | combinator c => cases h

theorem Fragment.isPlain_of_mapM {fs gs : List Fragment}
    (h : fs.mapM (Fragment.expand vs) = .ok gs) : ∀ g ∈ gs, g.IsPlain := by
  intro g hg
  obtain ⟨f, -, hf⟩ := exists_of_mem_mapM h hg
  exact Fragment.isPlain_of_expand hf

/-- A fragment joins what is merged behind it if both are literals, and else stands in front. -/
theorem Fragment.merge_cons_cases (f : Fragment) (fs : List Fragment) :
    (∃ a b gs, f = .literal a ∧ merge fs = .literal b :: gs ∧
      merge (f :: fs) = .literal (a ++ b) :: gs) ∨ merge (f :: fs) = f :: merge fs := by
  cases f with
  | literal a =>
    cases hmerge : merge fs with
    | nil => exact .inr (by rw [merge, hmerge])
    | cons g gs =>
      cases g with
      | literal b => exact .inl ⟨a, b, gs, rfl, rfl, by rw [merge, hmerge]⟩
      | placeholder p => exact .inr (by rw [merge, hmerge])
      | marker => exact .inr (by rw [merge, hmerge])
      | combinator c => exact .inr (by rw [merge, hmerge])
  | placeholder p => exact .inr rfl
  | marker => exact .inr rfl
  | combinator c => exact .inr rfl

/-- Merging makes literals and leaves all else as it is. -/
theorem Fragment.mem_merge {f : Fragment} {fs : List Fragment} (h : f ∈ Fragment.merge fs) :
    (∃ t, f = .literal t) ∨ f ∈ fs := by
  induction fs with
  | nil => exact .inr h
  | cons g fs ih =>
    have hskip : f ∈ Fragment.merge fs → (∃ t, f = .literal t) ∨ f ∈ g :: fs := fun hmem =>
      (ih hmem).imp_right (List.mem_cons_of_mem g)
    rcases merge_cons_cases g fs with ⟨a, b, gs, rfl, hmerge, heq⟩ | heq
    · rw [heq] at h
      rcases List.mem_cons.1 h with rfl | hmem
      · exact .inl ⟨_, rfl⟩
      · exact hskip (hmerge ▸ List.mem_cons_of_mem _ hmem)
    · rw [heq] at h
      rcases List.mem_cons.1 h with rfl | hmem
      · exact .inr List.mem_cons_self
      · exact hskip hmem

theorem Fragment.isPlain_merge {fs : List Fragment} (h : ∀ f ∈ fs, f.IsPlain) :
    ∀ f ∈ Fragment.merge fs, f.IsPlain := by
  intro f hf
  rcases Fragment.mem_merge hf with ⟨t, rfl⟩ | hmem
  · exact nofun
  · exact h f hmem

theorem Fragment.isPlain_of_expandAll {fs gs : List Fragment}
    (h : Fragment.expandAll vs fs = .ok gs) : ∀ g ∈ gs, g.IsPlain := by
  obtain ⟨es, hes, rfl⟩ := map_eq_ok.1 h
  exact Fragment.isPlain_merge (Fragment.isPlain_of_mapM hes)

theorem Declaration.filled_of_expand {d d' : Declaration} (h : d.expand vs = .ok d') :
    d'.Filled := by
  rcases Declaration.expand_eq_ok.1 h with ⟨hd, rfl⟩ | ⟨-, key, value, hkey, hvalue, rfl⟩
  · intro hnot
    rw [hd] at hnot
    cases hnot
  · exact fun _ => ⟨Fragment.isPlain_of_expand hkey, Fragment.isPlain_of_expandAll hvalue⟩

mutual

theorem Content.filled_of_expand : ∀ {c c' : Content}, c.expand vs = .ok c' → c'.Filled
  | .rule .., c', h => by
    obtain ⟨ss, ds, n, hs, hd, hn, rfl⟩ := Content.expand_rule_eq_ok.1 h
    refine ⟨?_, ?_, Sheet.filled_of_expand hn⟩
    · intro s' hs'
      obtain ⟨s, -, hexpand⟩ := exists_of_mem_mapM hs hs'
      obtain ⟨fs, hfs, rfl⟩ := map_eq_ok.1 hexpand
      exact Fragment.isPlain_of_mapM hfs
    · intro d' hd'
      obtain ⟨d, -, hexpand⟩ := exists_of_mem_mapM hd hd'
      exact Declaration.filled_of_expand hexpand
  | .atRule .., c', h => by
    obtain ⟨a, b, ha, hb, rfl⟩ := Content.expand_atRule_eq_ok.1 h
    obtain ⟨condition, hcond, rfl⟩ := AtRule.expand_eq_ok.1 ha
    exact ⟨Fragment.isPlain_of_expandAll hcond, Sheet.filled_of_expand hb⟩

/-- A sheet that was filled in has no placeholder left. -/
theorem Sheet.filled_of_expand : ∀ {s s' : Sheet}, Sheet.expand vs s = .ok s' → Sheet.Filled s'
  | [], s', h => by
    cases h
    trivial
  | c :: cs, s', h => by
    obtain ⟨c', cs', hc, hcs, rfl⟩ := Sheet.expand_cons_eq_ok.1 h
    exact ⟨Content.filled_of_expand hc, Sheet.filled_of_expand hcs⟩

end

theorem Selector.fragments_ne_nil_of_expand {s s' : Selector} (h : s.expand vs = .ok s')
    (hs : s.fragments ≠ []) : s'.fragments ≠ [] := by
  obtain ⟨fs, hfs, rfl⟩ := map_eq_ok.1 h
  rintro rfl
  exact hs (List.forall₂_nil_right_iff.1 (mapM_eq_ok.1 hfs))

mutual

theorem Content.WellNested.expand : ∀ {c c' : Content}, c.WellNested → c.expand vs = .ok c' →
    c'.WellNested
  | .rule selectors declarations nested location, c', hc, h => by
    obtain ⟨ss, ds, n, hs, -, hn, rfl⟩ := Content.expand_rule_eq_ok.1 h
    obtain ⟨hfragments, hbare, hnested⟩ := hc
    refine ⟨?_, ?_, Sheet.WellNested.expand hnested hn⟩
    · intro s' hs'
      obtain ⟨s, hmem, hexpand⟩ := exists_of_mem_mapM hs hs'
      exact Selector.fragments_ne_nil_of_expand hexpand (hfragments s hmem)
    · rintro rfl
      rw [hbare (List.forall₂_nil_right_iff.1 (mapM_eq_ok.1 hs))] at hn
      cases hn
      rfl
  | .atRule head body, c', hc, h => by
    obtain ⟨a, b, -, hb, rfl⟩ := Content.expand_atRule_eq_ok.1 h
    exact Sheet.WellNested.expand hc hb

theorem Sheet.WellNested.expand : ∀ {s s' : Sheet}, Sheet.WellNested s →
    Sheet.expand vs s = .ok s' → Sheet.WellNested s'
  | [], s', _, h => by
    cases h
    trivial
  | c :: cs, s', hs, h => by
    obtain ⟨c', cs', hc, hcs, rfl⟩ := Sheet.expand_cons_eq_ok.1 h
    exact ⟨Content.WellNested.expand hs.1 hc, Sheet.WellNested.expand hs.2 hcs⟩

end

end Filled

end ScopedCss
