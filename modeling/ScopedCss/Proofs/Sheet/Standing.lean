/-
The selectors of a source without placeholders can be written down again
(`Selector.stands_of_ofTokens`), and nothing in what it is read as has to be filled in
(`Sheet.stands_of_run`).
-/
import ScopedCss.Proofs.Sheet.Placeholders
import ScopedCss.Proofs.Stylesheet.Spelling

namespace ScopedCss

open Token (through Writable)

/-- Tokens none of which is a placeholder. -/
def Token.Plain (ts : List Token) : Prop := ∀ t ∈ ts, t.kind ≠ .placeholder

instance (ts : List Token) : Decidable (Token.Plain ts) :=
  inferInstanceAs (Decidable (∀ t ∈ ts, t.kind ≠ .placeholder))

theorem Token.Plain.within {ts us : List Token} (h : Plain ts) (hus : us <:+: ts) : Plain us :=
  fun t ht => h t (hus.subset ht)

namespace Fragment

theorem movedTo_of_isPlain {f : Fragment} (h : f.IsPlain) (place : Location) :
    f.movedTo place = f := by
  cases f with
  | placeholder p => exact absurd rfl (h p)
  | literal x => rfl
  | marker => rfl
  | combinator c => rfl

theorem From.isPlain {ts : List Token} {f : Fragment} (h : f.From ts) (hplain : Token.Plain ts) :
    f.IsPlain := by
  intro p hp
  obtain ⟨t, ht, hkind, -⟩ := h p hp
  exact hplain t ht hkind

theorem isPlain_condition {sign name : Token} {ts : List Token}
    (h : Token.Plain (sign :: name :: ts)) :
    ∀ f ∈ ofTokens (ts.takeWhile Sheet.inCondition), f.IsPlain := by
  refine fun f hf => (from_ofTokens _ f hf).isPlain (h.within ?_)
  exact (List.takeWhile_prefix _).isInfix.trans
    ((List.suffix_cons _ _).trans (List.suffix_cons _ _)).isInfix

end Fragment

namespace Selector

/-- A selector of a source can be written down again. -/
theorem stands_of_ofTokens {place : Location} {ts : List Token} {s : Selector}
    (hw : Writable place (ts.map (·.movedTo place))) (hplain : Token.Plain ts)
    (hthrough : through 0 ts = some 0) (hne : s.fragments ≠ []) (h : ofTokens ts = .ok s) :
    s.Stands place := by
  obtain ⟨fs, hfs, rfl⟩ := map_eq_ok.1 h
  have hfsplain : ∀ f ∈ fs, f.IsPlain := fun f hf =>
    (from_fragmentsAfter hfs f hf).isPlain hplain
  have hmoved : fragmentsAfter none (ts.map (·.movedTo place)) = .ok fs := by
    have hmap : fs.map (·.movedTo place) = fs := by
      rw [List.map_congr_left fun f hf => Fragment.movedTo_of_isPlain (hfsplain f hf) place]
      exact List.map_id fs
    have hmove := fragmentsAfter_movedTo place none ts
    rwa [hfs, Option.map_none, moved, hmap] at hmove
  refine ⟨⟨hfsplain, fun x xs hxs => ?_⟩, head?_ne_descendant hfs, ?_⟩
  · exact exists_isStretch hw (by rw [Token.through_movedTo, hthrough]) hmoved hxs
  · obtain ⟨gs, g, rfl⟩ := (List.eq_nil_or_concat' fs).resolve_left hne
    exact ⟨g, by simp, isCombinator_getLast hfs g (by simp)⟩

/-- The groups of a rule's selector list are parts of it, with their brackets closed. -/
theorem Groups.infix_of_split {e : Error} {ending : Sheet.Ending} {ts : List Token} {g : Groups}
    (hopens : Sheet.startsRule ending 0 ts = .ok true) (hsplit : split e 0 false ts = .ok g) :
    ∀ group ∈ g.groups, group <:+: ts ∧ through 0 group = some 0 := by
  obtain ⟨first, others, hgroups, ⟨hfront, hfirst⟩, hothers⟩ := through_of_split hsplit hopens
  rw [hgroups]
  exact List.forall_mem_cons.2 ⟨⟨hfront.isInfix, hfirst⟩, hothers⟩

theorem Groups.stands_of_selectors {place : Location} {e : Error} {ending : Sheet.Ending}
    {ts : List Token} {g : Groups} {selectors : List Selector}
    (hw : ∀ group ∈ g.groups, Writable place (group.map (·.movedTo place)))
    (hplain : Token.Plain ts) (hopens : Sheet.startsRule ending 0 ts = .ok true)
    (hsplit : split e 0 false ts = .ok g) (h : g.selectors = .ok selectors) :
    ∀ s ∈ selectors, s.Stands place := by
  intro s hs
  have hne := (fragments_ne_nil hsplit h).2 s hs
  unfold Groups.selectors at h
  split at h
  · cases h
  · obtain ⟨group, hmem, hread⟩ := exists_of_mem_mapM h hs
    obtain ⟨hwithin, hthrough⟩ := infix_of_split hopens hsplit group hmem
    exact stands_of_ofTokens (hw group hmem) (hplain.within hwithin) hthrough hne hread

end Selector

namespace Declaration

theorem filled_dangle (key : Token) (body : List Token) (reason : Text) :
    (dangle key body reason).Filled := nofun

theorem From.filled {ts : List Token} {d : Declaration} (h : d.From ts)
    (hplain : Token.Plain ts) : d.Filled := fun hsound =>
  List.forall_mem_cons.1 fun f hf => (h hsound f hf).isPlain hplain

end Declaration

mutual

theorem Content.filled_of_pieces {R : List Selector → Prop}
    (hR : ∀ selectors, R selectors → ∀ s ∈ selectors, s.IsPlain) : ∀ {c : Content},
    c.All R Declaration.Filled (fun head => ∀ f ∈ head.condition, f.IsPlain) → c.Filled
  | .rule .., ⟨hselectors, hdeclarations, hnested⟩ =>
    ⟨hR _ hselectors, hdeclarations, Sheet.filled_of_pieces hR hnested⟩
  | .atRule .., ⟨hhead, hbody⟩ => ⟨hhead, Sheet.filled_of_pieces hR hbody⟩

theorem Sheet.filled_of_pieces {R : List Selector → Prop}
    (hR : ∀ selectors, R selectors → ∀ s ∈ selectors, s.IsPlain) : ∀ {s : Sheet},
    Sheet.All R Declaration.Filled (fun head => ∀ f ∈ head.condition, f.IsPlain) s → Sheet.Filled s
  | [], _ => trivial
  | _ :: _, ⟨hc, hcs⟩ => ⟨Content.filled_of_pieces hR hc, Sheet.filled_of_pieces hR hcs⟩

end

theorem Sheet.filled_of_all {place : Location} {s : Sheet}
    (h : Sheet.All (∀ s ∈ ·, s.Stands place) Declaration.Filled
      (fun head => ∀ f ∈ head.condition, f.IsPlain) s) : Sheet.Filled s :=
  Sheet.filled_of_pieces (fun _ hselectors s hs => (hselectors s hs).fragments.plain) h

namespace Sheet

/-- `P` is true of the tokens of every selector: of what leads up to a brace, divided at the commas. -/
def EachSelector (P : List Token → Prop) (ending : Ending) (tokens : List Token) : Prop :=
  ∀ ts, ts <:+ tokens → startsRule ending 0 ts = .ok true →
    ∀ g ∈ (Selector.Groups.split ending.inSelector 0 false ts).toOption, ∀ group ∈ g.groups, P group

instance (P : List Token → Prop) [DecidablePred P] (ending : Ending) (tokens : List Token) :
    Decidable (EachSelector P ending tokens) :=
  decidable_of_iff (∀ ts ∈ tokens.tails, startsRule ending 0 ts = .ok true →
    ∀ g ∈ (Selector.Groups.split ending.inSelector 0 false ts).toOption, ∀ group ∈ g.groups, P group)
    (by simp only [List.mem_tails, EachSelector])

/-- A source without placeholders is read as a sheet without placeholders, and its selectors can be
written down again if their tokens can. -/
theorem stands_of_run {place : Location} {ending : Ending} {tokens : List Token} {sheet : Sheet}
    (hw : EachSelector (fun group => Writable place (group.map (·.movedTo place))) ending tokens)
    (hplain : Token.Plain tokens) (h : (run ending { tokens := tokens }).result = .ok sheet) :
    Sheet.All (∀ s ∈ ·, s.Stands place) Declaration.Filled
      (fun head => ∀ f ∈ head.condition, f.IsPlain) sheet := by
  refine all_of_run (List.forall_mem_nil _) ?_ h
  refine ⟨fun hsuffix _ hopens hsplit hread => ?_, fun hsuffix _ => ?_,
    fun _ => Declaration.filled_dangle _ _ _, fun hsuffix _ _ _ => ?_⟩
  · have hgroups := hw _ hsuffix hopens _ (toOption_eq_some.2 hsplit)
    exact Selector.Groups.stands_of_selectors hgroups (hplain.within hsuffix.isInfix) hopens hsplit
      hread
  · exact (Declaration.from_readDeclaration _ _).filled (hplain.within hsuffix.isInfix)
  · exact Fragment.isPlain_condition (hplain.within hsuffix.isInfix)

/-- A source without placeholders is read as a sheet in which nothing has to be filled in. -/
theorem filled_of_run {ending : Ending} {tokens : List Token} {sheet : Sheet}
    (hplain : Token.Plain tokens) (h : (run ending { tokens := tokens }).result = .ok sheet) :
    Sheet.Filled sheet := by
  refine filled_of_pieces (fun _ hselectors => hselectors) (all_of_run (List.forall_mem_nil _) ?_ h)
  refine ⟨fun hsuffix _ _ hsplit hread s hs f hf => ?_, fun hsuffix _ => ?_,
    fun _ => Declaration.filled_dangle _ _ _, fun hsuffix _ _ _ => ?_⟩
  · exact (Selector.Groups.from_selectors hread s hs f hf).isPlain fun t ht =>
      hplain t (hsuffix.subset (Selector.Groups.flatten_subset hsplit ht))
  · exact (Declaration.from_readDeclaration _ _).filled (hplain.within hsuffix.isInfix)
  · exact Fragment.isPlain_condition (hplain.within hsuffix.isInfix)

end Sheet

end ScopedCss
