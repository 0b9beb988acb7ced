/-
When the selectors of a flattened sheet are complete: compounds with single combinators between
them and none at either end.

A selector that begins with a combinator goes behind what it is nested in, but one with a marker is
only filled in, and nothing is put in front of it. So a selector with both leaves a combinator in
front, and those nested in it keep it there or put a combinator of their own before it. `Completes`
says from the selectors alone which of this happens, one step of nesting keeps it
(`Completes.nest`), and nothing else makes a selector incomplete (`Sheet.completes_of_parse`).
-/
import Mathlib.Data.List.Chain
import ScopedCss.Proofs.Sheet.Standing
import ScopedCss.Proofs.Sheet.WellFormed
import ScopedCss.Proofs.Stylesheet.Legible
import ScopedCss.Proofs.Stylesheet.Listing

namespace ScopedCss

namespace Resolved

/-- Whether a selector begins with a combinator. -/
def isRelative (r : Resolved) : Bool := r.head?.any (·.isCombinator)

/-- A selector with a compound at its end. -/
def Ends (r : Resolved) : Prop := ∃ p ∈ r.getLast?, p.isCombinator = false

/-- Compounds with single combinators between them, and none at either end. -/
structure Complete (r : Resolved) : Prop where
  begins : r.isRelative = false
  ends : r.Ends
  alternates : r.Alternates

variable {r r' : Resolved}

theorem Ends.ne_nil (h : r.Ends) : r ≠ [] := by
  intro hnil
  obtain ⟨p, hp, -⟩ := h
  rw [hnil] at hp
  cases hp

theorem Ends.getLast? (h : r.Ends) : ∀ p ∈ r.getLast?, p.isCombinator = false := by
  intro p hp
  obtain ⟨q, hq, hcompound⟩ := h
  cases Option.mem_unique hp hq
  exact hcompound

theorem Ends.append (h : r'.Ends) (r : Resolved) : (r ++ r').Ends := by
  obtain ⟨p, hp, hcompound⟩ := h
  exact ⟨p, List.mem_getLast?_append_of_mem_getLast? hp, hcompound⟩

theorem isRelative_append (h : r ≠ []) (r' : Resolved) :
    isRelative (r ++ r') = r.isRelative := by
  rw [isRelative, List.head?_append_of_ne_nil r h, isRelative]

theorem alternates_append (h : r.Ends) (h' : r'.Alternates) :
    Alternates (r ++ r') ↔ r.Alternates := by
  refine ⟨fun hall => hall.left_of_append, fun hr => hr.append h' fun p hp _ _ => ?_⟩
  exact .inl (h.getLast? p hp)

end Resolved

/-! ### Selectors that leave a combinator in front -/

namespace Selector

/-- Whether a selector begins with a combinator that nothing is put in front of. -/
def staysRelative (s : Selector) : Bool := s.startsWithCombinator && s.hasMarker

/-- Whether what a selector resolves to begins like that which it is nested in. -/
def keepsFront (s : Selector) : Bool := !s.hasMarker || s.fragments.head? == some .marker

/-- No marker stands right behind a combinator. -/
def MarksApart (s : Selector) : Prop :=
  s.fragments.IsChain fun f g => f.isCombinator = false ∨ g ≠ .marker

instance (s : Selector) : Decidable s.MarksApart := inferInstanceAs (Decidable (List.IsChain _ _))

/-- Selectors, each nested in the one before, that come to one with a combinator in front: it stays
relative or is nested in one that does, and the front is kept from there on. -/
def Bare (c : List Selector) : Prop :=
  ∃ front s back, c = front ++ s :: back ∧ s.staysRelative = true ∧
    ∀ t ∈ back, t.keepsFront = true

/-- Selectors, each nested in the one before, that bring two combinators together. -/
def Meet (c : List Selector) : Prop :=
  ∃ front s back, c = front ++ s :: back ∧ Bare front ∧ ¬s.MarksApart

/-- What selectors come to that are nested in one another. -/
structure Completes (c : List Selector) (r : Resolved) : Prop where
  ends : r.Ends
  isRelative_iff : r.isRelative = true ↔ Bare c
  alternates_iff : r.Alternates ↔ ¬Meet c

/-- An element of a list with one more at its end is that one or an earlier one. -/
theorem exists_concat_iff {P : List Selector → Selector → List Selector → Prop}
    {c : List Selector} {s : Selector} :
    (∃ front t back, c ++ [s] = front ++ t :: back ∧ P front t back) ↔
      P c s [] ∨ ∃ front t back, c = front ++ t :: back ∧ P front t (back ++ [s]) := by
  constructor
  · rintro ⟨front, t, back, heq, h⟩
    rcases List.eq_nil_or_concat' back with rfl | ⟨back, u, rfl⟩
    · obtain ⟨rfl, hlast⟩ := List.append_inj' heq rfl
      cases hlast
      exact .inl h
    · rw [← List.cons_append, ← List.append_assoc] at heq
      obtain ⟨rfl, hlast⟩ := List.append_inj' heq rfl
      cases hlast
      exact .inr ⟨front, t, back, rfl, h⟩
  · rintro (h | ⟨front, t, back, rfl, h⟩)
    · exact ⟨c, s, [], rfl, h⟩
    · exact ⟨front, t, back ++ [s], by simp, h⟩

variable {c : List Selector} {s : Selector}

theorem not_bare_nil : ¬Bare [] := by
  rintro ⟨front, s, back, hnil, -⟩
  simp at hnil

theorem not_meet_nil : ¬Meet [] := by
  rintro ⟨front, s, back, hnil, -⟩
  simp at hnil

theorem bare_concat :
    Bare (c ++ [s]) ↔ s.staysRelative = true ∨ s.keepsFront = true ∧ Bare c := by
  unfold Bare
  rw [exists_concat_iff]
  refine or_congr (by simp) ?_
  constructor
  · rintro ⟨front, t, back, hc, ht, hback⟩
    obtain ⟨hback, hs⟩ := List.forall_mem_append.1 hback
    exact ⟨hs s List.mem_cons_self, front, t, back, hc, ht, hback⟩
  · rintro ⟨hs, front, t, back, hc, ht, hback⟩
    exact ⟨front, t, back, hc, ht, List.forall_mem_append.2 ⟨hback, by simpa using hs⟩⟩

theorem meet_concat : Meet (c ++ [s]) ↔ Meet c ∨ Bare c ∧ ¬s.MarksApart := by
  unfold Meet
  rw [exists_concat_iff, or_comm]

/-- Without a selector that stays relative, all is complete. -/
theorem Completes.complete {r : Resolved} (h : Completes c r)
    (hc : ∀ s ∈ c, s.staysRelative = false) : r.Complete := by
  have hbare : ∀ {front : List Selector}, front <+: c → ¬Bare front := by
    rintro _ hfront ⟨front, s, back, rfl, hs, -⟩
    have hstays := hc s (hfront.subset (by simp))
    rw [hs] at hstays
    cases hstays
  refine ⟨?_, h.ends, h.alternates_iff.2 ?_⟩
  · rw [← Bool.not_eq_true, h.isRelative_iff]
    exact hbare List.prefix_rfl
  · rintro ⟨front, s, back, rfl, hfront, -⟩
    exact hbare (List.prefix_append _ _) hfront

/-! ### What resolving does to both ends -/

section Substitute

variable {parent : Resolved} {f : Fragment}

theorem isRelative_substitute_fragment (f : Fragment) (parent : Resolved) :
    Resolved.isRelative (f.substitute parent) =
      (f.isCombinator || f == .marker && parent.isRelative) := by
  cases f with
  | marker => simp [Fragment.substitute, Fragment.isCombinator]
  | literal x => rfl
  | placeholder p => rfl
  | combinator k => rfl

theorem getLast?_substitute_fragment (hparent : parent.Ends) :
    ∀ p ∈ (f.substitute parent).getLast?, p.isCombinator = f.isCombinator := by
  intro p hp
  cases f with
  | marker => exact hparent.getLast? p hp
  | literal x =>
    cases hp
    rfl
  | placeholder q =>
    cases hp
    rfl
  | combinator k =>
    cases hp
    rfl

theorem substitute_fragment_ne_nil (hparent : parent.Ends) (f : Fragment) :
    f.substitute parent ≠ [] := by
  cases f with
  | marker => exact hparent.ne_nil
  | literal x => exact List.cons_ne_nil _ _
  | placeholder p => exact List.cons_ne_nil _ _
  | combinator k => exact List.cons_ne_nil _ _

theorem isRelative_substitute (hs : s.WellFormed) (hparent : parent.Ends) :
    (s.substitute parent).isRelative =
      (s.startsWithCombinator || s.fragments.head? == some .marker && parent.isRelative) := by
  obtain ⟨f, fs, hfs⟩ := List.exists_cons_of_ne_nil hs.nonempty
  rw [substitute, hfs, List.flatMap_cons,
    Resolved.isRelative_append (substitute_fragment_ne_nil hparent f),
    isRelative_substitute_fragment, startsWithCombinator, hfs]
  rfl

theorem ends_substitute (hs : s.WellFormed) (hparent : parent.Ends) :
    (s.substitute parent).Ends := by
  obtain ⟨fs, f, hfs⟩ := (List.eq_nil_or_concat' s.fragments).resolve_left hs.nonempty
  have hf : f.isCombinator = false := hs.last f (by simp [hfs])
  have hends : Resolved.Ends (f.substitute parent) := by
    have hne := substitute_fragment_ne_nil hparent f
    refine ⟨_, List.getLast?_eq_some_getLast hne, ?_⟩
    rw [getLast?_substitute_fragment hparent _ (List.getLast?_eq_some_getLast hne), hf]
  rw [substitute, hfs, List.flatMap_append, List.flatMap_singleton]
  exact hends.append _

/-- Two fragments bring combinators together only if one is a combinator and the other a marker for
what begins with one. -/
theorem joint_substitute_iff {g : Fragment} (hparent : parent.Ends)
    (hapart : f.isCombinator = false ∨ g.isCombinator = false) :
    (∀ p ∈ (f.substitute parent).getLast?, ∀ q ∈ (g.substitute parent).head?,
      p.isCombinator = false ∨ q.isCombinator = false) ↔
      parent.isRelative = false ∨ f.isCombinator = false ∨ g ≠ .marker := by
  have hlast := List.getLast?_eq_some_getLast (substitute_fragment_ne_nil hparent f)
  obtain ⟨q, qs, hcons⟩ := List.exists_cons_of_ne_nil (substitute_fragment_ne_nil hparent g)
  have hp := getLast?_substitute_fragment hparent _ hlast
  have hrelative := isRelative_substitute_fragment g parent
  rw [hcons] at hrelative ⊢
  rw [hlast]
  have hq : q.isCombinator = (g.isCombinator || g == .marker && parent.isRelative) := hrelative
  simp only [Option.mem_some_iff, forall_eq', List.head?_cons, hp, hq]
  cases hf : f.isCombinator with
  | false => simp
  | true =>
    have hg : g.isCombinator = false := hapart.resolve_left (by simp [hf])
    by_cases hmarker : g = .marker
    · simp [hmarker, Fragment.isCombinator]
    · simp [hg, hmarker]

theorem alternates_substitute_iff (hs : s.WellFormed) (hm : s.hasMarker = true)
    (hparent : parent.Ends) :
    (s.substitute parent).Alternates ↔
      parent.Alternates ∧ (parent.isRelative = false ∨ s.MarksApart) := by
  have hne : [] ∉ s.fragments.map (·.substitute parent) := by
    intro hmem
    obtain ⟨f, -, hnil⟩ := List.mem_map.1 hmem
    exact substitute_fragment_ne_nil hparent f hnil
  rw [substitute, List.flatMap_def, Resolved.Alternates, List.isChain_flatten hne,
    List.forall_mem_map, List.isChain_map]
  refine and_congr ⟨fun h => ?_, fun h f _ => ?_⟩ ?_
  · exact h .marker (by simpa [hasMarker] using hm)
  · cases f with
    | marker => exact h
    | literal x => exact .singleton _
    | placeholder p => exact .singleton _
    | combinator k => exact .singleton _
  · rw [MarksApart, List.isChain_iff_getElem, List.isChain_iff_getElem]
    simp only [← forall_or_left]
    exact forall₂_congr fun i hi => joint_substitute_iff hparent (hs.apart.getElem i hi)

theorem isRelative_parts (s : Selector) :
    Resolved.isRelative (s.fragments.map (·.part)) = s.startsWithCombinator := by
  unfold Resolved.isRelative startsWithCombinator
  cases s.fragments with
  | nil => rfl
  | cons f fs => exact f.isCombinator_part

theorem ends_parts (hs : s.WellFormed) : Resolved.Ends (s.fragments.map (·.part)) := by
  obtain ⟨fs, f, hfs⟩ := (List.eq_nil_or_concat' s.fragments).resolve_left hs.nonempty
  refine ⟨f.part, by simp [hfs], ?_⟩
  rw [f.isCombinator_part]
  exact hs.last f (by simp [hfs])

theorem alternates_parts {fs : List Fragment}
    (h : fs.IsChain fun f g => f.isCombinator = false ∨ g.isCombinator = false) :
    Resolved.Alternates (fs.map (·.part)) := by
  rw [Resolved.Alternates, List.isChain_map]
  simpa only [Fragment.isCombinator_part] using h

/-- The root between two parts of a selector, or in place of something between them. -/
theorem complete_around_root (hs : s.WellFormed) (hstart : s.startsWithCombinator = false)
    {before after : List Fragment} (hbefore : before <+: s.fragments)
    (hafter : after <:+ s.fragments) :
    Resolved.Complete (before.map (·.part) ++ .root :: after.map (·.part)) where
  begins := by
    cases before with
    | nil => rfl
    | cons f fs =>
      obtain ⟨rest, hrest⟩ := hbefore
      rw [startsWithCombinator, ← hrest] at hstart
      exact f.isCombinator_part.trans hstart
  ends := by
    refine Resolved.Ends.append ?_ _
    cases after with
    | nil => exact ⟨.root, rfl, rfl⟩
    | cons f fs =>
      obtain ⟨p, hp, hcompound⟩ := ends_parts hs
      obtain ⟨front, hfront⟩ := hafter
      rw [← hfront, List.map_append, List.getLast?_append_of_ne_nil _ (by simp)] at hp
      exact ⟨p, by simpa using hp, hcompound⟩
  alternates := by
    obtain ⟨rest, hrest⟩ := hbefore
    have hchain := hs.apart
    rw [← hrest] at hchain
    have hfirst := alternates_parts hchain.left_of_append
    have hsecond := alternates_parts (hs.apart.suffix hafter)
    refine hfirst.append (hsecond.cons fun _ _ => .inl rfl) fun _ _ q hq => ?_
    cases hq
    exact .inr rfl

/-- A selector without a marker goes behind what it is nested in. -/
theorem exists_of_nest (hs : s.WellFormed) (hm : s.hasMarker = false) (parent : Resolved) :
    ∃ own, s.nest parent = parent ++ own ∧ Resolved.Ends own ∧ Resolved.Alternates own := by
  simp only [Selector.nest, hm, Bool.false_eq_true, if_false, substitute_eq_parts hm]
  split
  · exact ⟨_, rfl, ends_parts hs, alternates_parts hs.apart⟩
  · rename_i hstart
    refine ⟨_, rfl, (ends_parts hs).append [_], (alternates_parts hs.apart).cons ?_⟩
    intro p hp
    have hrelative := isRelative_parts s
    rw [Resolved.isRelative, hp, Option.any_some] at hrelative
    exact .inr (hrelative.trans (Bool.not_eq_true _ ▸ hstart))

end Substitute

/-! ### Each step of nesting -/

theorem completes_nil : Completes [] [.root] :=
  ⟨⟨.root, rfl, rfl⟩, iff_of_false (by decide) not_bare_nil,
    iff_of_true (.singleton _) not_meet_nil⟩

/-- One more selector nested in what others come to. -/
theorem Completes.nest {r : Resolved} (h : Completes c r) (hs : s.WellFormed) :
    Completes (c ++ [s]) (s.nest r) := by
  cases hm : s.hasMarker with
  | true =>
    have hnest : s.nest r = s.substitute r := if_pos hm
    rw [hnest]
    refine ⟨ends_substitute hs h.ends, ?_, ?_⟩
    · rw [isRelative_substitute hs h.ends, bare_concat, ← h.isRelative_iff]
      simp [staysRelative, keepsFront, hm]
    · rw [alternates_substitute_iff hs hm h.ends, meet_concat, h.alternates_iff,
        ← h.isRelative_iff, not_or, not_and, not_not, ← Bool.not_eq_true, imp_iff_not_or]
  | false =>
    obtain ⟨own, hnest, hends, halternates⟩ := exists_of_nest hs hm r
    have hapart : s.MarksApart := by
      have hmarker : .marker ∉ s.fragments := by simpa [hasMarker] using hm
      refine List.isChain_iff_getElem.2 fun i hi => .inr fun heq => hmarker ?_
      exact heq ▸ List.getElem_mem hi
    rw [hnest]
    refine ⟨hends.append r, ?_, ?_⟩
    · rw [Resolved.isRelative_append h.ends.ne_nil, bare_concat, h.isRelative_iff]
      simp [staysRelative, keepsFront, hm]
    · rw [Resolved.alternates_append h.ends halternates, meet_concat, h.alternates_iff]
      simp [hapart]

/-- A selector at the top of a sheet under a class. -/
theorem exists_completes_of_qualify (hs : s.WellFormed) (name : Text) :
    ∃ r, s.qualify ⟨some name⟩ = .ok r ∧ Completes [s] r := by
  -- a marker or a combinator in front take the root as if it were the rule around
  have hroot : Completes [s] (s.nest [.root]) := completes_nil.nest hs
  obtain ⟨r, hr, -⟩ := exists_qualify hs.nonempty ⟨some name⟩
  refine ⟨r, hr, ?_⟩
  cases hm : s.hasMarker with
  | true =>
    rw [Selector.nest, if_pos hm] at hroot
    rw [qualify, if_pos (by simp [hm])] at hr
    cases hr
    exact hroot
  | false =>
    rw [Selector.nest, if_neg (by simp [hm])] at hroot
    cases hstart : s.startsWithCombinator with
    | true =>
      rw [if_pos hstart] at hroot
      rw [qualify, if_neg (by simp [hm]), if_pos hstart] at hr
      cases hr
      exact hroot
    | false =>
      obtain ⟨before, after, hbefore, hafter, rfl⟩ := exists_of_qualify rfl hm hr
      have hcomplete := complete_around_root hs hstart hbefore hafter
      have hbare : ¬Bare ([] ++ [s]) := by
        rw [bare_concat]
        simp [staysRelative, hstart, not_bare_nil]
      have hmeet : ¬Meet ([] ++ [s]) := by
        rw [meet_concat]
        simp [not_meet_nil, not_bare_nil]
      exact ⟨hcomplete.ends, iff_of_false (by simp [hcomplete.begins]) hbare,
        iff_of_true hcomplete.alternates hmeet⟩

theorem completes_foldl {r : Resolved} (h : Completes c r) :
    ∀ {ss : List Selector}, (∀ s ∈ ss, s.WellFormed) →
      Completes (c ++ ss) (ss.foldl (fun parent s => s.nest parent) r) := by
  intro ss hss
  induction ss generalizing c r with
  | nil => rwa [List.append_nil]
  | cons s ss ih =>
    obtain ⟨hs, hss⟩ := List.forall_mem_cons.1 hss
    have hrest := ih (h.nest hs) hss
    rwa [List.append_assoc] at hrest

/-- Selectors nested in one another, from the top of a sheet under a class. -/
theorem exists_completes_of_joined (name : Text) (hc : ∀ s ∈ c, s.WellFormed) :
    ∃ r, joined (qualify ⟨some name⟩) c = .ok r ∧ Completes c r := by
  cases c with
  | nil => exact ⟨_, rfl, completes_nil⟩
  | cons s ss =>
    obtain ⟨hs, hss⟩ := List.forall_mem_cons.1 hc
    obtain ⟨first, hfirst, hcompletes⟩ := exists_completes_of_qualify hs name
    refine ⟨_, ?_, completes_foldl hcompletes hss⟩
    rw [joined, hfirst]
    rfl

end Selector

/-! ### All selectors of a sheet -/

theorem exists_of_mem_choices {α : Type} {ls : List (List α)} {c : List α} (h : c ∈ choices ls) :
    ∀ a ∈ c, ∃ l ∈ ls, a ∈ l := by
  induction ls generalizing c with
  | nil =>
    cases List.mem_singleton.1 h
    exact List.forall_mem_nil _
  | cons l ls ih =>
    simp only [choices, List.mem_flatMap, List.mem_map] at h
    obtain ⟨a, ha, c', hc', rfl⟩ := h
    refine List.forall_mem_cons.2 ⟨⟨l, List.mem_cons_self, ha⟩, fun b hb => ?_⟩
    obtain ⟨l', hl', hbl⟩ := ih hc' b hb
    exact ⟨l', List.mem_cons_of_mem l hl', hbl⟩

section Sites

variable {P : Selector → Prop} {D : Declaration → Prop} {A : AtRule → Prop}

theorem Path.forall_append {path : Path} (hpath : ∀ fr ∈ path, ∀ s ∈ fr.selectors, P s)
    (frame : Frame) (hframe : ∀ s ∈ frame.selectors, P s) :
    ∀ fr ∈ path ++ [frame], ∀ s ∈ fr.selectors, P s :=
  List.forall_mem_append.2 ⟨hpath, List.forall_mem_singleton.2 hframe⟩

mutual

theorem Content.all_sites : ∀ {c : Content} {path : Path}, c.All (∀ s ∈ ·, P s) D A →
    (∀ fr ∈ path, ∀ s ∈ fr.selectors, P s) →
      ∀ site ∈ c.sites path, ∀ fr ∈ site.chain, ∀ s ∈ fr.selectors, P s
  | .rule selectors .., _, ⟨hselectors, _, hnested⟩, hpath =>
    have hchain := Path.forall_append hpath (.rule selectors) hselectors
    List.forall_mem_cons.2 ⟨hchain, Sheet.all_sites hnested hchain⟩
  | .atRule head _, _, ⟨_, hbody⟩, hpath =>
    have hchain := Path.forall_append hpath (.atRule head) (List.forall_mem_nil _)
    List.forall_mem_cons.2 ⟨hchain, Sheet.all_sites hbody hchain⟩

/-- What holds of all selectors of a sheet holds of those on the way to each site. -/
theorem Sheet.all_sites : ∀ {s : Sheet} {path : Path}, Sheet.All (∀ s ∈ ·, P s) D A s →
    (∀ fr ∈ path, ∀ s ∈ fr.selectors, P s) →
      ∀ site ∈ s.sites path, ∀ fr ∈ site.chain, ∀ s ∈ fr.selectors, P s
  | [], _, _, _ => List.forall_mem_nil _
  | _ :: _, _, ⟨hc, hcs⟩, hpath =>
    List.forall_mem_append.2 ⟨Content.all_sites hc hpath, Sheet.all_sites hcs hpath⟩

end

end Sites

/-- At the end of a path in scope there is what each choice of selectors comes to. -/
theorem Path.exists_completes {path : Path} (name : Text) (hscope : path.inScope = true)
    (hpath : ∀ fr ∈ path, ∀ s ∈ fr.selectors, s.WellFormed) :
    ∃ resolved, path.resolved ⟨some name⟩ = .ok resolved ∧
      List.Forall₂ Selector.Completes (choices path.lists) resolved := by
  have hchoices : ∀ c ∈ choices path.lists, ∀ s ∈ c, s.WellFormed := by
    intro c hc s hs
    obtain ⟨l, hl, hsl⟩ := exists_of_mem_choices hc s hs
    obtain ⟨fr, hfr, rfl⟩ := List.mem_map.1 (List.mem_filter.1 hl).1
    exact hpath fr hfr s hsl
  have hjoined : ∀ c ∈ choices path.lists,
      ∃ r, Selector.joined (Selector.qualify ⟨some name⟩) c = .ok r := by
    intro c hc
    obtain ⟨r, hr, -⟩ := Selector.exists_completes_of_joined name (hchoices c hc)
    exact ⟨r, hr⟩
  obtain ⟨resolved, hresolved⟩ := exists_mapM_eq_ok hjoined
  refine ⟨resolved, (if_pos hscope).trans hresolved, ?_⟩
  have hboth := (List.forall₂_and_left _ _).2 ⟨hchoices, mapM_eq_ok.1 hresolved⟩
  refine hboth.imp fun c r ⟨hc, hr⟩ => ?_
  obtain ⟨r', hr', hcompletes⟩ := Selector.exists_completes_of_joined name hc
  rw [hr] at hr'
  cases hr'
  exact hcompletes

/-- **Which flattened selectors are complete.** A sheet that was read from a source without
placeholders flattens under every class, and what comes out are its sites with the selectors that
their paths resolve to. In scope there is one of these for each choice of selectors on the path. It
always ends with a compound. It begins with a combinator, or has two side by side, exactly where a
selector of the choice that begins with a combinator and has a marker leaves one in front; without
such a selector it is complete. -/
theorem Sheet.completes_of_parse {source : Text} {sheet : Sheet}
    (hplain : Token.Plain (Text.tokenize source).tokens) (hparse : Sheet.parse source = .ok sheet)
    (name : Text) :
    ∃ out, sheet.flatten ⟨some name⟩ = .ok out ∧
      ((Sheet.sites [] sheet).filter (·.isWritten)).mapM (Site.entry ⟨some name⟩) =
        .ok (Stylesheet.listing [] out) ∧
      ∀ site ∈ Sheet.sites [] sheet, site.chain.inScope = true →
        ∃ resolved, site.chain.resolved ⟨some name⟩ = .ok resolved ∧
          List.Forall₂ (fun c r => Selector.Completes c r ∧
            ((∀ s ∈ c, s.staysRelative = false) → r.Complete))
            (choices site.chain.lists) resolved := by
  have hw := Sheet.wellNested_of_parse hparse
  obtain ⟨out, hout⟩ := Sheet.exists_flatten ⟨some name⟩ hw (Sheet.filled_of_run hplain hparse)
  have hcontext : Path.context ⟨some name⟩ [] = .ok [] := rfl
  refine ⟨out, hout, Sheet.entries_flattenIn hw hcontext hout, fun site hsite hscope => ?_⟩
  have hchain := Sheet.all_sites (Sheet.wellFormed_pieces hparse) (List.forall_mem_nil _) site hsite
  obtain ⟨resolved, hresolved, hcompletes⟩ := Path.exists_completes name hscope hchain
  exact ⟨resolved, hresolved, hcompletes.imp fun _ _ h => ⟨h, h.complete⟩⟩

/-- A combinator left in front, kept there, met by another one and moved away from the front. -/
def looseSource : Text :=
  "> & \x7b x: y; > a \x7b x: y \x7d b > & \x7b x: y \x7d c& \x7b x: y \x7d \x7d".toList

/-- What it comes to, with two combinators side by side in the third rule. -/
def looseListing : List Listed :=
  [" > .x", " > .x > a", "b >  > .x", "c > .x"].map fun selector =>
    .rule [] [selector.toList] [(['x'], ['y'])]

theorem completes_looseSource : ∃ sheet out, Token.Plain (Text.tokenize looseSource).tokens ∧
    Sheet.parse looseSource = .ok sheet ∧ sheet.flatten ⟨some ['x']⟩ = .ok out ∧
    Stylesheet.listing [] out = looseListing ∧
    ∀ site ∈ Sheet.sites [] sheet, ∃ resolved, site.chain.resolved ⟨some ['x']⟩ = .ok resolved ∧
      List.Forall₂ Selector.Completes (choices site.chain.lists) resolved := by
  have hplain : Token.Plain (Text.tokenize looseSource).tokens := by decide +kernel
  have h : (do
      let sheet ← Sheet.parse looseSource
      let listed ← ((Sheet.sites [] sheet).filter Site.isWritten).mapM (Site.entry ⟨some ['x']⟩)
      return (listed, (Sheet.sites [] sheet).all (·.chain.inScope))) =
        .ok (looseListing, true) := by decide +kernel
  obtain ⟨sheet, hparse, h⟩ := bind_eq_ok.1 h
  obtain ⟨listed, hlisted, h⟩ := bind_eq_ok.1 h
  obtain ⟨hlisting, hscope⟩ := Prod.mk.inj (pure_eq_ok.1 h)
  obtain ⟨out, hout, hentries, hsites⟩ := Sheet.completes_of_parse hplain hparse ['x']
  rw [hlisted] at hentries
  refine ⟨sheet, out, hplain, hparse, hout, ?_, fun site hsite => ?_⟩
  · exact (Except.ok.inj hentries).symm.trans hlisting.symm
  · obtain ⟨resolved, hresolved, hcompletes⟩ :=
      hsites site hsite (List.all_eq_true.1 hscope.symm site hsite)
    exact ⟨resolved, hresolved, hcompletes.imp fun _ _ hc => hc.1⟩

def markedChildSource : Text := ".a \x7b > & \x7b x: y \x7d \x7d".toList

/-- The rule around is filled in for the marker, but not put in front of the combinator. -/
theorem exists_incomplete_markedChildSource : ∃ sheet,
    Token.Plain (Text.tokenize markedChildSource).tokens ∧
    Sheet.parse markedChildSource = .ok sheet ∧
    ∃ site ∈ Sheet.sites [] sheet, site.chain.inScope = true ∧ site.isWritten = true ∧
      ∃ r : Resolved, site.chain.resolved ⟨some ['C']⟩ = .ok [r] ∧
        r.text (Scope.root ⟨some ['C']⟩) = .ok " > .C.a".toList ∧ ¬r.Complete := by
  have h : (do
      let sheet ← Sheet.parse markedChildSource
      (Sheet.sites [] sheet).mapM fun site : Site => (do
        let resolved ← site.chain.resolved ⟨some ['C']⟩
        return (site.chain.inScope, site.isWritten, resolved) : Except Error _)) =
      .ok [(true, false, [[.root, .literal ".a".toList]]),
        (true, true, [[.combinator .child, .root, .literal ".a".toList]])] := by decide +kernel
  obtain ⟨sheet, hparse, h⟩ := bind_eq_ok.1 h
  obtain ⟨site, hsite, hrow⟩ :=
    exists_of_mem_mapM h (List.mem_cons_of_mem _ List.mem_cons_self)
  obtain ⟨resolved, hresolved, heq⟩ := bind_eq_ok.1 hrow
  obtain ⟨hscope, heq⟩ := Prod.mk.inj (pure_eq_ok.1 heq)
  obtain ⟨hwritten, rfl⟩ := Prod.mk.inj heq
  refine ⟨sheet, by decide +kernel, hparse, site, hsite, hscope.symm, hwritten.symm, _, hresolved,
    rfl, ?_⟩
  intro hcomplete
  cases hcomplete.begins

end ScopedCss
