/-
The placeholders of a sheet, in the order in which they are filled in (`Sheet.placeholders`). Each
is a token of the source (`Sheet.exists_token_of_mem_placeholders`), so its name consists of
letters, digits and underscores.
-/
import ScopedCss.Proofs.Sheet.Pieces
import ScopedCss.Proofs.Token.Reach

namespace ScopedCss

def Fragment.placeholder? : Fragment → Option Placeholder
  | .placeholder p => some p
  | _ => none

def Fragment.placeholders (fs : List Fragment) : List Placeholder := fs.filterMap placeholder?

/-- The placeholders of a declaration that is written out. -/
def Declaration.placeholders (d : Declaration) : List Placeholder :=
  if d.isDangling then [] else Fragment.placeholders (d.key :: d.value)

mutual

/-- The placeholders of an item: those of its selectors, then those of its declarations, each with
the key before the value, then those nested in it; or those of its condition, then those of its
body. -/
def Content.placeholders : Content → List Placeholder
  | .rule selectors declarations nested _ =>
    selectors.flatMap (Fragment.placeholders ·.fragments) ++
      (declarations.flatMap (·.placeholders) ++ Sheet.placeholders nested)
  | .atRule head body => Fragment.placeholders head.condition ++ Sheet.placeholders body

/-- The placeholders of a sheet, malformed declarations aside, item by item. -/
def Sheet.placeholders : Sheet → List Placeholder
  | [] => []
  | c :: cs => c.placeholders ++ Sheet.placeholders cs

end

/-! ### Where they come from -/

/-- The placeholder that a token is read as. -/
def Token.placeholder (t : Token) : Placeholder := ⟨t.value, some t.location⟩

/-- A fragment that, if it is a placeholder, was read from one of these tokens. -/
def Fragment.From (ts : List Token) (f : Fragment) : Prop :=
  ∀ p, f = .placeholder p → ∃ t ∈ ts, t.kind = .placeholder ∧ p = t.placeholder

namespace Fragment

variable {ts us : List Token}

theorem IsPlain.from {f : Fragment} (h : f.IsPlain) : f.From ts :=
  fun p hp => absurd hp (h p)

theorem From.mono {f : Fragment} (h : f.From us) (hus : us ⊆ ts) : f.From ts := by
  intro p hp
  obtain ⟨t, ht, hkind⟩ := h p hp
  exact ⟨t, hus ht, hkind⟩

theorem from_ofToken {t : Token} (ht : t ∈ ts) : (ofToken t).From ts := by
  unfold ofToken
  split
  · rename_i hkind
    rintro _ ⟨⟩
    exact ⟨t, ht, hkind, rfl⟩
  · exact (isPlain_literal _).from

theorem from_ofTokens (ts : List Token) : ∀ f ∈ ofTokens ts, f.From ts := by
  cases ts with
  | nil => exact List.forall_mem_nil _
  | cons t ts =>
    intro f hf
    rcases mem_merge hf with ⟨text, rfl⟩ | hf
    · exact (isPlain_literal text).from
    · rcases List.mem_cons.1 (List.mem_filter.1 hf).1 with rfl | hf
      · exact from_ofToken List.mem_cons_self
      · obtain ⟨u, hu, hf⟩ := List.mem_flatMap.1 hf
        have hu := from_ofToken (List.mem_cons_of_mem t hu)
        rw [trailing] at hf
        split at hf
        · rcases List.mem_cons.1 hf with rfl | hf
          · exact (isPlain_literal _).from
          · rwa [List.mem_singleton.1 hf]
        · rwa [List.mem_singleton.1 hf]

end Fragment

namespace Selector

theorem from_gap {previous : Option Fragment} {t : Token} {ts : List Token} :
    ∀ f ∈ gap previous t, f.From ts := by
  intro f hf
  unfold gap at hf
  split at hf
  · cases hf
  · split at hf
    · rw [List.mem_singleton.1 hf]
      exact (Fragment.isPlain_combinator _).from
    · cases hf

theorem from_fragmentsAfter {previous : Option Fragment} {ts : List Token} {fs : List Fragment}
    (h : fragmentsAfter previous ts = .ok fs) : ∀ f ∈ fs, f.From ts := by
  have hcons : ∀ {previous t us f fs} {ts : List Token}, f.From ts → (∀ g ∈ fs, g.From us) →
      us ⊆ ts → ∀ g ∈ gap previous t ++ f :: fs, g.From ts := by
    intro previous t us f fs ts hf hfs hus
    exact List.forall_mem_append.2 ⟨from_gap, List.forall_mem_cons.2
      ⟨hf, fun g hg => (hfs g hg).mono hus⟩⟩
  fun_induction fragmentsAfter previous ts generalizing fs with
  | case1 =>
    cases h
    exact List.forall_mem_nil _
  | case2 => cases h
  | case3 => cases h
  | case4 previous t ts _ _ _ fragment =>
    rename_i ih
    obtain ⟨rest, hrest, rfl⟩ := map_eq_ok.1 h
    exact List.forall_mem_cons.2 ⟨(Fragment.isPlain_combinator _).from,
      fun g hg => (ih hrest g hg).mono (List.subset_cons_self t ts)⟩
  | case5 previous t ts _ _ ih =>
    obtain ⟨rest, hrest, rfl⟩ := map_eq_ok.1 h
    exact hcons Fragment.isPlain_marker.from (ih hrest) (List.subset_cons_self t ts)
  | case6 previous t ts _ _ hkind fragment =>
    rename_i ih
    obtain ⟨rest, hrest, rfl⟩ := map_eq_ok.1 h
    refine hcons (fun p hp => ⟨t, List.mem_cons_self, hkind, ?_⟩) (ih hrest)
      (List.subset_cons_self t ts)
    exact (Fragment.placeholder.inj hp).symm
  | case7 => cases h
  | case8 previous t ts _ _ _ n _ fragment =>
    rename_i ih
    obtain ⟨rest, hrest, rfl⟩ := map_eq_ok.1 h
    exact hcons (Fragment.isPlain_literal _).from (ih hrest)
      (List.subset_cons_of_subset t (List.drop_subset n ts))

theorem Groups.from_selectors {g : Groups} {selectors : List Selector}
    (h : g.selectors = .ok selectors) :
    ∀ s ∈ selectors, ∀ f ∈ s.fragments, f.From g.groups.flatten := by
  intro s hs f hf
  unfold Groups.selectors at h
  split at h
  · cases h
  · obtain ⟨group, hgroup, hread⟩ := exists_of_mem_mapM h hs
    obtain ⟨fs, hfs, rfl⟩ := map_eq_ok.1 hread
    exact (from_fragmentsAfter hfs f hf).mono fun t ht => List.mem_flatten.2 ⟨group, hgroup, ht⟩

theorem Groups.flatten_subset {e : Error} {ts : List Token} {g : Groups}
    (h : split e 0 false ts = .ok g) : g.groups.flatten ⊆ ts := by
  obtain ⟨-, front, rfl, hsub⟩ := split_spec h
  exact fun t ht => List.mem_append_left _ (hsub.subset ht)

end Selector

/-- A declaration whose placeholders, if it is written out, were read from these tokens. -/
def Declaration.From (ts : List Token) (d : Declaration) : Prop :=
  d.isDangling = false → ∀ f ∈ d.key :: d.value, f.From ts

namespace Declaration

theorem from_dangle (key : Token) (body : List Token) (reason : Text) (ts : List Token) :
    (dangle key body reason).From ts := by
  intro hsound
  cases hsound

theorem from_ofTokens (key : Token) (body : List Token) :
    (ofTokens key body).From (key :: body) := by
  unfold ofTokens
  split
  · exact from_dangle _ _ _ _
  split
  · exact from_dangle _ _ _ _
  · rename_i colon value
    split
    · exact from_dangle _ _ _ _
    split
    · exact from_dangle _ _ _ _
    · intro _
      refine List.forall_mem_cons.2 ⟨Fragment.from_ofToken List.mem_cons_self, fun f hf => ?_⟩
      exact (Fragment.from_ofTokens value f hf).mono
        (List.subset_cons_of_subset key (List.subset_cons_self colon value))

theorem from_readDeclaration (key : Token) (ts : List Token) :
    (readDeclaration key ts).1.From (key :: ts) := by
  simp only [readDeclaration]
  split
  · exact from_dangle _ _ _ _
  · intro hsound f hf
    exact (from_ofTokens key _ hsound f hf).mono
      (List.cons_subset_cons key (List.takeWhile_subset _))

end Declaration

/-- Fragments that were read from tokens have placeholders that were. -/
theorem Fragment.exists_token_of_mem_placeholders {ts : List Token} {fs : List Fragment}
    (h : ∀ f ∈ fs, f.From ts) :
    ∀ p ∈ placeholders fs, ∃ t ∈ ts, t.kind = .placeholder ∧ p = t.placeholder := by
  intro p hp
  obtain ⟨f, hf, hplaceholder⟩ := List.mem_filterMap.1 hp
  cases f with
  | placeholder q => exact h _ hf p (Option.some.inj hplaceholder ▸ rfl)
  | literal x => cases hplaceholder
  | marker => cases hplaceholder
  | combinator c => cases hplaceholder

theorem Declaration.exists_token_of_mem_placeholders {ts : List Token} {d : Declaration}
    (h : d.From ts) :
    ∀ p ∈ d.placeholders, ∃ t ∈ ts, t.kind = .placeholder ∧ p = t.placeholder := by
  unfold Declaration.placeholders
  split
  · exact List.forall_mem_nil _
  · rename_i hsound
    exact Fragment.exists_token_of_mem_placeholders (h (by simpa using hsound))

section Origin

variable {ts : List Token}

mutual

theorem Content.exists_token_of_mem_placeholders : ∀ {c : Content},
    c.All (∀ s ∈ ·, ∀ f ∈ s.fragments, f.From ts) (Declaration.From ts)
      (∀ f ∈ ·.condition, f.From ts) →
    ∀ p ∈ c.placeholders, ∃ t ∈ ts, t.kind = .placeholder ∧ p = t.placeholder
  | .rule selectors declarations nested location, ⟨hselectors, hdeclarations, hnested⟩ => by
    refine List.forall_mem_append.2 ⟨?_, List.forall_mem_append.2 ⟨?_,
      Sheet.exists_token_of_all hnested⟩⟩
    · intro p hp
      obtain ⟨s, hs, hp⟩ := List.mem_flatMap.1 hp
      exact Fragment.exists_token_of_mem_placeholders (hselectors s hs) p hp
    · intro p hp
      obtain ⟨d, hd, hp⟩ := List.mem_flatMap.1 hp
      exact Declaration.exists_token_of_mem_placeholders (hdeclarations d hd) p hp
  | .atRule head body, ⟨hhead, hbody⟩ => List.forall_mem_append.2
    ⟨Fragment.exists_token_of_mem_placeholders hhead, Sheet.exists_token_of_all hbody⟩

theorem Sheet.exists_token_of_all : ∀ {s : Sheet},
    Sheet.All (∀ s ∈ ·, ∀ f ∈ s.fragments, f.From ts) (Declaration.From ts)
      (∀ f ∈ ·.condition, f.From ts) s →
    ∀ p ∈ Sheet.placeholders s, ∃ t ∈ ts, t.kind = .placeholder ∧ p = t.placeholder
  | [], _ => List.forall_mem_nil _
  | _ :: _, ⟨hc, hcs⟩ => List.forall_mem_append.2
    ⟨Content.exists_token_of_mem_placeholders hc, Sheet.exists_token_of_all hcs⟩

end

end Origin

namespace Sheet

theorem from_of_run {ending : Ending} {tokens : List Token} {sheet : Sheet}
    (h : (run ending { tokens := tokens }).result = .ok sheet) :
    Sheet.All (∀ s ∈ ·, ∀ f ∈ s.fragments, f.From tokens) (Declaration.From tokens)
      (∀ f ∈ ·.condition, f.From tokens) sheet := by
  refine all_of_run (List.forall_mem_nil _) ?_ h
  refine ⟨fun hsuffix _ _ hsplit hread s hs f hf => ?_, fun hsuffix _ hsound f hf => ?_,
    fun _ => Declaration.from_dangle _ _ _ _, fun hsuffix _ _ _ f hf => ?_⟩
  · exact (Selector.Groups.from_selectors hread s hs f hf).mono fun t ht =>
      hsuffix.subset (Selector.Groups.flatten_subset hsplit ht)
  · exact (Declaration.from_readDeclaration _ _ hsound f hf).mono hsuffix.subset
  · refine (Fragment.from_ofTokens _ f hf).mono fun t ht => hsuffix.subset ?_
    exact List.mem_cons_of_mem _ (List.mem_cons_of_mem _ (List.takeWhile_subset _ ht))

/-- The placeholders of a sheet are tokens of its source. -/
theorem exists_token_of_mem_placeholders {source : Text} {sheet : Sheet}
    (h : Sheet.parse source = .ok sheet) : ∀ p ∈ placeholders sheet,
      ∃ t ∈ (Text.tokenize source).tokens, t.kind = .placeholder ∧ p = t.placeholder :=
  exists_token_of_all (from_of_run h)

end Sheet

/-! ### Their names -/

/-- A placeholder with the name of one: letters, digits and underscores. -/
def Placeholder.IsNamed (p : Placeholder) : Prop :=
  p.name ≠ [] ∧ ∀ c ∈ p.name, Lexeme.isNamePart c = true

theorem Lexeme.name_of_read {s text value : Text}
    (h : read s = some (.token .placeholder text value)) :
    value ≠ [] ∧ ∀ c ∈ value, isNamePart c = true := by
  cases s with
  | nil => cases h
  | cons c s =>
    cases form_of_read h with
    | placeholder hne hparts => exact ⟨hne, hparts⟩

theorem Lexer.isNamed_of_mem (l : Lexer) (hl : l.failed = false) :
    ∀ t ∈ l.tokens.tokens, t.kind = .placeholder → t.placeholder.IsNamed := by
  intro t ht hkind
  obtain ⟨s, hread⟩ := exists_read_of_mem l hl t ht
  rw [hkind] at hread
  exact Lexeme.name_of_read hread

theorem Sheet.isNamed_of_parse {source : Text} {sheet : Sheet}
    (h : Sheet.parse source = .ok sheet) : ∀ p ∈ placeholders sheet, p.IsNamed := by
  intro p hp
  obtain ⟨t, ht, hkind, rfl⟩ := exists_token_of_mem_placeholders h p hp
  exact Lexer.isNamed_of_mem _ rfl t ht hkind

end ScopedCss
