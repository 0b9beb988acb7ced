/-
Where compiling fails. Filling in a sheet, or flattening one with placeholders left in it, fails at
a placeholder of the sheet, so every location that a user is told about a source is right
(`Text.locations_right`).
-/
import ScopedCss.Proofs.Sheet.Places
import ScopedCss.Proofs.Stylesheet.Flatten

namespace ScopedCss

variable {P : Location → Prop} {e : Error}

/-! ### Filling in -/

theorem Placeholder.location_of_position_error {p : Placeholder} (h : p.position = .error e) :
    e.location = p.location := by
  unfold position at h
  split at h
  · cases h
  · cases h
  · cases h
    rfl

theorem Values.location_of_fill_error {vs : Values} {p : Placeholder} (h : vs.fill p = .error e) :
    e.location = p.location := by
  unfold fill at h
  split at h
  · rename_i e' hlookup
    cases h
    cases vs with
    | positional values =>
      rcases bind_eq_error.1 hlookup with hposition | ⟨_, -, hpure⟩
      · exact Placeholder.location_of_position_error hposition
      · cases hpure
    | none => cases hlookup
    | named entries => cases hlookup
    | string text => cases hlookup
  · split at h
    · cases h
    · cases h
      rfl
  · cases h
    rfl

theorem Fragment.given_of_expand_error {vs : Values} {f : Fragment} (hf : f.Placed P)
    (h : f.expand vs = .error e) : Location.Given P e.location := by
  cases f with
  | placeholder p => exact Values.location_of_fill_error (map_eq_error.1 h) ▸ hf
  | literal t => cases h
  | marker => cases h
  | combinator c => cases h

theorem Fragment.given_of_mapM_error {vs : Values} {fs : List Fragment}
    (hf : ∀ f ∈ fs, f.Placed P) (h : fs.mapM (Fragment.expand vs) = .error e) :
    Location.Given P e.location := by
  obtain ⟨f, hmem, herror⟩ := exists_of_mapM_eq_error h
  exact Fragment.given_of_expand_error (hf f hmem) herror

theorem Declaration.given_of_expand_error {vs : Values} {d : Declaration} (hd : d.Placed P)
    (h : d.expand vs = .error e) : Location.Given P e.location := by
  unfold expand at h
  split at h
  · cases h
  · rcases bind_eq_error.1 h with hkey | ⟨key, -, h⟩
    · exact Fragment.given_of_expand_error hd.key hkey
    · rcases bind_eq_error.1 h with hvalue | ⟨value, -, hpure⟩
      · exact Fragment.given_of_mapM_error hd.value (map_eq_error.1 hvalue)
      · cases hpure

theorem AtRule.given_of_expand_error {vs : Values} {a : AtRule} (ha : a.Placed P)
    (h : a.expand vs = .error e) : Location.Given P e.location := by
  rcases bind_eq_error.1 h with hcondition | ⟨condition, -, hpure⟩
  · exact Fragment.given_of_mapM_error ha.condition (map_eq_error.1 hcondition)
  · cases hpure

mutual

theorem Content.given_of_expand_error {vs : Values} :
    ∀ {c : Content}, c.Placed P → c.expand vs = .error e → Location.Given P e.location
  | .rule selectors declarations nested location, ⟨hs, hd, hn, _⟩, h => by
    simp only [Content.expand] at h
    rcases bind_eq_error.1 h with h | ⟨ss, -, h⟩
    · obtain ⟨s, hmem, hselector⟩ := exists_of_mapM_eq_error h
      exact Fragment.given_of_mapM_error (hs s hmem) (map_eq_error.1 hselector)
    rcases bind_eq_error.1 h with h | ⟨ds, -, h⟩
    · obtain ⟨d, hmem, hdeclaration⟩ := exists_of_mapM_eq_error h
      exact Declaration.given_of_expand_error (hd d hmem) hdeclaration
    rcases bind_eq_error.1 h with h | ⟨n, -, hpure⟩
    · exact Sheet.given_of_expand_error hn h
    · cases hpure
  | .atRule head body, ⟨ha, hb⟩, h => by
    simp only [Content.expand] at h
    rcases bind_eq_error.1 h with h | ⟨a, -, h⟩
    · exact AtRule.given_of_expand_error ha h
    rcases bind_eq_error.1 h with h | ⟨b, -, hpure⟩
    · exact Sheet.given_of_expand_error hb h
    · cases hpure

/-- Filling in a sheet fails at one of its places. -/
theorem Sheet.given_of_expand_error {vs : Values} :
    ∀ {s : Sheet}, Sheet.Placed P s → Sheet.expand vs s = .error e → Location.Given P e.location
  | [], _, h => by cases h
  | c :: cs, ⟨hc, hcs⟩, h => by
    simp only [Sheet.expand] at h
    rcases bind_eq_error.1 h with h | ⟨c', -, h⟩
    · exact Content.given_of_expand_error hc h
    rcases bind_eq_error.1 h with h | ⟨cs', -, hpure⟩
    · exact Sheet.given_of_expand_error hcs h
    · cases hpure

end

/-! ### Flattening -/

/-- The placeholders of a resolved selector are placed. -/
def Resolved.Placed (P : Location → Prop) (r : Resolved) : Prop :=
  ∀ p, .placeholder p ∈ r → Location.Given P p.location

theorem Resolved.given_of_text_error {r : Resolved} {root : Text} (hr : r.Placed P)
    (h : r.text root = .error e) : Location.Given P e.location := by
  obtain ⟨part, hmem, hpart⟩ := exists_of_mapM_eq_error (map_eq_error.1 h)
  cases part with
  | placeholder p =>
    cases hpart
    exact hr p hmem
  | root => cases hpart
  | literal t => cases hpart
  | combinator c => cases hpart

theorem Fragment.given_of_resolve_error {f : Fragment} (hf : f.Placed P)
    (h : f.resolve = .error e) : Location.Given P e.location := by
  cases f with
  | placeholder p =>
    cases h
    exact hf
  | literal t => cases h
  | marker => cases h
  | combinator c => cases h

theorem Fragment.given_of_resolveAll_error {fs : List Fragment} (hf : ∀ f ∈ fs, f.Placed P)
    (h : Fragment.resolveAll fs = .error e) : Location.Given P e.location := by
  obtain ⟨f, hmem, herror⟩ := exists_of_mapM_eq_error (map_eq_error.1 h)
  exact Fragment.given_of_resolve_error (hf f hmem) herror

theorem Declaration.given_of_resolve_error {d : Declaration} (hd : d.Placed P)
    (h : d.resolve = .error e) : Location.Given P e.location := by
  rcases bind_eq_error.1 h with hkey | ⟨key, -, h⟩
  · exact Fragment.given_of_resolve_error hd.key hkey
  · rcases bind_eq_error.1 h with hvalue | ⟨value, -, hpure⟩
    · exact Fragment.given_of_resolveAll_error hd.value hvalue
    · cases hpure

theorem FlatItem.given_of_ofRule_error {scope : Scope} {resolved : List Resolved}
    {declarations : List (Text × Text)} (hr : ∀ r ∈ resolved, r.Placed P)
    (h : FlatItem.ofRule scope resolved declarations = .error e) :
    Location.Given P e.location := by
  unfold FlatItem.ofRule at h
  split at h
  · cases h
  · rcases bind_eq_error.1 h with htexts | ⟨texts, -, hpure⟩
    · obtain ⟨r, hmem, htext⟩ := exists_of_mapM_eq_error htexts
      exact Resolved.given_of_text_error (hr r hmem) htext
    · cases hpure

theorem FlatItem.given_of_ofAtRule_error {head : AtRule} {items : Stylesheet} (hh : head.Placed P)
    (h : FlatItem.ofAtRule head items = .error e) : Location.Given P e.location := by
  unfold FlatItem.ofAtRule at h
  split at h
  · cases h
  · rcases bind_eq_error.1 h with hcondition | ⟨condition, -, hpure⟩
    · exact Fragment.given_of_resolveAll_error hh.condition hcondition
    · cases hpure

section Flatten

variable {scope : Scope}

mutual

theorem Content.given_of_flatten_error :
    ∀ {c : Content} {context : List Resolved} {inScope : Bool}, c.WellNested → c.Placed P →
      (∀ r ∈ context, r.Placed P) → c.flatten scope context inScope = .error e →
      Location.Given P e.location
  | .rule selectors declarations nested location, context, inScope, ⟨hf, _, hw⟩,
      ⟨hs, hd, hn, _⟩, hc, h => by
    obtain ⟨resolved, hresolved, horigin⟩ :=
      Selector.exists_resolveAll scope inScope context hf
    have hplaced : ∀ r ∈ resolved, r.Placed P := by
      intro r hr p hp
      rcases horigin r hr p hp with ⟨s, hmem, hown⟩ | ⟨r', hr', hmem⟩
      · exact hs s hmem _ hown
      · exact hc r' hr' p hmem
    simp only [Content.flatten] at h
    rcases bind_eq_error.1 h with h | ⟨resolved', hresolved', h⟩
    · cases hresolved.symm.trans h
    cases hresolved.symm.trans hresolved'
    rcases bind_eq_error.1 h with h | ⟨texts, -, h⟩
    · obtain ⟨d, hmem, hdeclaration⟩ := exists_of_mapM_eq_error h
      exact Declaration.given_of_resolve_error (hd d (List.mem_filter.1 hmem).1) hdeclaration
    rcases bind_eq_error.1 h with h | ⟨own, -, h⟩
    · exact FlatItem.given_of_ofRule_error hplaced h
    rcases bind_eq_error.1 h with h | ⟨below, -, hpure⟩
    · exact Sheet.given_of_flattenIn_error hw hn hplaced h
    · cases hpure
  | .atRule head body, context, inScope, hw, ⟨hh, hb⟩, hc, h => by
    simp only [Content.flatten] at h
    split at h
    · rcases bind_eq_error.1 h with h | ⟨items, -, h⟩
      · exact Sheet.given_of_flattenIn_error hw hb hc h
      · exact FlatItem.given_of_ofAtRule_error hh h
    · rcases bind_eq_error.1 h with h | ⟨items, -, h⟩
      · exact Sheet.given_of_flattenIn_error hw hb (List.forall_mem_nil _) h
      · exact FlatItem.given_of_ofAtRule_error hh h

/-- Flattening a well nested sheet fails at one of its places. -/
theorem Sheet.given_of_flattenIn_error :
    ∀ {s : Sheet} {context : List Resolved} {inScope : Bool}, Sheet.WellNested s →
      Sheet.Placed P s → (∀ r ∈ context, r.Placed P) →
      Sheet.flattenIn scope context inScope s = .error e → Location.Given P e.location
  | [], _, _, _, _, _, h => by cases h
  | c :: cs, context, inScope, ⟨hw, hws⟩, ⟨hp, hps⟩, hc, h => by
    simp only [Sheet.flattenIn] at h
    rcases bind_eq_error.1 h with h | ⟨first, -, h⟩
    · exact Content.given_of_flatten_error hw hp hc h
    rcases bind_eq_error.1 h with h | ⟨others, -, hpure⟩
    · exact Sheet.given_of_flattenIn_error hws hps hc h
    · cases hpure

end

end Flatten

/-- Every location that a source gives rise to is right: those of its tokens, of all that it reads
as, and of the errors that reading it, filling it in and flattening it end with. Each covers some
character, the end of the source apart, where a count over the source agrees with the reader's. -/
theorem Text.locations_right (source : Text) (vs : Values) (scope : Scope) :
    (∀ t ∈ (Text.tokenize source).tokens, t.location.Covers source) ∧
      (∀ e, (Text.tokenize source).failure = some e →
        Location.Given (Location.Covers source) e.location) ∧
      (∀ e, Sheet.parse source = .error e → e.PlacedIn source) ∧
      (∀ e, Selector.readList source = .error e → e.PlacedIn source) ∧
      (∀ sheet, Sheet.parse source = .ok sheet →
        Sheet.Placed (Location.Covers source) sheet ∧
        (∀ e, Sheet.expand vs sheet = .error e →
          Location.Given (Location.Covers source) e.location) ∧
        ∀ e, Sheet.flatten scope sheet = .error e →
          Location.Given (Location.Covers source) e.location) ∧
      ∀ n, let position := ((Lexer.start source).advance n).position
        Location.between position position = Location.endOf (source.take n) := by
  refine ⟨(Text.spanning_tokenize source).each, fun e => Text.given_of_failure,
    fun e => Sheet.placed_of_parse_error, fun e => Selector.placed_of_readList_error, ?_, ?_⟩
  · intro sheet hparse
    have hplaced := Sheet.placed_of_parse hparse
    refine ⟨hplaced, fun e => Sheet.given_of_expand_error hplaced, fun e => ?_⟩
    exact Sheet.given_of_flattenIn_error (Sheet.wellNested_of_parse hparse) hplaced
      (List.forall_mem_nil _)
  · intro n
    exact (Location.endOf_eq_between (source.take n)).symm

end ScopedCss
