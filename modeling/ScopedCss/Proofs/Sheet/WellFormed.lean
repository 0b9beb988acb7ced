/-
The shape of a sheet that was read. In a selector combinators stand between compounds, runs of text
are one literal each, a declaration has a key and a value or else a reason why it dangles
(`Selector.wellFormed_of_ofTokens`, `Fragment.merged_ofTokens`, `Declaration.wellFormed_ofTokens`).
A rule without selectors stands for one run of declarations and never directly in another rule
(`Item.grouped_contents`).
-/
import ScopedCss.Proofs.Selector.Stretch
import ScopedCss.Proofs.Sheet.Pieces
import ScopedCss.Proofs.Token.Reading

namespace ScopedCss

namespace Fragment

def isLiteral : Fragment → Bool
  | literal _ => true
  | _ => false

/-- No literal is empty, and none stands next to another. -/
structure Merged (fs : List Fragment) : Prop where
  nonempty : ∀ f ∈ fs, f ≠ literal []
  apart : fs.IsChain fun f g => f.isLiteral = false ∨ g.isLiteral = false

theorem merged_nil : Merged [] := ⟨List.forall_mem_nil _, .nil⟩

theorem merged_merge {fs : List Fragment} (h : ∀ f ∈ fs, f ≠ literal []) : Merged (merge fs) := by
  fun_induction merge fs with
  | case1 => exact merged_nil
  | case2 a fs b gs hmerge ih =>
    obtain ⟨ha, hfs⟩ := List.forall_mem_cons.1 h
    have hrest := ih hfs
    rw [hmerge] at hrest
    refine ⟨List.forall_mem_cons.2 ⟨?_, (List.forall_mem_cons.1 hrest.nonempty).2⟩, ?_⟩
    · intro hempty
      have hnil : a = [] := (List.append_eq_nil_iff.1 (literal.inj hempty)).1
      exact ha (by rw [hnil])
    · -- the chain asks only whether the first fragment is a literal
      cases gs with
      | nil => exact .singleton _
      | cons g gs =>
        obtain ⟨hg, hgs⟩ := List.isChain_cons_cons.1 hrest.apart
        exact .cons_cons hg hgs
  | case3 a fs hplain ih =>
    obtain ⟨ha, hfs⟩ := List.forall_mem_cons.1 h
    have hrest := ih hfs
    refine ⟨List.forall_mem_cons.2 ⟨ha, hrest.nonempty⟩, ?_⟩
    cases hmerge : merge fs with
    | nil => exact .singleton _
    | cons g gs =>
      refine .cons_cons (.inr ?_) (hmerge ▸ hrest.apart)
      cases g with
      | literal b => exact absurd hmerge (hplain b gs)
      | _ => rfl
  | case4 f fs hplain ih =>
    obtain ⟨hf, hfs⟩ := List.forall_mem_cons.1 h
    have hrest := ih hfs
    refine ⟨List.forall_mem_cons.2 ⟨hf, hrest.nonempty⟩, ?_⟩
    have hliteral : f.isLiteral = false := by
      cases f with
      | literal a => exact absurd rfl (hplain a)
      | _ => rfl
    cases hmerge : merge fs with
    | nil => exact .singleton _
    | cons g gs => exact .cons_cons (.inl hliteral) (hmerge ▸ hrest.apart)

theorem merge_ne_nil {fs : List Fragment} (h : fs ≠ []) : merge fs ≠ [] := by
  unfold merge
  split
  · contradiction
  · split <;> exact List.cons_ne_nil _ _
  · exact List.cons_ne_nil _ _

/-- Tokens read as runs of text and placeholders. -/
theorem merged_ofTokens (ts : List Token) : Merged (ofTokens ts) := by
  cases ts with
  | nil => exact merged_nil
  | cons t ts => exact merged_merge (by simp)

theorem ofToken_ne_empty {t : Token} (h : t.text ≠ []) : ofToken t ≠ literal [] := by
  unfold ofToken
  split
  · exact nofun
  · intro hempty
    exact h (literal.inj hempty)

theorem ofTokens_ne_nil {t : Token} (ts : List Token) (h : t.text ≠ []) :
    ofTokens (t :: ts) ≠ [] := by
  refine merge_ne_nil (List.ne_nil_of_mem (a := ofToken t) ?_)
  rw [List.mem_filter]
  exact ⟨List.mem_cons_self, decide_eq_true (ofToken_ne_empty h)⟩

end Fragment

namespace Selector

/-- Compounds with combinators between them; one in front may be any but the descendant's. -/
structure WellFormed (s : Selector) : Prop where
  nonempty : s.fragments ≠ []
  last : ∀ f ∈ s.fragments.getLast?, f.isCombinator = false
  apart : s.fragments.IsChain fun f g => f.isCombinator = false ∨ g.isCombinator = false
  between : ∀ before after, s.fragments = before ++ .combinator .descendant :: after →
    before ≠ [] ∧ after ≠ []
  literals : ∀ f ∈ s.fragments, f ≠ .literal []

theorem isChain_gap {previous : Option Fragment} {t : Token} {f : Fragment} {fs : List Fragment}
    (hf : f.isCombinator = false)
    (h : (f :: fs).IsChain fun f g => f.isCombinator = false ∨ g.isCombinator = false) :
    (previous.toList ++ (gap previous t ++ f :: fs)).IsChain fun f g =>
      f.isCombinator = false ∨ g.isCombinator = false := by
  unfold gap
  split
  · exact h
  · split
    · rename_i p hspaced
      have hp : p.isCombinator = false := by simp_all
      exact .cons_cons (.inl hp) (.cons_cons (.inr hf) h)
    · exact .cons_cons (.inr hf) h

/-- No combinator follows another, nor the one that was read before. -/
theorem isChain_fragmentsAfter {previous : Option Fragment} {ts : List Token} {fs : List Fragment}
    (h : fragmentsAfter previous ts = .ok fs) :
    (previous.toList ++ fs).IsChain fun f g => f.isCombinator = false ∨ g.isCombinator = false := by
  fun_induction fragmentsAfter previous ts generalizing fs with
  | case1 previous =>
    cases h
    cases previous with
    | none => exact .nil
    | some p => exact .singleton p
  | case2 => cases h
  | case3 => cases h
  | case4 previous t ts _ hsingle _ fragment =>
    rename_i ih
    obtain ⟨rest, hrest, rfl⟩ := map_eq_ok.1 h
    have hchain := ih hrest
    cases previous with
    | none => exact hchain
    | some p => exact .cons_cons (.inl (by simpa using hsingle)) hchain
  | case5 previous t ts _ _ ih =>
    obtain ⟨rest, hrest, rfl⟩ := map_eq_ok.1 h
    exact isChain_gap rfl (ih hrest)
  | case6 previous t ts _ _ _ fragment =>
    rename_i ih
    obtain ⟨rest, hrest, rfl⟩ := map_eq_ok.1 h
    exact isChain_gap rfl (ih hrest)
  | case7 => cases h
  | case8 previous t ts _ _ _ n _ fragment =>
    rename_i ih
    obtain ⟨rest, hrest, rfl⟩ := map_eq_ok.1 h
    exact isChain_gap rfl (ih hrest)

theorem ne_empty_of_fragmentsAfter {previous : Option Fragment} {ts : List Token}
    {fs : List Fragment} (hts : ∀ t ∈ ts, t.text ≠ []) (h : fragmentsAfter previous ts = .ok fs) :
    ∀ f ∈ fs, f ≠ .literal [] := by
  have hgap : ∀ {previous : Option Fragment} {t : Token} {f : Fragment} {fs : List Fragment},
      f ≠ .literal [] → (∀ f ∈ fs, f ≠ .literal []) →
      ∀ g ∈ gap previous t ++ f :: fs, g ≠ .literal [] := by
    intro previous t f fs hf hfs g hg
    rw [gap_eq] at hg
    rcases List.mem_append.1 hg with hg | hg
    · rintro rfl
      cases isCombinator_of_mem_lead hg
    · rcases List.mem_cons.1 hg with rfl | hg
      · exact hf
      · exact hfs g hg
  fun_induction fragmentsAfter previous ts generalizing fs with
  | case1 =>
    cases h
    exact List.forall_mem_nil _
  | case2 => cases h
  | case3 => cases h
  | case4 previous t ts _ _ _ fragment =>
    rename_i ih
    obtain ⟨rest, hrest, rfl⟩ := map_eq_ok.1 h
    exact List.forall_mem_cons.2 ⟨by simp [fragment], ih (List.forall_mem_cons.1 hts).2 hrest⟩
  | case5 previous t ts _ _ ih =>
    obtain ⟨rest, hrest, rfl⟩ := map_eq_ok.1 h
    exact hgap (by rintro ⟨⟩) (ih (List.forall_mem_cons.1 hts).2 hrest)
  | case6 previous t ts _ _ _ fragment =>
    rename_i ih
    obtain ⟨rest, hrest, rfl⟩ := map_eq_ok.1 h
    exact hgap (by simp [fragment]) (ih (List.forall_mem_cons.1 hts).2 hrest)
  | case7 => cases h
  | case8 previous t ts _ _ _ n _ fragment =>
    rename_i ih
    obtain ⟨rest, hrest, rfl⟩ := map_eq_ok.1 h
    obtain ⟨ht, hts⟩ := List.forall_mem_cons.1 hts
    refine hgap ?_ (ih (fun u hu => hts u (List.mem_of_mem_drop hu)) hrest)
    intro hempty
    exact ht (List.append_eq_nil_iff.1 (Fragment.literal.inj hempty)).1

theorem wellFormed_of_ofTokens {ts : List Token} {s : Selector} (hne : ts ≠ [])
    (hts : ∀ t ∈ ts, t.text ≠ []) (h : ofTokens ts = .ok s) : s.WellFormed := by
  obtain ⟨fs, hfs, rfl⟩ := map_eq_ok.1 h
  obtain ⟨t, ts, rfl⟩ := List.exists_cons_of_ne_nil hne
  refine ⟨fragmentsAfter_ne_nil hfs, isCombinator_getLast hfs, isChain_fragmentsAfter hfs, ?_,
    ne_empty_of_fragmentsAfter hts hfs⟩
  rintro before after rfl
  constructor
  · rintro rfl
    exact head?_ne_descendant hfs rfl
  · rintro rfl
    cases isCombinator_getLast hfs (.combinator .descendant) (by simp)

theorem Groups.wellFormed_of_selectors {ending : Error} {ts : List Token} {g : Groups}
    {selectors : List Selector} (hts : ∀ t ∈ ts, t.text ≠ [])
    (hsplit : split ending 0 false ts = .ok g) (h : g.selectors = .ok selectors) :
    ∀ s ∈ selectors, s.WellFormed := by
  obtain ⟨-, front, rfl, hsub⟩ := split_spec hsplit
  unfold Groups.selectors at h
  split at h
  · cases h
  · rename_i hlast
    intro s hs
    obtain ⟨group, hgroup, hread⟩ := exists_of_mem_mapM h hs
    refine wellFormed_of_ofTokens (((separated_of_split hsplit).ne_nil hlast).2 group hgroup)
      (fun t ht => hts t ?_) hread
    exact List.mem_append_left _ (hsub.subset (List.mem_flatten.2 ⟨group, hgroup, ht⟩))

end Selector

namespace Declaration

/-- A key and a value, or else a reason why there are none. -/
structure WellFormed (d : Declaration) : Prop where
  value : Fragment.Merged d.value
  valid : d.dangling = none →
    ((∃ x, d.key = .literal x) ∨ ∃ p, d.key = .placeholder p) ∧ d.value ≠ []
  dangling : ∀ reason ∈ d.dangling, (∃ x, d.key = .literal x) ∧ reason ≠ []

/-- Every reason ends with the key in quotes. -/
theorem append_quote_ne_nil (x : Text) : x ++ "'".toList ≠ [] :=
  List.append_ne_nil_of_right_ne_nil x (by decide)

theorem wellFormed_dangle (key : Token) (body : List Token) {reason : Text} (h : reason ≠ []) :
    (dangle key body reason).WellFormed where
  value := Fragment.merged_ofTokens _
  valid := nofun
  dangling := by
    rintro _ ⟨⟩
    exact ⟨⟨_, rfl⟩, h⟩

theorem wellFormed_ofTokens {key : Token} {body : List Token} (h : ∀ t ∈ body, t.text ≠ []) :
    (ofTokens key body).WellFormed := by
  unfold ofTokens
  split
  · exact wellFormed_dangle _ _ (append_quote_ne_nil _)
  split
  · exact wellFormed_dangle _ _ (append_quote_ne_nil _)
  · rename_i colon value
    split
    · exact wellFormed_dangle _ _ (append_quote_ne_nil _)
    split
    · exact wellFormed_dangle _ _ (append_quote_ne_nil _)
    · rename_i hvalue
      refine ⟨Fragment.merged_ofTokens _, fun _ => ⟨?_, ?_⟩, by rintro _ ⟨⟩⟩
      · show (∃ x, Fragment.ofToken key = .literal x) ∨ ∃ p, Fragment.ofToken key = .placeholder p
        unfold Fragment.ofToken
        split
        · exact .inr ⟨_, rfl⟩
        · exact .inl ⟨_, rfl⟩
      · obtain ⟨t, value, rfl⟩ := List.exists_cons_of_ne_nil (by simpa using hvalue)
        exact Fragment.ofTokens_ne_nil value (h t (by simp))

theorem wellFormed_readDeclaration {key : Token} {ts : List Token} (h : ∀ t ∈ ts, t.text ≠ []) :
    (readDeclaration key ts).1.WellFormed := by
  simp only [readDeclaration]
  split
  · exact wellFormed_dangle _ _ (append_quote_ne_nil _)
  · exact wellFormed_ofTokens fun t ht => h t ((List.takeWhile_sublist _).subset ht)

end Declaration

/-- A rule without selectors. -/
def Content.isBare : Content → Bool
  | .rule [] .. => true
  | _ => false

mutual

def Content.Grouped : Content → Prop
  | .rule selectors declarations nested _ =>
    (selectors = [] → declarations ≠ [] ∧ nested = []) ∧ (∀ c ∈ nested, c.isBare = false) ∧
      Sheet.EachGrouped nested
  | .atRule _ body =>
    body.IsChain (fun c d => c.isBare = false ∨ d.isBare = false) ∧ Sheet.EachGrouped body

def Sheet.EachGrouped : Sheet → Prop
  | [] => True
  | c :: cs => c.Grouped ∧ Sheet.EachGrouped cs

end

/-- A rule without selectors has declarations and nothing else, stands outside all rules, and next
to no other such rule. -/
def Sheet.Grouped (s : Sheet) : Prop :=
  s.IsChain (fun c d => c.isBare = false ∨ d.isBare = false) ∧ Sheet.EachGrouped s

theorem Sheet.eachGrouped_iff {s : Sheet} : Sheet.EachGrouped s ↔ ∀ c ∈ s, c.Grouped := by
  induction s with
  | nil => simp [Sheet.EachGrouped]
  | cons c s ih => simp [Sheet.EachGrouped, ih]

namespace Item

/-- An item as it is read is no rule without selectors: these are made when a block is closed. -/
def Grouped : Item → Prop
  | declaration _ => True
  | content c => c.isBare = false ∧ c.Grouped

theorem grouped_bareRule_append {ds : List Declaration} {s : Sheet} (hs : Sheet.Grouped s)
    (hhead : ∀ c ∈ s.head?, c.isBare = false) : Sheet.Grouped (bareRule ds ++ s) := by
  cases ds with
  | nil => exact hs
  | cons d ds =>
    refine ⟨?_, ⟨fun _ => ⟨nofun, rfl⟩, List.forall_mem_nil _, trivial⟩, hs.2⟩
    cases s with
    | nil => exact .singleton _
    | cons c s => exact .cons_cons (.inr (hhead c rfl)) hs.1

/-- Runs of declarations are grouped as wide as they go. -/
theorem grouped_contents {run : List Declaration} {items : List Item}
    (h : ∀ i ∈ items, i.Grouped) : Sheet.Grouped (contents run items) := by
  induction items generalizing run with
  | nil =>
    have hbare : Sheet.Grouped (bareRule run.reverse ++ []) :=
      grouped_bareRule_append ⟨.nil, trivial⟩ nofun
    simpa [contents] using hbare
  | cons i items ih =>
    obtain ⟨hi, hitems⟩ := List.forall_mem_cons.1 h
    cases i with
    | declaration d => exact ih hitems
    | content c =>
      obtain ⟨hchain, heach⟩ : Sheet.Grouped (contents [] items) := ih hitems
      refine grouped_bareRule_append ⟨?_, hi.2, heach⟩ ?_
      · cases hrest : contents [] items with
        | nil => exact .singleton _
        | cons d rest => exact .cons_cons (.inl hi.1) (hrest ▸ hchain)
      · rintro _ ⟨⟩
        exact hi.1

end Item

namespace Sheet

theorem builds_grouped :
    Builds (· ≠ []) (fun _ => True) (fun _ => True) Item.Grouped where
  declaration := id
  close := by
    intro head items hhead hitems
    cases head with
    | atRule a => exact ⟨rfl, Item.grouped_contents hitems⟩
    | rule selectors location =>
      have hcontent : ∀ c ∈ items.filterMap (·.content?), c.isBare = false ∧ c.Grouped := by
        intro c hc
        obtain ⟨i, hmem, hi⟩ := List.mem_filterMap.1 hc
        cases i with
        | declaration d => cases hi
        | content c' =>
          cases hi
          exact hitems _ hmem
      obtain ⟨s, selectors, rfl⟩ := List.exists_cons_of_ne_nil hhead
      exact ⟨rfl, nofun, fun c hc => (hcontent c hc).1,
        eachGrouped_iff.2 fun c hc => (hcontent c hc).2⟩

/-- Every selector, declaration and head of an at-rule that was read is well formed. -/
theorem wellFormed_pieces {source : Text} {sheet : Sheet} (h : Sheet.parse source = .ok sheet) :
    Sheet.All (∀ s ∈ ·, s.WellFormed) Declaration.WellFormed
      (fun head => Fragment.Merged head.condition) sheet := by
  have htext := Lexer.text_ne_nil (Lexer.start source) rfl
  have hwithin : ∀ {ts : List Token}, ts <:+ (Text.tokenize source).tokens →
      ∀ t ∈ ts, t.text ≠ [] := fun hsuffix t ht => htext t (hsuffix.subset ht)
  refine all_of_run (List.forall_mem_nil _) ?_ h
  refine ⟨fun hsuffix _ _ hsplit hread => ?_, fun hsuffix _ => ?_, fun _ => ?_, fun _ _ _ _ => ?_⟩
  · exact Selector.Groups.wellFormed_of_selectors (hwithin hsuffix) hsplit hread
  · exact Declaration.wellFormed_readDeclaration (hwithin ((List.suffix_cons _ _).trans hsuffix))
  · exact Declaration.wellFormed_dangle _ _ (Declaration.append_quote_ne_nil _)
  · exact Fragment.merged_ofTokens _

/-- A sheet whose pieces are well formed and whose bare declarations are grouped. -/
structure WellFormed (s : Sheet) : Prop where
  pieces : Sheet.All (∀ s ∈ ·, s.WellFormed) Declaration.WellFormed
    (fun head => Fragment.Merged head.condition) s
  grouped : Sheet.Grouped s

/-- A sheet that was read is well formed, at every depth. -/
theorem wellFormed_of_parse {source : Text} {sheet : Sheet} (h : Sheet.parse source = .ok sheet) :
    Sheet.WellFormed sheet := by
  refine ⟨wellFormed_pieces h, ?_⟩
  have hp : Pieces (.ofSource source (Text.tokenize source).failure)
      (Text.tokenize source).tokens (· ≠ []) (fun _ => True) fun _ => True :=
    ⟨fun _ _ _ hsplit hread => (Selector.Groups.fragments_ne_nil hsplit hread).1,
      fun _ _ => trivial, fun _ => trivial, fun _ _ _ _ => trivial⟩
  obtain ⟨items, hitems, rfl⟩ := exists_items_of_run hp builds_grouped h
  exact Item.grouped_contents hitems

/-- Bare declarations around a rule and an at-rule, one without its `;` and one without a value. -/
def crowdedSource : Text :=
  "p: q r: $\x7bs\x7d; a & b, > c:d( e ) \x7b f g \x7b h: i j \x7d $\x7bk\x7d: l; m: \x7d".toList ++
    "n: o; @media t and (u: $\x7bv\x7d) \x7b w: x; y \x7b \x7d z: 0 \x7d".toList

theorem wellFormed_crowdedSource : ∃ sheet, Sheet.parse crowdedSource = .ok sheet ∧
    sheet.map Content.isBare = [true, false, true, false] ∧ Sheet.WellFormed sheet := by
  have h : List.map Content.isBare <$> Sheet.parse crowdedSource =
      .ok [true, false, true, false] := by decide +kernel
  obtain ⟨sheet, hparse, hbare⟩ := map_eq_ok.1 h
  exact ⟨sheet, hparse, hbare.symm, wellFormed_of_parse hparse⟩

end Sheet

end ScopedCss
