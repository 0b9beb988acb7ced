/-
Style sheets whose pieces are read back from their texts (`Stylesheet.Legible`): each selector as a
selector of the same text, each declaration and each head of an at-rule as it was.

`Sheet.legible_flattenIn`: what a sheet flattens to is legible, if its pieces can be written down
again, its simple selectors can be put side by side and no two combinators come together. Selectors
are read back part by part (`Resolved.Spells.exists_fragments`).
-/
import ScopedCss.Proofs.Selector.Name
import ScopedCss.Proofs.Sheet.Level

namespace ScopedCss

open Lexeme (isSpace)
open Token (through led join)
open Selector (fragmentsAfter lead Detached)

theorem Token.mem_head?_led {b : Bool} {us ts : List Token} {t : Token} (hne : us ≠ [])
    (h : t ∈ (led b us ++ ts).head?) : ∃ u ∈ us.head?, t = { u with spaced := b } := by
  obtain ⟨u, us, rfl⟩ := List.exists_cons_of_ne_nil hne
  exact ⟨u, rfl, (Option.some.inj h).symm⟩

/-- A text that opens does not begin with a parenthesis. -/
theorem Text.ne_paren_of_opens {x : Text} (h : x.opens = true) (z : Text) :
    (x ++ z).head? ≠ some '(' := by
  cases x with
  | nil => cases h
  | cons c x =>
    rintro ⟨⟩
    exact absurd h (by simp [opens, Lexeme.isExtending])

namespace Fragment

/-- Fragments without placeholders that write `x`; only those of a nesting sheet have markers. -/
structure Write (nesting : Bool) (x : Text) (fs : List Fragment) : Prop where
  render : render fs = x
  plain : ∀ f ∈ fs, f.IsPlain
  unmarked : nesting = false → .marker ∉ fs

namespace Write

variable {nesting : Bool}

theorem append {x y : Text} {fs gs : List Fragment} (h : Write nesting x fs)
    (h' : Write nesting y gs) : Write nesting (x ++ y) (fs ++ gs) where
  render := by
    rw [← h.render, ← h'.render]
    exact List.flatMap_append
  plain := List.forall_mem_append.2 ⟨h.plain, h'.plain⟩
  unmarked hn := by simp [h.unmarked hn, h'.unmarked hn]

theorem literals (nesting : Bool) (xs : List Text) :
    Write nesting xs.flatten (xs.map .literal) where
  render := by
    rw [Fragment.render, List.flatMap_map, List.flatten_eq_flatMap]
    rfl
  plain f hf := by
    obtain ⟨x, -, rfl⟩ := List.mem_map.1 hf
    exact nofun
  unmarked _ := by simp

theorem combinator (nesting : Bool) (c : Combinator) : Write nesting c.text [.combinator c] :=
  ⟨List.append_nil _, List.forall_mem_singleton.2 nofun, fun _ => by simp⟩

theorem marker (nests : nesting = true) : Write nesting ['&'] [.marker] :=
  ⟨rfl, List.forall_mem_singleton.2 nofun, fun hn => by simp [hn] at nests⟩

end Write

end Fragment

namespace Resolved

open Fragment (Write)

theorem write_parts (root : Text) (fs : List Fragment) :
    write root (fs.map (·.part)) = Fragment.render fs := by
  rw [write, List.flatMap_map, Fragment.render]
  exact List.flatMap_congr fun f _ => by cases f <;> rfl

/-- No two combinators are side by side. -/
def Alternates (r : Resolved) : Prop :=
  r.IsChain fun p q => p.isCombinator = false ∨ q.isCombinator = false

instance (r : Resolved) : Decidable r.Alternates := inferInstanceAs (Decidable (r.IsChain _))

/-- The fragment that white space in front of a selector is read as. -/
def front (previous : Option Fragment) (spaced : Bool) (r : Resolved) : List Fragment :=
  if r.head?.any (!·.isCombinator) then lead previous spaced else []

theorem front_unspaced (previous : Option Fragment) (r : Resolved) : front previous false r = [] := by
  cases previous <;> simp [front, lead]

theorem front_of_not {p : ResolvedPart} (hp : p.isCombinator = false) (previous : Option Fragment)
    (spaced : Bool) (r : Resolved) : front previous spaced (p :: r) = lead previous spaced := by
  simp [front, hp]

namespace Spells

variable {place : Location} {root : List Token} {nesting b : Bool} {r : Resolved} {ts : List Token}

theorem spaced (h : Spells place root nesting b r ts)
    (hroot : Token.IsStretch place root [join root]) (hb : b = true) :
    ∀ t ∈ ts.head?, t.spaced = true := by
  induction h with
  | nil => exact nofun
  | stretch stretch _ _ _ =>
    intro t ht
    obtain ⟨u, -, rfl⟩ := Token.mem_head?_led stretch.ne_nil ht
    exact hb
  | root _ _ _ =>
    intro t ht
    obtain ⟨u, -, rfl⟩ := Token.mem_head?_led hroot.ne_nil ht
    exact hb
  | marker _ _ _ =>
    rintro t ⟨⟩
    exact hb
  | descendant _ ih => exact ih rfl
  | sign _ _ _ =>
    rintro t ⟨⟩
    rfl

/-- What opens does not begin with a parenthesis right behind what precedes it. -/
theorem detached (h : Spells place root nesting b r ts)
    (hroot : Token.IsStretch place root [join root]) (hopens : (join root).opens = true)
    (hr : r.Opens) : Detached ts := by
  have hled : ∀ {us : List Token} {b : Bool} {ts : List Token} {x z : Text}, us ≠ [] →
      x.opens = true → join us = x ++ z → Detached (led b us ++ ts) := by
    intro us b ts x z hne hx hjoin t ht hparen
    obtain ⟨u, hu, rfl⟩ := Token.mem_head?_led hne ht
    obtain ⟨u', us, rfl⟩ := List.exists_cons_of_ne_nil hne
    obtain rfl : u' = u := Option.some.inj hu
    have hparen : u'.isMark '(' = true := hparen
    simp only [Token.isMark, Bool.and_eq_true, decide_eq_true_eq] at hparen
    refine absurd ?_ (Text.ne_paren_of_opens hx z)
    rw [← hjoin, join, hparen.2]
    rfl
  cases h with
  | nil => rintro t ⟨⟩
  | stretch stretch _ _ => exact hled stretch.ne_nil (hr _ rfl) stretch.text
  | root _ _ => exact hled hroot.ne_nil hopens (List.append_nil _).symm
  | marker _ _ =>
    rintro t ⟨⟩ ⟨⟩
  | descendant rest => exact fun t ht _ => rest.spaced hroot rfl t ht
  | sign _ _ =>
    rintro t ⟨⟩ -
    rfl

theorem through (h : Spells place root nesting b r ts)
    (hroot : Token.IsStretch place root [join root]) : through 0 ts = some 0 := by
  induction h with
  | nil => rfl
  | stretch stretch _ _ ih =>
    rw [Token.through_append, Token.through_led, stretch.closed]
    exact ih
  | root _ _ ih =>
    rw [Token.through_append, Token.through_led, hroot.closed]
    exact ih
  | marker _ _ ih => exact ih
  | descendant _ ih => exact ih
  | @sign b c r ts hc _ ih =>
    cases c with
    | descendant => exact absurd rfl hc
    | _ => exact ih

theorem ne_nil (h : Spells place root nesting b r ts)
    (hroot : Token.IsStretch place root [join root])
    (hends : ∃ p ∈ r.getLast?, p.isCombinator = false) :
    ts ≠ [] := by
  induction h with
  | nil =>
    obtain ⟨p, ⟨⟩, -⟩ := hends
  | @stretch b us _ _ _ _ stretch _ _ _ =>
    obtain ⟨u, us, rfl⟩ := List.exists_cons_of_ne_nil stretch.ne_nil
    exact List.cons_ne_nil _ _
  | root _ _ _ =>
    obtain ⟨u, us, rfl⟩ := List.exists_cons_of_ne_nil hroot.ne_nil
    exact List.cons_ne_nil _ _
  | marker _ _ _ => exact List.cons_ne_nil _ _
  | @descendant b r ts _ ih =>
    obtain ⟨p, hp, hcombinator⟩ := hends
    refine ih ⟨p, ?_, hcombinator⟩
    cases r with
    | nil =>
      cases hp
      cases hcombinator
    | cons q r => rwa [List.getLast?_cons_cons] at hp
  | sign _ _ _ => exact List.cons_ne_nil _ _

/-- A selector is read back as fragments of the same text. `previous` is the fragment before. -/
theorem exists_fragments (h : Spells place root nesting b r ts)
    (hroot : Token.IsStretch place root [join root]) (hopens : (join root).opens = true)
    (halternates : r.Alternates) (hends : ∀ p ∈ r.getLast?, p.isCombinator = false)
    {previous : Option Fragment}
    (hfirst : ∀ p ∈ r.head?, p.isCombinator = true → previous.any (·.isCombinator) = false ∧
      (p = .combinator .descendant → previous ≠ none)) :
    ∃ fs, fragmentsAfter previous ts = .ok (front previous b r ++ fs) ∧
      Write nesting (r.write (join root)) fs := by
  have hstretch : ∀ (previous : Option Fragment) (b : Bool) {us : List Token} {x : Text}
      {xs : List Text} {r : Resolved} {ts : List Token}, Token.IsStretch place us (x :: xs) →
      r.Opens → Spells place root nesting false r ts →
      (∃ fs, fragmentsAfter (some .marker) ts = .ok (front (some .marker) false r ++ fs) ∧
        Write nesting (r.write (join root)) fs) →
      ∃ fs, fragmentsAfter previous (led b us ++ ts) = .ok (lead previous b ++ fs) ∧
        Write nesting ((x :: xs).flatten ++ r.write (join root)) fs := by
    rintro previous b us x xs r ts hus hr hts ⟨fs, hfs, hreads⟩
    refine ⟨(x :: xs).map .literal ++ fs, ?_, (Write.literals nesting _).append hreads⟩
    rw [hus.reads b previous ts (hts.detached hroot hopens hr), hfs, front_unspaced]
    simp
  have hlater : ∀ (ps : Resolved) {r : Resolved},
      (∀ p ∈ (ps ++ r).getLast?, p.isCombinator = false) → ∀ p ∈ r.getLast?, p.isCombinator = false :=
    fun _ _ h p hp => h p (List.mem_getLast?_append_of_mem_getLast? hp)
  induction h generalizing previous with
  | nil =>
    refine ⟨[], ?_, rfl, List.forall_mem_nil _, fun _ => List.not_mem_nil⟩
    rw [fragmentsAfter]
    rfl
  | @stretch b us x xs r ts stretch opens rest ih =>
    have hnext := halternates.infix (List.suffix_append _ _).isInfix
    obtain ⟨fs, hfs, hreads⟩ := hstretch previous b stretch opens rest
      (ih hnext (hlater _ hends) fun p _ _ => ⟨rfl, fun _ => Option.some_ne_none _⟩)
    refine ⟨fs, hfs, ?_⟩
    rwa [write_append, write_literals]
  | @root b r ts opens rest ih =>
    have hnext := halternates.infix (List.suffix_cons _ _).isInfix
    obtain ⟨fs, hfs, hreads⟩ := hstretch previous b hroot opens rest
      (ih hnext (hlater [.root] hends) fun p _ _ => ⟨rfl, fun _ => Option.some_ne_none _⟩)
    refine ⟨fs, hfs, ?_⟩
    rwa [List.flatten_singleton] at hreads
  | @marker b r ts nests rest ih =>
    have hnext := halternates.infix (List.suffix_cons _ _).isInfix
    have hrest : ∃ fs, fragmentsAfter (some .marker) ts = .ok (front (some .marker) false r ++ fs) ∧
        Write nesting (r.write (join root)) fs :=
      ih hnext (hlater [.literal ['&']] hends) fun p _ _ => ⟨rfl, fun _ => Option.some_ne_none _⟩
    obtain ⟨fs, hfs, hreads⟩ := hrest
    rw [front_unspaced] at hfs
    refine ⟨.marker :: fs, ?_, (Write.marker nests).append hreads⟩
    rw [fragmentsAfter, if_neg (by rintro ⟨⟩), if_pos (by rfl), hfs]
    rfl
  | @descendant b r ts rest ih =>
    obtain ⟨hbefore, hdescendant⟩ := hfirst _ rfl rfl
    obtain ⟨q, rfl⟩ := Option.ne_none_iff_exists'.1 (hdescendant rfl)
    -- the white space that is read as this combinator is in front of the next part
    obtain ⟨p, r, rfl⟩ := List.exists_cons_of_ne_nil (l := r) (by
      rintro rfl
      cases hends _ rfl)
    have hp : p.isCombinator = false :=
      (List.isChain_cons_cons.1 halternates).1.resolve_left (by rintro ⟨⟩)
    have hnext := halternates.infix (List.suffix_cons _ _).isInfix
    have hrest : ∃ fs, fragmentsAfter (some q) ts = .ok (front (some q) true (p :: r) ++ fs) ∧
        Write nesting (write (join root) (p :: r)) fs := by
      refine ih hnext (hlater [.combinator .descendant] hends) fun p' hp' hcombinator => ?_
      cases hp'
      rw [hp] at hcombinator
      cases hcombinator
    obtain ⟨fs, hfs, hreads⟩ := hrest
    have hq : q.isCombinator = false := hbefore
    have hlead : lead (some q) true = [.combinator .descendant] := by simp [lead, hq]
    rw [front_of_not hp, hlead] at hfs
    exact ⟨.combinator .descendant :: fs, hfs, (Write.combinator nesting .descendant).append hreads⟩
  | @sign b c r ts hc rest ih =>
    obtain ⟨hbefore, -⟩ := hfirst _ rfl rfl
    obtain ⟨p, r, rfl⟩ := List.exists_cons_of_ne_nil (l := r) (by
      rintro rfl
      cases hends _ rfl)
    have hp : p.isCombinator = false :=
      (List.isChain_cons_cons.1 halternates).1.resolve_left (by rintro ⟨⟩)
    have hnext := halternates.infix (List.suffix_cons _ _).isInfix
    have hlast := hlater [.combinator c] hends
    have hrest : ∃ fs, fragmentsAfter (some (.combinator c)) ts =
        .ok (front (some (.combinator c)) true (p :: r) ++ fs) ∧
        Write nesting (write (join root) (p :: r)) fs := by
      refine ih hnext hlast fun p' hp' hcombinator => ?_
      cases hp'
      rw [hp] at hcombinator
      cases hcombinator
    obtain ⟨fs, hfs, hreads⟩ := hrest
    have hne : ts ≠ [] := by
      obtain ⟨u, hu⟩ : ∃ u, u ∈ (p :: r).getLast? := ⟨_, rfl⟩
      exact rest.ne_nil hroot ⟨u, hu, hlast u hu⟩
    have hsign : Combinator.ofToken ⟨.punct, [c.sign], [c.sign], place, true⟩ = c := by
      cases c with
      | descendant => exact absurd rfl hc
      | _ => rfl
    have hcombinator : Token.isCombinator ⟨.punct, [c.sign], [c.sign], place, true⟩ = true := by
      cases c with
      | descendant => exact absurd rfl hc
      | _ => rfl
    refine ⟨.combinator c :: fs, ?_, (Write.combinator nesting c).append hreads⟩
    rw [fragmentsAfter, if_pos hcombinator, if_neg (by simp [hbefore]), if_neg (by simpa using hne),
      hsign]
    simp only [hfs, front_of_not hp]
    rfl

/-- Only a selector that begins so has the sign of an at-rule as its first token. -/
theorem begins (h : Spells place root nesting b r ts)
    (hroot : Token.IsStretch place root [join root])
    (hr : r.head? ≠ some (.combinator .descendant)) :
    ∀ t ∈ ts.head?, t.isMark '@' = true → (r.write (join root)).head? = some '@' := by
  have hled : ∀ {us : List Token} {b : Bool} {ts : List Token} {z : Text}, us ≠ [] →
      ∀ t ∈ (led b us ++ ts).head?, t.isMark '@' = true → (join us ++ z).head? = some '@' := by
    intro us b ts z hne t ht hsign
    obtain ⟨u, hu, rfl⟩ := Token.mem_head?_led hne ht
    obtain ⟨u', us, rfl⟩ := List.exists_cons_of_ne_nil hne
    obtain rfl : u' = u := Option.some.inj hu
    have hsign : u'.isMark '@' = true := hsign
    simp only [Token.isMark, Bool.and_eq_true, decide_eq_true_eq] at hsign
    rw [join, hsign.2]
    rfl
  cases h with
  | nil => rintro t ⟨⟩
  | stretch stretch _ _ =>
    rw [write_append, write_literals, ← stretch.text]
    exact hled stretch.ne_nil
  | root _ _ => exact hled hroot.ne_nil
  | marker _ _ =>
    rintro t ⟨⟩ ⟨⟩
  | descendant _ => exact absurd rfl hr
  | @sign _ c _ _ hc _ =>
    rintro t ⟨⟩ hsign
    cases c with
    | descendant => exact absurd rfl hc
    | _ => cases hsign

end Spells

end Resolved

/-! ### Selectors -/

/-- Tokens that are read as one selector of the text `x`. -/
structure Token.Selects (nesting : Bool) (x : Text) (ts : List Token) : Prop where
  closed : through 0 ts = some 0
  reads : ∃ fs, fragmentsAfter none ts = .ok fs ∧ Fragment.Write nesting x fs
  begins : ∃ t ∈ ts.head?, t.isMark '@' = true → x.head? = some '@'

/-- A text that is read as a selector wherever it is put. -/
def Text.IsSelector (place : Location) (nesting : Bool) (x : Text) : Prop :=
  ∀ w z : Text, (∀ c ∈ w, isSpace c = true) → z.Apart → ∃ ts w', (∀ c ∈ w', isSpace c = true) ∧
    Yields place (w ++ (x ++ z)) ts (w' ++ z) ∧ Token.Selects nesting x ts

theorem Resolved.Written.isSelector {place : Location} {root : List Token} {nesting : Bool}
    {r : Resolved} (h : r.Written place root nesting)
    (hroot : Token.IsStretch place root [join root]) (hopens : (join root).opens = true)
    (halternates : r.Alternates) : (r.write (join root)).IsSelector place nesting := by
  intro w z hw hz
  obtain ⟨ts, hts⟩ := h.spelled (!w.isEmpty)
  obtain ⟨w', hw', hyields⟩ := hts.yields hroot hopens hw rfl hz
  have hends : ∀ p ∈ r.getLast?, p.isCombinator = false := by
    obtain ⟨p, hp, hcombinator⟩ := h.ends
    intro q hq
    rwa [← Option.mem_unique hp hq]
  refine ⟨ts, w', hw', hyields, hts.through hroot, ?_, ?_⟩
  · have hread : ∃ fs, fragmentsAfter none ts = .ok (front none (!w.isEmpty) r ++ fs) ∧
        Fragment.Write nesting (r.write (join root)) fs :=
      hts.exists_fragments hroot hopens halternates hends
        fun p hp _ => ⟨rfl, fun heq => absurd (heq ▸ hp) h.begins⟩
    simpa [front, lead] using hread
  · obtain ⟨t, ts, rfl⟩ := List.exists_cons_of_ne_nil (hts.ne_nil hroot h.ends)
    exact ⟨t, rfl, hts.begins hroot h.begins t rfl⟩

/-! ### No selector begins as an at-rule does -/

/-- The text of a selector begins, and not as an at-rule does. -/
def Resolved.Leads (root : Text) (r : Resolved) : Prop := ∃ c ∈ (r.write root).head?, c ≠ '@'

namespace Selector

variable {root : Text} {parent : Resolved} {s : Selector}

theorem leads_append {r r' : Resolved} (h : r.Leads root) : (r ++ r').Leads root := by
  obtain ⟨c, hc, hne⟩ := h
  refine ⟨c, ?_, hne⟩
  rw [Resolved.write_append]
  exact List.mem_head?_append_of_mem_head? hc

theorem Leads.substitute (hs : s.Leads) (hparent : parent.Leads root) :
    (s.substitute parent).Leads root := by
  unfold Leads at hs
  unfold Selector.substitute
  generalize s.fragments = fs at hs
  have htext : ∀ {x : Text} {fs : List Fragment} {r : Resolved},
      (∃ c ∈ (x ++ Fragment.render fs).head?, c ≠ '@') →
      ((∃ c ∈ (Fragment.render fs).head?, c ≠ '@') → r.Leads root) →
      ∃ c ∈ (x ++ r.write root).head?, c ≠ '@' := by
    intro x fs r hx hr
    cases x with
    | nil => exact hr hx
    | cons d x => exact hx
  induction fs with
  | nil =>
    obtain ⟨c, hc, -⟩ := hs
    cases hc
  | cons f fs ih =>
    cases f with
    | marker => exact leads_append hparent
    | literal x => exact htext hs ih
    | placeholder p => exact htext hs ih
    | combinator c => exact htext hs ih

theorem Leads.nest (hs : s.Leads) (hparent : parent.Leads root) : (s.nest parent).Leads root := by
  unfold Selector.nest
  split
  · exact hs.substitute hparent
  split
  · exact leads_append hparent
  · exact leads_append hparent

theorem Leads.qualify {scope : Scope} {r : Resolved} (hs : s.Leads)
    (hroot : ∃ c ∈ root.head?, c ≠ '@') (h : s.qualify scope = .ok r) : r.Leads root := by
  obtain ⟨d, hd, hne⟩ := hroot
  have hone : Resolved.Leads root [.root] := ⟨d, List.mem_head?_append_of_mem_head? hd, hne⟩
  by_cases hmarker : scope.className.isNone = true ∨ s.hasMarker = true
  · rw [Selector.qualify, if_pos (by simpa using hmarker)] at h
    cases h
    exact hs.substitute hone
  · simp only [not_or, Bool.not_eq_true] at hmarker
    obtain ⟨before, after, ⟨rest, hrest⟩, -, rfl⟩ := exists_of_qualify hmarker.1 hmarker.2 h
    obtain ⟨c, hc, hne⟩ := hs
    rw [← hrest, Fragment.render, List.flatMap_append] at hc
    unfold Resolved.Leads
    rw [Resolved.write_append, Resolved.write_parts]
    cases hbefore : Fragment.render before with
    | nil => exact leads_append (r := [.root]) hone
    | cons e x =>
      refine ⟨c, ?_, hne⟩
      rw [Fragment.render] at hbefore
      rwa [hbefore] at hc

theorem leads_resolveAll {scope : Scope} {context resolved : List Resolved} {inScope : Bool}
    {selectors : List Selector} (hs : ∀ s ∈ selectors.head?, s.Leads)
    (hcontext : ∀ r ∈ context.head?, r.Leads root) (hroot : ∃ c ∈ root.head?, c ≠ '@')
    (h : resolveAll scope context inScope selectors = .ok resolved) :
    ∀ r ∈ resolved.head?, r.Leads root := by
  unfold resolveAll at h
  split at h
  · cases h
    split
    · exact hcontext
    split
    · obtain ⟨d, hd, hne⟩ := hroot
      rintro r ⟨⟩
      exact ⟨d, List.mem_head?_append_of_mem_head? hd, hne⟩
    · exact nofun
  obtain ⟨s, ss, rfl⟩ := List.exists_cons_of_ne_nil (by simpa using ‹¬selectors.isEmpty = true›)
  have hs := hs s rfl
  split at h
  · obtain ⟨parent, context, rfl⟩ := List.exists_cons_of_ne_nil
      (l := context) (by simpa using ‹(!context.isEmpty) = true›)
    cases h
    rintro r ⟨⟩
    exact hs.nest (hcontext parent rfl)
  split at h
  · obtain ⟨r, rs, hr, -, rfl⟩ := List.forall₂_cons_left_iff.1 (mapM_eq_ok.1 h)
    rintro _ ⟨⟩
    exact hs.qualify hroot hr
  · cases h
    rintro r ⟨⟩
    exact hs.substitute ⟨'&', rfl, by decide⟩

end Selector

/-! ### Style sheets -/

/-- A declaration that is read back from its texts. -/
def Text.IsDeclaration (place : Location) (d : Text × Text) : Prop :=
  ∃ key vs, Token.IsWord place key ∧ Token.IsValue place vs ∧ d = (key.text, Token.join vs)

/-- The head of an at-rule of this kind, which is read back from its text. -/
def Text.IsPrelude (place : Location) (kind : AtRuleKind) (x : Text) : Prop :=
  ∃ name cs, Token.IsWord place name ∧ Token.IsCondition place cs ∧ kind = .ofName name.text ∧
    x = AtRule.preludeOf name.text (Token.join cs)

mutual

def FlatItem.Legible (place : Location) (inScope : Bool) : FlatItem → Prop
  | .rule selectors declarations =>
    (inScope = true → selectors ≠ []) ∧ (∀ x ∈ selectors, x.IsSelector place (!inScope)) ∧
      (∀ x ∈ selectors.head?, x.head? ≠ some '@') ∧ declarations ≠ [] ∧
      ∀ d ∈ declarations, Text.IsDeclaration place d
  | .atRule prelude items => ∃ kind, prelude.IsPrelude place kind ∧
    (kind.isScoped = true → items ≠ []) ∧
      Stylesheet.Legible place (inScope && kind.isScoped) items

/-- Every piece of a style sheet is read back from its text, and none is empty that would then be
dropped. Out of scope selectors may have markers, and declarations may stand by themselves. -/
def Stylesheet.Legible (place : Location) (inScope : Bool) : Stylesheet → Prop
  | [] => True
  | i :: is => i.Legible place inScope ∧ Stylesheet.Legible place inScope is

end

theorem Stylesheet.legible_append {place : Location} {inScope : Bool} {s t : Stylesheet} :
    Stylesheet.Legible place inScope (s ++ t) ↔
      Stylesheet.Legible place inScope s ∧ Stylesheet.Legible place inScope t := by
  induction s with
  | nil => simp [Stylesheet.Legible]
  | cons i s ih => simp [Stylesheet.Legible, ih, and_assoc]

/-- Whether selectors can be put where they are resolved, and no two combinators come together
there. -/
def Selector.joinsApart (scope : Scope) (context : List Resolved) (inScope : Bool)
    (selectors : List Selector) : Bool :=
  JoinAll scope context inScope selectors ∧
    ∀ resolved ∈ (resolveAll scope context inScope selectors).toOption, ∀ r ∈ resolved, r.Alternates

theorem Declaration.Stands.isDeclaration {place : Location} {d : Declaration} {texts : Text × Text}
    (h : d.Stands place) (hresolve : d.resolve = .ok texts) : Text.IsDeclaration place texts := by
  obtain ⟨key, vs, hkey, hvalue, hfst, hsnd⟩ := h
  refine ⟨key, vs, hkey, hvalue, ?_⟩
  rw [resolve, hfst, hsnd, Fragment.resolveAll_ofText] at hresolve
  exact (Except.ok.inj hresolve).symm

theorem Resolved.eq_write_of_text {root x : Text} {r : Resolved} (h : r.text root = .ok x) :
    x = r.write root := by
  obtain ⟨texts, htexts, rfl⟩ := map_eq_ok.1 h
  have hparts : ∀ (p : ResolvedPart) (y : Text), p.text root = .ok y → y = p.write root := by
    intro p y hy
    cases p <;> cases hy <;> rfl
  rw [eq_map_of_mapM hparts htexts]
  rfl

section Legible

variable {place : Location} {scope : Scope} {root : List Token} {inScope : Bool}

theorem FlatItem.legible_ofRule (hroot : Token.IsStretch place root [join root])
    (hopens : (join root).opens = true) (hscope : join root = scope.root)
    {resolved : List Resolved} {declarations : List (Text × Text)} {out : Stylesheet}
    (hne : inScope = true → resolved ≠ [])
    (hwritten : ∀ r ∈ resolved, r.Written place root (!inScope) ∧ r.Alternates)
    (hleads : ∀ r ∈ resolved.head?, r.Leads (join root))
    (hdeclarations : ∀ d ∈ declarations, Text.IsDeclaration place d)
    (h : FlatItem.ofRule scope resolved declarations = .ok out) :
    Stylesheet.Legible place inScope out := by
  obtain ⟨-, rfl⟩ | ⟨hsome, texts, htexts, rfl⟩ := FlatItem.ofRule_eq_ok.1 h
  · trivial
  rw [← hscope] at htexts
  have htexts := eq_map_of_mapM (fun r x => Resolved.eq_write_of_text) htexts
  subst htexts
  refine ⟨⟨fun hin => ?_, fun x hx => ?_, fun x hx => ?_, hsome, hdeclarations⟩, trivial⟩
  · simpa using hne hin
  · obtain ⟨r, hr, rfl⟩ := List.mem_map.1 hx
    exact (hwritten r hr).1.isSelector hroot hopens (hwritten r hr).2
  · cases resolved with
    | nil => cases hx
    | cons r rs =>
      cases hx
      obtain ⟨c, hc, hne⟩ := hleads r rfl
      rw [Option.mem_def.1 hc]
      simpa using hne

theorem FlatItem.legible_ofAtRule {head : AtRule} {items out : Stylesheet}
    (hhead : head.Stands place)
    (hitems : Stylesheet.Legible place (inScope && head.kind.isScoped) items)
    (h : FlatItem.ofAtRule head items = .ok out) : Stylesheet.Legible place inScope out := by
  obtain ⟨-, rfl⟩ | ⟨hkept, condition, hcondition, rfl⟩ := FlatItem.ofAtRule_eq_ok.1 h
  · trivial
  obtain ⟨name, cs, hname, hcs, hnames, hkind, hfragments⟩ := hhead
  rw [hfragments, Fragment.resolveAll_ofText] at hcondition
  cases hcondition
  exact ⟨⟨head.kind, ⟨name, cs, hname, hcs, hkind, by rw [hnames]⟩,
    fun hscoped hnil => hkept ⟨hnil, hscoped⟩, hitems⟩, trivial⟩

mutual

theorem Content.legible_flatten (hroot : Token.IsStretch place root [join root])
    (hopens : (join root).opens = true) (hleads : ∃ c ∈ (join root).head?, c ≠ '@')
    (hscope : join root = scope.root) :
    ∀ {context : List Resolved} {inScope : Bool} {c : Content} {out : Stylesheet},
      (∀ r ∈ context, r.Written place root (!inScope)) →
      (∀ r ∈ context.head?, r.Leads (join root)) →
      c.All (fun ss => (∀ s ∈ ss, s.Stands place) ∧ ∀ s ∈ ss.head?, s.Leads)
        (fun d => d.isDangling = false → d.Stands place) (·.Stands place) →
      c.eachRule scope (Selector.joinsApart scope) context inScope = true →
      c.flatten scope context inScope = .ok out → Stylesheet.Legible place inScope out
  | context, inScope, .rule selectors declarations nested location, out, hwritten, hfirst, hall,
      hjoins, h => by
    obtain ⟨resolved, texts, own, below, hresolved, htexts, hown, hbelow, rfl⟩ :=
      Content.flatten_rule_eq_ok.1 h
    obtain ⟨⟨hstands, hsigns⟩, hdeclarations, hnested⟩ := hall
    simp only [Content.eachRule, hresolved, Bool.and_eq_true, Selector.joinsApart,
      decide_eq_true_eq] at hjoins
    obtain ⟨⟨hjoin, halternates⟩, hjoins⟩ := hjoins
    have hw := Selector.written_resolveAll hstands hwritten hjoin hresolved
    have hl := Selector.leads_resolveAll hsigns hfirst hleads hresolved
    refine Stylesheet.legible_append.2 ⟨?_, ?_⟩
    · refine FlatItem.legible_ofRule hroot hopens hscope ?_ ?_ hl ?_ hown
      · rintro rfl
        exact Selector.resolveAll_ne_nil hresolved
      · exact fun r hr => ⟨hw r hr, halternates resolved rfl r hr⟩
      · intro d hd
        obtain ⟨e, he, hresolve⟩ := exists_of_mem_mapM htexts hd
        obtain ⟨hmem, hsound⟩ := List.mem_filter.1 he
        exact (hdeclarations e hmem (by simpa using hsound)).isDeclaration hresolve
    · exact Sheet.legible_flattenIn hroot hopens hleads hscope hw hl hnested hjoins hbelow
  | context, inScope, .atRule head body, out, hwritten, hfirst, hall, hjoins, h => by
    obtain ⟨items, hitems, hout⟩ := Content.flatten_atRule_eq_ok.1 h
    refine FlatItem.legible_ofAtRule hall.1 ?_ hout
    rw [Content.eachRule, Bool.and_comm] at hjoins
    cases hin : inScope && head.kind.isScoped with
    | true =>
      simp only [hin, if_true] at hitems hjoins
      obtain ⟨rfl, -⟩ := Bool.and_eq_true_iff.1 hin
      exact Sheet.legible_flattenIn hroot hopens hleads hscope hwritten hfirst hall.2 hjoins hitems
    | false =>
      simp only [hin, Bool.false_eq_true, if_false] at hitems hjoins
      exact Sheet.legible_flattenIn hroot hopens hleads hscope (List.forall_mem_nil _) nofun hall.2
        hjoins hitems

/-- What a sheet flattens to is read back piece by piece, if the pieces of the sheet can be written
down again and come to stand side by side only where they can. -/
theorem Sheet.legible_flattenIn (hroot : Token.IsStretch place root [join root])
    (hopens : (join root).opens = true) (hleads : ∃ c ∈ (join root).head?, c ≠ '@')
    (hscope : join root = scope.root) :
    ∀ {context : List Resolved} {inScope : Bool} {s : Sheet} {out : Stylesheet},
      (∀ r ∈ context, r.Written place root (!inScope)) →
      (∀ r ∈ context.head?, r.Leads (join root)) →
      Sheet.All (fun ss => (∀ s ∈ ss, s.Stands place) ∧ ∀ s ∈ ss.head?, s.Leads)
        (fun d => d.isDangling = false → d.Stands place) (·.Stands place) s →
      s.eachRule scope (Selector.joinsApart scope) context inScope = true →
      Sheet.flattenIn scope context inScope s = .ok out → Stylesheet.Legible place inScope out
  | _, _, [], _, _, _, _, _, h => by
    cases h
    trivial
  | context, inScope, c :: cs, out, hwritten, hfirst, hall, hjoins, h => by
    obtain ⟨first, others, hc, hcs, rfl⟩ := Sheet.flattenIn_cons_eq_ok.1 h
    rw [Sheet.eachRule, Bool.and_eq_true] at hjoins
    exact Stylesheet.legible_append.2
      ⟨Content.legible_flatten hroot hopens hleads hscope hwritten hfirst hall.1 hjoins.1 hc,
        Sheet.legible_flattenIn hroot hopens hleads hscope hwritten hfirst hall.2 hjoins.2 hcs⟩

end

end Legible

end ScopedCss
