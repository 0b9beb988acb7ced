/-
Stretches of a selector. Simple selectors that stand side by side are read back as they were written
(`Token.IsStretch`), wherever they are put, and those of a source do (`Selector.exists_isStretch`).
-/
import ScopedCss.Proofs.Selector.Reading
import ScopedCss.Proofs.Selector.Simple

namespace ScopedCss

namespace Selector

open Token (through led join)

/-- The descendant combinator that white space stands for after the fragment `previous`. -/
def lead (previous : Option Fragment) (spaced : Bool) : List Fragment :=
  match previous with
  | none => []
  | some p => if spaced && !p.isCombinator then [.combinator .descendant] else []

theorem through_tail {t : Token} {ts : List Token} {d : Nat} (h : through 0 (t :: ts) = some d)
    (hopen : t.isOpener = false) : through 0 ts = some d := by
  obtain ⟨ho, -⟩ | ⟨-, -, hdepth, -⟩ | ⟨-, -, -, hts⟩ := Token.through_cons_eq_some h
  · rw [hopen] at ho
    cases ho
  · exact absurd rfl hdepth
  · exact hts

theorem gap_eq (previous : Option Fragment) (t : Token) :
    gap previous t = lead previous t.spaced := rfl

theorem isCombinator_of_mem_lead {previous : Option Fragment} {b : Bool} {f : Fragment}
    (h : f ∈ lead previous b) : f.isCombinator = true := by
  cases previous with
  | none => cases h
  | some p =>
    rw [lead] at h
    split at h
    · rw [List.mem_singleton.1 h]
      rfl
    · cases h

/-- All that counts about the fragment before is whether it is a combinator. -/
theorem fragmentsAfter_congr {p q : Fragment} (h : p.isCombinator = q.isCombinator)
    (ts : List Token) : fragmentsAfter (some p) ts = fragmentsAfter (some q) ts := by
  cases ts with
  | nil => simp only [fragmentsAfter]
  | cons t ts => simp only [fragmentsAfter, gap_eq, lead, Option.any_some, h]

theorem fragmentsAfter_literal (x : Text) (ts : List Token) :
    fragmentsAfter (some (.literal x)) ts = fragmentsAfter (some .marker) ts :=
  fragmentsAfter_congr (p := .literal x) (q := .marker) rfl ts

/-- How a simple selector begins. -/
def startsSimple (t : Token) : Prop :=
  t.isCombinator = false ∧ t.isMark '&' = false ∧ t.kind ≠ .placeholder

theorem fragmentsAfter_simple {t : Token} {us rest : List Token} (hstarts : startsSimple t)
    (hlength : simpleLength t (us ++ rest) = .ok us.length) (previous : Option Fragment) :
    fragmentsAfter previous (t :: (us ++ rest)) =
      (lead previous t.spaced ++ .literal (join (t :: us)) :: ·) <$>
        fragmentsAfter (some .marker) rest := by
  obtain ⟨hcombinator, hmarker, hkind⟩ := hstarts
  rw [fragmentsAfter, if_neg (by simp [hcombinator]), if_neg (by simp [hmarker]), if_neg hkind,
    hlength]
  simp only [List.take_left, List.drop_left, gap_eq]
  rw [fragmentsAfter_literal]

/-- A selector that begins with a simple selector. -/
theorem exists_of_literal {previous : Option Fragment} {ts : List Token} {x : Text}
    {fs : List Fragment} (h : fragmentsAfter previous ts = .ok (.literal x :: fs))
    (hthrough : through 0 ts = some 0) :
    ∃ t us rest, ts = t :: (us ++ rest) ∧ startsSimple t ∧ lead previous t.spaced = [] ∧
      x = join (t :: us) ∧ through 0 (t :: us) = some 0 ∧ through 0 rest = some 0 ∧
      fragmentsAfter (some .marker) rest = .ok fs ∧
      ∀ t' : Token, t'.kind = t.kind → t'.text = t.text → ∀ more,
        (Detached rest → Detached more) → simpleLength t' (us ++ more) = .ok us.length := by
  have hlead : ∀ {b : Bool} {f : Fragment} {rest : List Fragment},
      .literal x :: fs = lead previous b ++ f :: rest →
      lead previous b = [] ∧ f = .literal x ∧ rest = fs := by
    intro b f rest heq
    cases hl : lead previous b with
    | nil =>
      rw [hl] at heq
      obtain ⟨rfl, rfl⟩ := List.cons.inj heq
      exact ⟨rfl, rfl, rfl⟩
    | cons g gs =>
      have hg := isCombinator_of_mem_lead (f := g) (hl ▸ List.mem_cons_self)
      rw [hl] at heq
      rw [← (List.cons.inj heq).1] at hg
      cases hg
  cases ts with
  | nil =>
    rw [fragmentsAfter] at h
    cases h
  | cons t ts =>
    rw [fragmentsAfter] at h
    split at h
    · split at h
      · cases h
      split at h
      · cases h
      · obtain ⟨rest, -, heq⟩ := map_eq_ok.1 h
        cases heq
    rename_i hcombinator
    split at h
    · obtain ⟨rest, -, heq⟩ := map_eq_ok.1 h
      cases (hlead heq).2.1
    rename_i hmarker
    split at h
    · obtain ⟨rest, -, heq⟩ := map_eq_ok.1 h
      cases (hlead heq).2.1
    rename_i hkind
    split at h
    · cases h
    · rename_i n hlength
      obtain ⟨rest, hrest, heq⟩ := map_eq_ok.1 h
      obtain ⟨hgap, hx, rfl⟩ := hlead heq
      obtain ⟨us, later, rfl, rfl, hclosed, hcount⟩ :=
        exists_of_simpleLength hlength (by rw [hthrough]; exact Option.some_ne_none _)
      rw [List.take_left] at hx
      rw [List.drop_left, fragmentsAfter_literal] at hrest
      have hlater : through 0 later = some 0 := by
        rw [← List.cons_append, Token.through_append, hclosed] at hthrough
        exact hthrough
      refine ⟨t, us, later, rfl, ⟨?_, ?_, hkind⟩, hgap, ?_, hclosed, hlater, hrest, hcount⟩
      · simpa using hcombinator
      · simpa using hmarker
      · exact (Fragment.literal.inj hx).symm

/-- A selector that begins with some simple selectors. -/
theorem exists_of_literals {previous : Option Fragment} {ts : List Token} {x : Text}
    {xs : List Text} {fs : List Fragment}
    (h : fragmentsAfter previous ts = .ok ((x :: xs).map .literal ++ fs))
    (hthrough : through 0 ts = some 0) :
    ∃ t us rest, ts = t :: us ++ rest ∧ lead previous t.spaced = [] ∧
      through 0 (t :: us) = some 0 ∧ join (t :: us) = (x :: xs).flatten ∧
      ∀ b previous more, (Detached rest → Detached more) →
        fragmentsAfter previous (led b (t :: us) ++ more) =
          (lead previous b ++ (x :: xs).map .literal ++ ·) <$>
            fragmentsAfter (some .marker) more := by
  induction xs generalizing previous ts x with
  | nil =>
    obtain ⟨t, us, rest, rfl, hstarts, hlead, rfl, hclosed, -, -, hcount⟩ :=
      exists_of_literal h hthrough
    refine ⟨t, us, rest, rfl, hlead, hclosed, by simp, fun b previous more hmore => ?_⟩
    have hlength := hcount { t with spaced := b } rfl rfl more hmore
    simpa [led, join] using fragmentsAfter_simple (t := { t with spaced := b }) hstarts hlength previous
  | cons y xs ih =>
    obtain ⟨t, us, rest, rfl, hstarts, hlead, rfl, hclosed, hthrough, hrest, hcount⟩ :=
      exists_of_literal h hthrough
    obtain ⟨u, vs, rest, rfl, hunspaced, hclosed', hjoin, hreads⟩ := ih hrest hthrough
    have hu : u.spaced = false := by simpa [lead, Fragment.isCombinator] using hunspaced
    refine ⟨t, us ++ u :: vs, rest, by simp, hlead, ?_, ?_, fun b previous more hmore => ?_⟩
    · rw [← List.cons_append, Token.through_append, hclosed]
      exact hclosed'
    · rw [List.flatten_cons, ← hjoin]
      simp [join, Token.trailing, hu]
    · have hlength := hcount { t with spaced := b } rfl rfl (u :: vs ++ more) fun hdetached => hdetached
      have hmore' := hreads false (some .marker) more hmore
      rw [Token.led_cons_self hu] at hmore'
      have hsimple := fragmentsAfter_simple (t := { t with spaced := b }) hstarts hlength previous
      rw [hmore', ← comp_map] at hsimple
      simpa [led, join, lead, Function.comp_def] using hsimple

/-- Whatever a selector begins with, it goes on as a selector at each of its simple selectors. -/
theorem exists_of_literal_suffix {previous : Option Fragment} {ts : List Token}
    (hthrough : through 0 ts = some 0) :
    ∀ {fs : List Fragment}, fragmentsAfter previous ts = .ok fs → ∀ {x : Text} {gs : List Fragment},
      .literal x :: gs <:+ fs →
      ∃ us, us <:+ ts ∧ through 0 us = some 0 ∧ fragmentsAfter none us = .ok (.literal x :: gs) := by
  -- what is not a literal is passed over
  have hpass : ∀ (ps : List Fragment) {fs : List Fragment} {x : Text} {gs : List Fragment},
      .literal x :: gs <:+ ps ++ fs → (∀ p ∈ ps, p ≠ .literal x) → .literal x :: gs <:+ fs := by
    intro ps fs x gs hsuffix hps
    induction ps with
    | nil => exact hsuffix
    | cons p ps ih =>
      obtain ⟨hp, hps⟩ := List.forall_mem_cons.1 hps
      rcases List.suffix_cons_iff.1 hsuffix with heq | hsuffix
      · exact absurd (List.cons.inj heq).1.symm hp
      · exact ih hsuffix hps
  have hlead : ∀ {previous : Option Fragment} {b : Bool} {x : Text}, ∀ p ∈ lead previous b,
      p ≠ .literal x := by
    rintro previous b x p hp rfl
    cases isCombinator_of_mem_lead hp
  fun_induction fragmentsAfter previous ts with
  | case1 =>
    intro fs h x gs hsuffix
    cases h
    cases List.suffix_nil.1 hsuffix
  | case2 =>
    intro fs h
    cases h
  | case3 =>
    intro fs h
    cases h
  | case4 previous t ts hmark _ _ fragment ih =>
    intro fs h x gs hsuffix
    obtain ⟨rest, hrest, rfl⟩ := map_eq_ok.1 h
    have hopen : t.isOpener = false := by
      simp only [Token.isCombinator, Bool.or_eq_true] at hmark
      rcases hmark with (hmark | hmark) | hmark <;> simp [Token.isOpener, Token.isMark_eq hmark]
    obtain ⟨us, hus, hreads⟩ :=
      ih (through_tail hthrough hopen) hrest (hpass [fragment] hsuffix (by simp [fragment]))
    exact ⟨us, hus.trans (List.suffix_cons t ts), hreads⟩
  | case5 previous t ts _ hmarker ih =>
    intro fs h x gs hsuffix
    obtain ⟨rest, hrest, rfl⟩ := map_eq_ok.1 h
    have hopen : t.isOpener = false := by simp [Token.isOpener, Token.isMark_eq hmarker]
    obtain ⟨us, hus, hreads⟩ := ih (through_tail hthrough hopen) hrest
      (hpass [.marker] (hpass _ hsuffix hlead) (by simp))
    exact ⟨us, hus.trans (List.suffix_cons t ts), hreads⟩
  | case6 previous t ts _ _ hkind fragment ih =>
    intro fs h x gs hsuffix
    obtain ⟨rest, hrest, rfl⟩ := map_eq_ok.1 h
    have hopen : t.isOpener = false := by
      simp [Token.isOpener, Token.isMark_of_kind (t := t) (by rw [hkind]; decide)]
    obtain ⟨us, hus, hreads⟩ := ih (through_tail hthrough hopen) hrest
      (hpass [fragment] (hpass _ hsuffix hlead) (by simp [fragment]))
    exact ⟨us, hus.trans (List.suffix_cons t ts), hreads⟩
  | case7 =>
    intro fs h
    cases h
  | case8 previous t ts hcombinator hmarker hkind n hsimple fragment ih =>
    intro fs h x gs hsuffix
    obtain ⟨rest, hrest, rfl⟩ := map_eq_ok.1 h
    obtain ⟨us, later, rfl, rfl, hclosed, hcount⟩ :=
      exists_of_simpleLength hsimple (by rw [hthrough]; exact Option.some_ne_none _)
    rw [List.drop_left] at ih hrest
    have hlater : through 0 later = some 0 := by
      rw [← List.cons_append, Token.through_append, hclosed] at hthrough
      exact hthrough
    rcases List.suffix_cons_iff.1 (hpass _ hsuffix hlead) with heq | hsuffix
    · refine ⟨t :: (us ++ later), List.suffix_rfl, hthrough, ?_⟩
      rw [heq, fragmentsAfter_simple ⟨by simpa using hcombinator, by simpa using hmarker, hkind⟩
        hsimple, ← fragmentsAfter_literal, hrest]
      simp [fragment, lead]
    · obtain ⟨vs, hvs, hreads⟩ := ih hlater hrest hsuffix
      exact ⟨vs, hvs.trans ⟨t :: us, rfl⟩, hreads⟩

end Selector

/-- `us` are read back as the simple selectors `xs`, side by side, whatever white space is before
them. -/
structure Token.IsStretch (place : Location) (us : List Token) (xs : List Text) : Prop where
  stand : Stand place us
  closed : through 0 us = some 0
  text : join us = xs.flatten
  reads : ∀ b previous more, Selector.Detached more →
    Selector.fragmentsAfter previous (led b us ++ more) =
      (Selector.lead previous b ++ xs.map .literal ++ ·) <$>
        Selector.fragmentsAfter (some .marker) more

theorem Token.IsStretch.ne_nil {place : Location} {us : List Token} {xs : List Text}
    (h : IsStretch place us xs) : us ≠ [] := by
  rintro rfl
  cases h.stand [' '] [] (by simp [Lexeme.isSpace]) (by decide)

namespace Selector

open Token (through)

/-- The simple selectors of a source, as many of them as stand side by side, can be written down
again. -/
theorem exists_isStretch {place : Location} {previous : Option Fragment} {ts : List Token}
    {fs : List Fragment} (hw : Token.Writable place ts) (hthrough : through 0 ts = some 0)
    (h : fragmentsAfter previous ts = .ok fs) {x : Text} {xs : List Text}
    (hxs : (x :: xs).map .literal <:+: fs) : ∃ us, Token.IsStretch place us (x :: xs) := by
  obtain ⟨before, after, rfl⟩ := hxs
  have hlater : .literal x :: (xs.map .literal ++ after) <:+
      before ++ (x :: xs).map .literal ++ after := ⟨before, by simp⟩
  obtain ⟨ts', hsuffix, hthrough', hreads⟩ := exists_of_literal_suffix hthrough h hlater
  obtain ⟨t, us, rest, rfl, -, hclosed, hjoin, hreads⟩ := exists_of_literals hreads hthrough'
  have hstand : Token.Stand place (t :: us) := by
    refine hw (t :: us) ?_ (List.cons_ne_nil t us) (Token.closed_of_through hclosed)
    exact ((t :: us).prefix_append rest).isInfix.trans hsuffix.isInfix
  exact ⟨t :: us, hstand, hclosed, hjoin, fun b previous more hmore =>
    hreads b previous more fun _ => hmore⟩

/-- A selector does not end with a combinator. -/
theorem isCombinator_getLast {previous : Option Fragment} {ts : List Token} :
    ∀ {fs : List Fragment}, fragmentsAfter previous ts = .ok fs →
      ∀ f ∈ fs.getLast?, f.isCombinator = false := by
  have hcons : ∀ {fs rest : List Fragment} {f : Fragment}, f.isCombinator = false →
      (∀ g ∈ rest.getLast?, g.isCombinator = false) →
      ∀ g ∈ (fs ++ f :: rest).getLast?, g.isCombinator = false := by
    intro fs rest f hf hrest g hg
    rw [List.getLast?_append_cons] at hg
    cases rest with
    | nil =>
      cases hg
      exact hf
    | cons h rest => exact hrest g (by rwa [List.getLast?_cons_cons] at hg)
  fun_induction fragmentsAfter previous ts with
  | case1 =>
    intro fs h
    cases h
    rintro f ⟨⟩
  | case2 =>
    intro fs h
    cases h
  | case3 =>
    intro fs h
    cases h
  | case4 previous t ts _ _ hne fragment =>
    rename_i ih
    intro fs h f hf
    obtain ⟨rest, hrest, rfl⟩ := map_eq_ok.1 h
    obtain ⟨u, ts, rfl⟩ := List.exists_cons_of_ne_nil (by simpa using hne)
    obtain ⟨g, rest, rfl⟩ := List.exists_cons_of_ne_nil (fragmentsAfter_ne_nil hrest)
    exact ih hrest f (by rwa [List.getLast?_cons_cons] at hf)
  | case5 previous t ts _ _ ih =>
    intro fs h
    obtain ⟨rest, hrest, rfl⟩ := map_eq_ok.1 h
    exact hcons rfl (ih hrest)
  | case6 previous t ts _ _ _ fragment =>
    rename_i ih
    intro fs h
    obtain ⟨rest, hrest, rfl⟩ := map_eq_ok.1 h
    exact hcons rfl (ih hrest)
  | case7 =>
    intro fs h
    cases h
  | case8 previous t ts _ _ _ n _ fragment =>
    rename_i ih
    intro fs h
    obtain ⟨rest, hrest, rfl⟩ := map_eq_ok.1 h
    exact hcons rfl (ih hrest)

/-- White space in front of a selector is no combinator. -/
theorem head?_ne_descendant {ts : List Token} {fs : List Fragment}
    (h : fragmentsAfter none ts = .ok fs) : fs.head? ≠ some (.combinator .descendant) := by
  cases ts with
  | nil =>
    rw [fragmentsAfter] at h
    cases h
    rintro ⟨⟩
  | cons t ts =>
    rw [fragmentsAfter] at h
    split at h
    · split at h
      · cases h
      split at h
      · cases h
      · obtain ⟨rest, -, rfl⟩ := map_eq_ok.1 h
        simp only [List.head?_cons, Combinator.ofToken]
        split
        · simp
        · split <;> simp
    split at h
    · obtain ⟨rest, -, rfl⟩ := map_eq_ok.1 h
      rintro ⟨⟩
    split at h
    · obtain ⟨rest, -, rfl⟩ := map_eq_ok.1 h
      rintro ⟨⟩
    split at h
    · cases h
    · obtain ⟨rest, -, rfl⟩ := map_eq_ok.1 h
      rintro ⟨⟩

end Selector

end ScopedCss
