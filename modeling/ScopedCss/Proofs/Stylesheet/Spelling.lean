/-
Resolved selectors spelled out. `Resolved.Spells` says which tokens a selector is made of, piece by
piece: stretches of a source, the root and combinators. Pieces may be put side by side where the
second one opens (`ResolvedPart.opens`): it begins with a character that no lexeme takes in.

A selector that is spelled out yields its tokens (`Spells.yields`), and where its simple selectors can
be put side by side so do the selectors that it is resolved to (`Selector.written_resolveAll`). Whether
they can is a condition on every rule, with the selectors around it (`Sheet.eachRule`).
-/
import ScopedCss.Proofs.Selector.Stretch
import ScopedCss.Proofs.Stylesheet.Flatten

namespace ScopedCss

open Lexeme (isSpace isExtending)

/-- Whether no lexeme in front of a text reaches into it, whatever follows the text. -/
def Text.opens : Text → Bool
  | [] => false
  | c :: t => !isExtending c && (c ≠ '.' || t.head?.any (!·.isDigit))

theorem Text.apart_of_opens {x : Text} (h : x.opens = true) (z : Text) : (x ++ z).Apart := by
  cases x with
  | nil => cases h
  | cons c x =>
    simp only [opens, Bool.and_eq_true, Bool.not_eq_true', ne_eq, Bool.or_eq_true,
      decide_eq_true_eq] at h
    obtain ⟨hc, hx⟩ := h
    refine ⟨hc, ?_⟩
    rw [List.cons_append, Lexeme.startsUnsigned_cons]
    split
    · rename_i hpoint
      cases x with
      | nil => simp [hpoint] at hx
      | cons d x => simpa [hpoint, Lexeme.startsDigit] using hx
    · refine Bool.eq_false_iff.2 fun hdigit => ?_
      simp [isExtending, Lexeme.isIdentPart, hdigit] at hc

theorem Combinator.text_of_sign {c : Combinator} (hc : c ≠ .descendant) :
    c.text = [' ', c.sign, ' '] := by
  cases c with
  | descendant => exact absurd rfl hc
  | _ => rfl

theorem Lexeme.isSpace_sign {c : Combinator} (hc : c ≠ .descendant) : isSpace c.sign = false := by
  cases c with
  | descendant => exact absurd rfl hc
  | _ => rfl

theorem Lexeme.read_sign {c : Combinator} (hc : c ≠ .descendant) (t : Text) :
    Lexeme.read (c.sign :: ' ' :: t) = some (.token .punct [c.sign] [c.sign]) := by
  cases c with
  | descendant => exact absurd rfl hc
  | child => exact Lexeme.read_punct (by decide) _
  | nextSibling => rfl
  | laterSibling => exact Lexeme.read_punct (by decide) _

namespace ResolvedPart

def isCombinator : ResolvedPart → Bool
  | combinator _ => true
  | _ => false

/-- Whether a part can be put right behind any other. -/
def opens : ResolvedPart → Bool
  | root => true
  | literal x => x.opens
  | placeholder _ => false
  | combinator _ => true

/-- What a part is written as. -/
def write (root : Text) : ResolvedPart → Text
  | .root => root
  | literal x => x
  | placeholder p => p.text
  | combinator c => c.text

end ResolvedPart

namespace Resolved

/-- What a selector is written as. -/
def write (root : Text) (r : Resolved) : Text := r.flatMap (·.write root)

@[simp] theorem write_cons (root : Text) (p : ResolvedPart) (r : Resolved) :
    write root (p :: r) = p.write root ++ write root r := rfl

@[simp] theorem write_append (root : Text) (r r' : Resolved) :
    write root (r ++ r') = write root r ++ write root r' := List.flatMap_append

@[simp] theorem write_literals (root : Text) (xs : List Text) :
    write root (xs.map .literal) = xs.flatten := by
  rw [write, List.flatMap_map, List.flatten_eq_flatMap]
  rfl

/-- A selector that can be put right behind another. -/
def Opens (r : Resolved) : Prop := ∀ p ∈ r.head?, p.opens = true

theorem text_eq_write {r : Resolved} (h : r.IsPlain) (root : Text) :
    r.text root = .ok (r.write root) := by
  have hparts : ∀ p ∈ r, p.text root = .ok (p.write root) := by
    intro p hp
    cases p with
    | placeholder p => exact absurd hp (h p)
    | root => rfl
    | literal x => rfl
    | combinator c => rfl
  have hmap : r.mapM (ResolvedPart.text root) = .ok (r.map (·.write root)) := by
    rw [mapM_eq_ok, List.forall₂_map_right_iff, List.forall₂_same]
    exact hparts
  rw [text, hmap, write, List.flatMap]
  rfl

/-- What opens keeps apart from what is in front of it. -/
theorem Opens.apart {r : Resolved} (h : r.Opens) {root : Text} (hroot : root.opens = true)
    {z : Text} (hz : z.Apart) : (r.write root ++ z).Apart := by
  cases r with
  | nil => exact hz
  | cons p r =>
    have hp := h p rfl
    rw [write_cons, List.append_assoc]
    cases p with
    | root => exact Text.apart_of_opens hroot _
    | literal x => exact Text.apart_of_opens hp _
    | placeholder p => cases hp
    | combinator c => cases c <;> exact Text.apart_space _

/-- The tokens that a selector is made of. `root` are those of the scope; `spaced` says whether white
space is in front, and `nesting` whether the selector may have markers. -/
inductive Spells (place : Location) (root : List Token) (nesting : Bool) :
    (spaced : Bool) → Resolved → List Token → Prop
  | nil {b : Bool} : Spells place root nesting b [] []
  | stretch {b : Bool} {us : List Token} {x : Text} {xs : List Text} {r : Resolved}
      {ts : List Token} (stretch : Token.IsStretch place us (x :: xs)) (opens : r.Opens)
      (rest : Spells place root nesting false r ts) :
      Spells place root nesting b ((x :: xs).map .literal ++ r) (Token.led b us ++ ts)
  | root {b : Bool} {r : Resolved} {ts : List Token} (opens : r.Opens)
      (rest : Spells place root nesting false r ts) :
      Spells place root nesting b (.root :: r) (Token.led b root ++ ts)
  | marker {b : Bool} {r : Resolved} {ts : List Token} (nests : nesting = true)
      (rest : Spells place root nesting false r ts) :
      Spells place root nesting b (.literal ['&'] :: r) (⟨.punct, ['&'], ['&'], place, b⟩ :: ts)
  | descendant {b : Bool} {r : Resolved} {ts : List Token}
      (rest : Spells place root nesting true r ts) :
      Spells place root nesting b (.combinator .descendant :: r) ts
  | sign {b : Bool} {c : Combinator} {r : Resolved} {ts : List Token} (hc : c ≠ .descendant)
      (rest : Spells place root nesting true r ts) :
      Spells place root nesting b (.combinator c :: r)
        (⟨.punct, [c.sign], [c.sign], place, true⟩ :: ts)

namespace Spells

variable {place : Location} {root : List Token} {nesting b : Bool} {r : Resolved} {ts : List Token}

/-- A selector that is spelled out yields its tokens; white space may be left over. -/
theorem yields (h : Spells place root nesting b r ts)
    (hroot : Token.IsStretch place root [Token.join root]) (hopens : (Token.join root).opens = true)
    {w z : Text} (hw : ∀ c ∈ w, isSpace c = true) (hb : b = !w.isEmpty) (hz : z.Apart) :
    ∃ w' : Text, (∀ c ∈ w', isSpace c = true) ∧
      Text.Yields place (w ++ (r.write (Token.join root) ++ z)) ts (w' ++ z) := by
  have hpiece : ∀ {us : List Token} {xs : List Text} {r : Resolved} {ts : List Token} {w : Text},
      Token.IsStretch place us xs → r.Opens → (∀ c ∈ w, isSpace c = true) →
      (∃ w' : Text, (∀ c ∈ w', isSpace c = true) ∧
        Text.Yields place (r.write (Token.join root) ++ z) ts (w' ++ z)) →
      ∃ w' : Text, (∀ c ∈ w', isSpace c = true) ∧
        Text.Yields place (w ++ (xs.flatten ++ (r.write (Token.join root) ++ z)))
          (Token.led (!w.isEmpty) us ++ ts) (w' ++ z) := by
    intro us xs r ts w hus hr hw ⟨w', hw', hyields⟩
    refine ⟨w', hw', ?_⟩
    rw [← hus.text]
    exact (hus.stand w _ hw (hr.apart hopens hz)).append hyields
  have hspace : ∀ {w : Text}, (∀ c ∈ w, isSpace c = true) → ∀ c ∈ w ++ [' '], isSpace c = true :=
    fun hw => List.forall_mem_append.2 ⟨hw, List.forall_mem_singleton.2 rfl⟩
  induction h generalizing w with
  | nil => exact ⟨w, hw, .nil⟩
  | @stretch b us x xs r ts stretch opens rest ih =>
    subst hb
    have hrest := ih (w := []) (List.forall_mem_nil _) rfl
    have hyields := hpiece stretch opens hw hrest
    rwa [write_append, write_literals, List.append_assoc]
  | root opens rest ih =>
    subst hb
    have hrest := ih (w := []) (List.forall_mem_nil _) rfl
    have hyields := hpiece hroot opens hw hrest
    simpa [ResolvedPart.write] using hyields
  | marker nests rest ih =>
    subst hb
    obtain ⟨w', hw', hyields⟩ := ih (w := []) (List.forall_mem_nil _) rfl
    refine ⟨w', hw', ?_⟩
    exact .lexeme (x := ['&']) (Lexeme.read_punct (by decide) _) (by simp [isSpace]) hw hyields
  | descendant rest ih =>
    obtain ⟨w', hw', hyields⟩ := ih (w := w ++ [' ']) (hspace hw) (by simp)
    refine ⟨w', hw', ?_⟩
    rwa [List.append_assoc] at hyields
  | @sign b c r ts hc rest ih =>
    obtain ⟨w', hw', hyields⟩ := ih (w := [' ']) (hspace (List.forall_mem_nil _)) rfl
    refine ⟨w', hw', ?_⟩
    have hsign : ∀ d ∈ [c.sign].head?, isSpace d = false := by
      rintro d ⟨⟩
      exact Lexeme.isSpace_sign hc
    have hspaced : (!(w ++ [' ']).isEmpty) = true := by simp
    have hyields := Text.Yields.lexeme (x := [c.sign]) (Lexeme.read_sign hc _) hsign (hspace hw) hyields
    rw [hspaced, List.append_assoc] at hyields
    rw [write_cons, ResolvedPart.write, Combinator.text_of_sign hc]
    exact hyields

/-- The tokens of the root are among those of a selector that has it. -/
theorem exists_root (h : Spells place root nesting b r ts) (hroot : .root ∈ r) :
    ∃ b, Token.led b root <:+: ts := by
  induction h with
  | nil => cases hroot
  | stretch stretch opens rest ih =>
    obtain ⟨b, hwithin⟩ := ih (by simpa using hroot)
    exact ⟨b, hwithin.trans (List.suffix_append _ _).isInfix⟩
  | @root b r ts opens rest ih => exact ⟨b, (List.prefix_append _ _).isInfix⟩
  | marker nests rest ih =>
    obtain ⟨b, hwithin⟩ := ih (by simpa using hroot)
    exact ⟨b, hwithin.trans (List.suffix_cons _ _).isInfix⟩
  | descendant rest ih => exact ih (by simpa using hroot)
  | sign hc rest ih =>
    obtain ⟨b, hwithin⟩ := ih (by simpa using hroot)
    exact ⟨b, hwithin.trans (List.suffix_cons _ _).isInfix⟩

end Spells

theorem Opens.append {r r' : Resolved} (h : r.Opens) (h' : r = [] → r'.Opens) :
    (r ++ r').Opens := by
  cases r with
  | nil => exact h' rfl
  | cons p r => exact h

/-- A selector that can be spelled out, whether or not white space is in front. -/
def Spelled (place : Location) (root : List Token) (nesting : Bool) (r : Resolved) : Prop :=
  ∀ b, ∃ ts, Spells place root nesting b r ts

section Spelled

variable {place : Location} {root : List Token} {nesting : Bool} {r r' : Resolved}

theorem Spells.append {b : Bool} {ts : List Token} (h : Spells place root nesting b r ts)
    (h' : Spelled place root nesting r')
    (hopens : ∀ p ∈ r.getLast?, p.isCombinator = true ∨ r'.Opens) :
    ∃ ts', Spells place root nesting b (r ++ r') ts' := by
  have hlater : ∀ (ps : Resolved) {r : Resolved},
      (∀ p ∈ (ps ++ r).getLast?, p.isCombinator = true ∨ r'.Opens) →
      ∀ p ∈ r.getLast?, p.isCombinator = true ∨ r'.Opens :=
    fun _ _ h p hp => h p (List.mem_getLast?_append_of_mem_getLast? hp)
  induction h with
  | nil => exact h' _
  | @stretch b us x xs r ts stretch opens rest ih =>
    obtain ⟨ts', hts'⟩ := ih (hlater _ hopens)
    refine ⟨Token.led b us ++ ts', ?_⟩
    rw [List.append_assoc]
    refine .stretch stretch (opens.append ?_) hts'
    rintro rfl
    obtain ⟨y, hy⟩ : ∃ y, .literal y ∈ ((x :: xs).map ResolvedPart.literal ++ []).getLast? := by
      rw [List.append_nil, List.getLast?_map, List.getLast?_cons]
      exact ⟨_, rfl⟩
    exact (hopens _ hy).resolve_left nofun
  | @root b r ts opens rest ih =>
    obtain ⟨ts', hts'⟩ := ih (hlater [.root] hopens)
    refine ⟨_, .root (opens.append ?_) hts'⟩
    rintro rfl
    exact (hopens _ rfl).resolve_left nofun
  | @marker b r ts nests rest ih =>
    obtain ⟨ts', hts'⟩ := ih (hlater [.literal ['&']] hopens)
    exact ⟨_, .marker nests hts'⟩
  | @descendant b r ts rest ih =>
    obtain ⟨ts', hts'⟩ := ih (hlater [.combinator .descendant] hopens)
    exact ⟨_, .descendant hts'⟩
  | @sign b c r ts hc rest ih =>
    obtain ⟨ts', hts'⟩ := ih (hlater [.combinator c] hopens)
    exact ⟨_, .sign hc hts'⟩

theorem Spelled.append (h : Spelled place root nesting r) (h' : Spelled place root nesting r')
    (hopens : ∀ p ∈ r.getLast?, p.isCombinator = true ∨ r'.Opens) :
    Spelled place root nesting (r ++ r') := fun b =>
  let ⟨_, hts⟩ := h b
  hts.append h' hopens

theorem Spelled.nil : Spelled place root nesting [] := fun _ => ⟨[], .nil⟩

theorem Spelled.cons_root (h : Spelled place root nesting r) (hopens : r.Opens) :
    Spelled place root nesting (.root :: r) := fun _ =>
  let ⟨_, hts⟩ := h false
  ⟨_, .root hopens hts⟩

theorem Spelled.combinator (c : Combinator) (h : Spelled place root nesting r) :
    Spelled place root nesting (.combinator c :: r) := by
  intro b
  obtain ⟨ts, hts⟩ := h true
  by_cases hc : c = .descendant
  · subst hc
    exact ⟨ts, .descendant hts⟩
  · exact ⟨_, .sign hc hts⟩

end Spelled

end Resolved

/-! ### Selectors of a source -/

/-- Fragments without placeholders of which those side by side can be written down again. -/
structure Fragment.Stand (place : Location) (fs : List Fragment) : Prop where
  plain : ∀ f ∈ fs, f.IsPlain
  stretches : ∀ x xs, (x :: xs).map .literal <:+: fs →
    ∃ us, Token.IsStretch place us (x :: xs)

theorem Fragment.Stand.within {place : Location} {fs gs : List Fragment} (h : Stand place fs)
    (hgs : gs <:+: fs) : Stand place gs :=
  ⟨fun f hf => h.plain f (hgs.subset hf), fun x xs hxs => h.stretches x xs (hxs.trans hgs)⟩

/-- Fragments, run by run: literals that stand side by side are taken together. -/
theorem Fragment.induction_runs {P : List Fragment → Prop} (nil : P [])
    (run : ∀ x xs gs, (∀ y, gs.head? ≠ some (.literal y)) → P gs →
      P ((x :: xs).map .literal ++ gs))
    (cons : ∀ f gs, (∀ y, f ≠ .literal y) → P gs → P (f :: gs)) (fs : List Fragment) : P fs := by
  have hboth : P fs ∧ ∀ x xs, P ((x :: xs).map .literal ++ fs) := by
    induction fs with
    | nil => exact ⟨nil, fun x xs => run x xs [] (by simp) nil⟩
    | cons f gs ih =>
      by_cases hf : ∃ y, f = .literal y
      · obtain ⟨y, rfl⟩ := hf
        refine ⟨ih.2 y [], fun x xs => ?_⟩
        simpa using ih.2 x (xs ++ [y])
      · have hcons := cons f gs (fun y hy => hf ⟨y, hy⟩) ih.1
        refine ⟨hcons, fun x xs => run x xs (f :: gs) (fun y hy => hf ⟨y, ?_⟩) hcons⟩
        exact Option.some.inj hy
  exact hboth.1

namespace Selector

open Resolved (Spelled)

variable {place : Location} {root : List Token} {nesting : Bool} {parent : Resolved}

/-- Fragments can be spelled out with `parent` in place of the markers, if `parent` can wherever one
stands. -/
theorem spelled_substitute {fs : List Fragment} (hfs : Fragment.Stand place fs)
    (hfront : ∀ x gs, .literal x :: .marker :: gs <:+ fs →
      Resolved.Opens (parent ++ gs.flatMap (·.substitute parent)))
    (hmarker : ∀ gs, .marker :: gs <:+ fs →
      Spelled place root nesting (gs.flatMap (·.substitute parent)) →
      Spelled place root nesting (parent ++ gs.flatMap (·.substitute parent))) :
    Spelled place root nesting (fs.flatMap (·.substitute parent)) := by
  suffices ∀ gs, gs <:+ fs → Spelled place root nesting (gs.flatMap (·.substitute parent)) from
    this fs List.suffix_rfl
  intro gs
  induction gs using Fragment.induction_runs with
  | nil => exact fun _ => .nil
  | run x xs gs hhead ih =>
    intro hsuffix b
    obtain ⟨us, hus⟩ := hfs.stretches x xs ((List.prefix_append _ _).isInfix.trans hsuffix.isInfix)
    obtain ⟨ts, hts⟩ := ih ((List.suffix_append _ _).trans hsuffix) false
    have hparts : ((x :: xs).map Fragment.literal).flatMap (·.substitute parent) =
        (x :: xs).map .literal := by
      rw [List.flatMap_map]
      exact List.map_eq_flatMap.symm
    refine ⟨Token.led b us ++ ts, ?_⟩
    rw [List.flatMap_append, hparts]
    refine .stretch hus ?_ hts
    cases gs with
    | nil => exact nofun
    | cons g gs =>
      cases g with
      | literal y => exact absurd rfl (hhead y)
      | placeholder p =>
        exact absurd rfl (hfs.plain _ (hsuffix.subset (List.mem_append_right _ List.mem_cons_self)) p)
      | combinator c =>
        rintro p ⟨⟩
        rfl
      | marker =>
        obtain ⟨ys, y, hys⟩ := (List.eq_nil_or_concat' (x :: xs)).resolve_left (List.cons_ne_nil x xs)
        rw [hys] at hsuffix
        exact hfront y gs (List.IsSuffix.trans ⟨ys.map .literal, by simp⟩ hsuffix)
  | cons f gs hf ih =>
    intro hsuffix
    have hrest := ih ((List.suffix_cons f gs).trans hsuffix)
    cases f with
    | literal x => exact absurd rfl (hf x)
    | placeholder p => exact absurd rfl (hfs.plain _ (hsuffix.subset List.mem_cons_self) p)
    | marker => exact hmarker gs hsuffix hrest
    | combinator c => exact hrest.combinator c

end Selector

/-- The part that a fragment is where markers are left alone. -/
def Fragment.part : Fragment → ResolvedPart
  | literal x => .literal x
  | placeholder p => .placeholder p
  | marker => .literal ['&']
  | combinator c => .combinator c

theorem Fragment.isCombinator_part (f : Fragment) : f.part.isCombinator = f.isCombinator := by
  cases f <;> rfl

namespace Selector

variable {parent : Resolved}

theorem substitute_marker (fs : List Fragment) :
    fs.flatMap (·.substitute [.literal ['&']]) = fs.map (·.part) := by
  rw [List.map_eq_flatMap]
  exact List.flatMap_congr fun f _ => by cases f <;> rfl

theorem substitute_eq_parts {s : Selector} (h : s.hasMarker = false) (parent : Resolved) :
    s.substitute parent = s.fragments.map (·.part) := by
  have h : .marker ∉ s.fragments := by simpa [hasMarker] using h
  rw [substitute, List.map_eq_flatMap]
  refine List.flatMap_congr fun f hf => ?_
  cases f with
  | marker => exact absurd hf h
  | literal x => rfl
  | placeholder p => rfl
  | combinator c => rfl

theorem spelled_parts {place : Location} {root : List Token} {nesting : Bool} {fs : List Fragment}
    (hfs : Fragment.Stand place fs) (hnesting : .marker ∈ fs → nesting = true) :
    Resolved.Spelled place root nesting (fs.map (·.part)) := by
  rw [← substitute_marker]
  refine spelled_substitute hfs (fun x gs _ => ?_) fun gs hgs hrest b => ?_
  · rintro p ⟨⟩
    rfl
  · obtain ⟨ts, hts⟩ := hrest false
    exact ⟨_, .marker (hnesting (hgs.subset List.mem_cons_self)) hts⟩

/-- Where a selector gets the root, if not in place of its markers. -/
theorem exists_of_qualify {scope : Scope} {s : Selector} {r : Resolved}
    (hscope : scope.className.isNone = false) (hmarker : s.hasMarker = false)
    (h : s.qualify scope = .ok r) :
    ∃ before after, before <+: s.fragments ∧ after <:+ s.fragments ∧
      r = before.map (·.part) ++ .root :: after.map (·.part) := by
  simp only [qualify, hscope, hmarker, Bool.or_self, Bool.false_eq_true, if_false,
    substitute_eq_parts hmarker] at h
  split at h
  · cases h
    exact ⟨[], s.fragments, List.nil_prefix, List.suffix_rfl, rfl⟩
  split at h
  · rename_i hreplace
    cases h
    obtain ⟨before, after, hparts, rfl⟩ := Resolved.exists_of_replaceRoot hreplace
    obtain ⟨fs, gs, hfs, rfl, hgs⟩ := List.map_eq_append_iff.1 hparts
    obtain ⟨g, gs, rfl, -, rfl⟩ := List.map_eq_cons_iff.1 hgs
    rw [hfs]
    exact ⟨fs, gs, List.prefix_append _ _, ⟨fs ++ [g], by simp⟩, rfl⟩
  · cases hfs : s.fragments with
    | nil =>
      rw [hfs] at h
      cases h
    | cons f fs =>
      rw [hfs] at h
      simp only [List.map_cons, Resolved.addRoot, Except.ok.injEq] at h
      split at h
      · exact ⟨[f], fs, ⟨fs, rfl⟩, List.suffix_cons f fs, h.symm⟩
      · exact ⟨[], f :: fs, List.nil_prefix, List.suffix_rfl, h.symm⟩

/-! ### Resolving keeps selectors spelled -/

/-- A selector of a source that can be written down again. -/
structure Stands (place : Location) (s : Selector) : Prop where
  fragments : Fragment.Stand place s.fragments
  begins : s.fragments.head? ≠ some (.combinator .descendant)
  ends : ∃ f ∈ s.fragments.getLast?, f.isCombinator = false

end Selector

/-- A resolved selector that can be written down. -/
structure Resolved.Written (place : Location) (root : List Token) (nesting : Bool) (r : Resolved) :
    Prop where
  spelled : Spelled place root nesting r
  begins : r.head? ≠ some (.combinator .descendant)
  ends : ∃ p ∈ r.getLast?, p.isCombinator = false

/-- Two fragments can stay side by side where the one or the other is a marker. -/
def Fragment.Joins (parent : Resolved) (f g : Fragment) : Prop :=
  f = .marker ∨ g = .marker → ∀ p ∈ (f.substitute parent).getLast?,
    ∀ q ∈ (g.substitute parent).head?, p.isCombinator = true ∨ q.opens = true

instance (parent : Resolved) (f g : Fragment) : Decidable (f.Joins parent g) :=
  inferInstanceAs (Decidable (_ → _))

/-- What is right behind the root opens. -/
def Resolved.RootStands (r : Resolved) : Prop := r.IsChain fun p q => p = .root → q.opens = true

instance (r : Resolved) : Decidable r.RootStands := inferInstanceAs (Decidable (r.IsChain _))

namespace Selector

/-- A selector that can be put inside a rule whose selector is `parent`. -/
def Joins (parent : Resolved) (s : Selector) : Prop :=
  s.fragments.IsChain (Fragment.Joins parent)

instance (parent : Resolved) (s : Selector) : Decidable (s.Joins parent) :=
  inferInstanceAs (Decidable (s.fragments.IsChain _))

/-- Selectors that can be put where they are to be resolved. -/
def JoinAll (scope : Scope) (context : List Resolved) (inScope : Bool) (selectors : List Selector) :
    Prop :=
  ∀ s ∈ selectors, (∀ parent ∈ context, s.Joins parent) ∧
    (context = [] → inScope = true → ∀ r ∈ (s.qualify scope).toOption, r.RootStands)

instance (scope : Scope) (context : List Resolved) (inScope : Bool) (selectors : List Selector) :
    Decidable (JoinAll scope context inScope selectors) :=
  inferInstanceAs (Decidable (∀ s ∈ selectors, _ ∧ _))

variable {place : Location} {root : List Token} {nesting : Bool} {parent : Resolved} {s : Selector}

open Resolved (Spelled Written)

theorem begins_parts {fs : List Fragment} (h : fs.head? ≠ some (.combinator .descendant)) :
    (fs.map (·.part)).head? ≠ some (.combinator .descendant) := by
  cases fs with
  | nil => exact nofun
  | cons f fs =>
    cases f with
    | combinator c => simpa [Fragment.part] using h
    | literal x => exact nofun
    | placeholder p => exact nofun
    | marker => exact nofun

theorem Stands.written_parts (hs : s.Stands place)
    (hnesting : .marker ∈ s.fragments → nesting = true) :
    Written place root nesting (s.fragments.map (·.part)) where
  spelled := spelled_parts hs.fragments hnesting
  begins := begins_parts hs.begins
  ends := by
    obtain ⟨f, hf, hcombinator⟩ := hs.ends
    exact ⟨f.part, by rw [List.getLast?_map, hf]; rfl, by rw [f.isCombinator_part, hcombinator]⟩

theorem Stands.written_substitute (hs : s.Stands place) (hparent : Written place root nesting parent)
    (hjoins : s.Joins parent) : Written place root nesting (s.substitute parent) where
  spelled := by
    have hne : parent ≠ [] := by
      obtain ⟨p, hp, -⟩ := hparent.ends
      rintro rfl
      cases hp
    refine spelled_substitute hs.fragments (fun x gs hgs => ?_) fun gs hgs hrest => ?_
    · obtain ⟨q, parent, rfl⟩ := List.exists_cons_of_ne_nil hne
      have hchain := hjoins.infix hgs.isInfix
      rintro p ⟨⟩
      exact ((List.isChain_cons_cons.1 hchain).1 (.inr rfl) (.literal x) rfl q rfl).resolve_left
        (by rintro ⟨⟩)
    · refine hparent.spelled.append hrest fun p hp => ?_
      cases gs with
      | nil => exact .inr (by rintro _ ⟨⟩)
      | cons g gs =>
        have hg : g.substitute parent ≠ [] := by
          cases g with
          | marker => exact hne
          | _ => exact List.cons_ne_nil _ _
        have hchain := hjoins.infix hgs.isInfix
        refine or_iff_not_imp_left.2 fun hcombinator q hq => ?_
        rw [List.flatMap_cons, List.head?_append_of_ne_nil _ hg] at hq
        exact ((List.isChain_cons_cons.1 hchain).1 (.inl rfl) p hp q hq).resolve_left hcombinator
  begins := by
    rw [substitute]
    cases hfs : s.fragments with
    | nil => rintro ⟨⟩
    | cons f fs =>
      cases f with
      | marker =>
        obtain ⟨p, hp, -⟩ := hparent.ends
        rw [List.flatMap_cons, List.head?_append_of_ne_nil]
        · exact hparent.begins
        · rintro heq
          rw [Fragment.substitute] at heq
          rw [heq] at hp
          cases hp
      | combinator c =>
        have := hs.begins
        rw [hfs] at this
        simpa [Fragment.substitute] using this
      | literal x => rintro ⟨⟩
      | placeholder p => rintro ⟨⟩
  ends := by
    obtain ⟨f, hf, hcombinator⟩ := hs.ends
    obtain ⟨fs, hfs⟩ := List.getLast?_eq_some_iff.1 hf
    have hlast : ∃ p ∈ (f.substitute parent).getLast?, p.isCombinator = false := by
      cases f with
      | marker => exact hparent.ends
      | combinator c => cases hcombinator
      | literal x => exact ⟨_, rfl, rfl⟩
      | placeholder p => exact ⟨_, rfl, rfl⟩
    obtain ⟨p, hp, hpart⟩ := hlast
    refine ⟨p, ?_, hpart⟩
    rw [substitute, hfs, List.flatMap_append, List.flatMap_singleton]
    exact List.mem_getLast?_append_of_mem_getLast? hp

theorem Stands.written_nest (hs : s.Stands place) (hparent : Written place root nesting parent)
    (hjoins : s.Joins parent) : Written place root nesting (s.nest parent) := by
  have hbehind : ∀ {r}, Spelled place root nesting r → r.Opens →
      (∃ p ∈ r.getLast?, p.isCombinator = false) → Written place root nesting (parent ++ r) := by
    intro r hr hopens ⟨p, hp, hcombinator⟩
    refine ⟨hparent.spelled.append hr fun _ _ => .inr hopens, ?_, p, ?_, hcombinator⟩
    · obtain ⟨q, hq, -⟩ := hparent.ends
      rw [List.head?_append_of_ne_nil]
      · exact hparent.begins
      · rintro rfl
        cases hq
    · exact List.mem_getLast?_append_of_mem_getLast? hp
  unfold nest
  split
  · exact hs.written_substitute hparent hjoins
  rename_i hmarker
  have hmarker : s.hasMarker = false := by simpa using hmarker
  have hparts : Written place root nesting (s.fragments.map (·.part)) :=
    hs.written_parts fun hmem => by simp [hasMarker, hmem] at hmarker
  rw [substitute_eq_parts hmarker]
  split
  · rename_i hstarts
    refine hbehind hparts.spelled (fun p hp => ?_) hparts.ends
    rw [startsWithCombinator] at hstarts
    cases hfs : s.fragments with
    | nil => simp [hfs] at hp
    | cons f fs =>
      rw [hfs] at hp hstarts
      cases hp
      cases f with
      | combinator c => rfl
      | _ => cases hstarts
  · refine hbehind (hparts.spelled.combinator .descendant) (fun p hp => ?_) ?_
    · cases hp
      rfl
    · obtain ⟨p, hp, hcombinator⟩ := hparts.ends
      exact ⟨p, List.mem_getLast?_cons hp, hcombinator⟩

theorem joins_of_rootStands (h : (s.substitute [.root]).RootStands) : s.Joins [.root] := by
  unfold substitute at h
  unfold Joins
  generalize s.fragments = fs at h ⊢
  induction fs with
  | nil => exact .nil
  | cons f fs ih =>
    rw [List.flatMap_cons] at h
    have hlater := h.infix (List.suffix_append _ _).isInfix
    refine List.isChain_cons.2 ⟨?_, ih hlater⟩
    rintro g hg hmarker p hp q hq
    obtain ⟨fs, rfl⟩ : ∃ gs, fs = g :: gs := by
      cases fs <;> cases hg
      exact ⟨_, rfl⟩
    rcases hmarker with rfl | rfl
    · cases hp
      have hq' : q ∈ ((g :: fs).flatMap (·.substitute [.root])).head? :=
        List.mem_head?_append_of_mem_head? hq
      exact .inr ((List.isChain_cons.1 h).1 q hq' rfl)
    · cases hq
      exact .inr rfl

theorem Stands.written_qualify {scope : Scope} {r : Resolved} (hs : s.Stands place)
    (h : s.qualify scope = .ok r) (hroot : r.RootStands) : Written place root nesting r := by
  have hwritten : Written place root nesting [.root] :=
    ⟨Resolved.Spelled.nil.cons_root (by rintro _ ⟨⟩), by rintro ⟨⟩, .root, rfl, rfl⟩
  by_cases hmarker : scope.className.isNone = true ∨ s.hasMarker = true
  · rw [qualify, if_pos (by simpa using hmarker)] at h
    cases h
    exact hs.written_substitute hwritten (joins_of_rootStands hroot)
  · simp only [not_or, Bool.not_eq_true] at hmarker
    obtain ⟨before, after, hbefore, hafter, rfl⟩ := exists_of_qualify hmarker.1 hmarker.2 h
    have hnot : ∀ {fs}, fs <:+: s.fragments → .marker ∈ fs → nesting = true := by
      intro fs hfs hmem
      simp [hasMarker, hfs.subset hmem] at hmarker
    have hopens : Resolved.Opens (after.map (·.part)) := by
      have hlater := hroot.infix (List.suffix_append _ _).isInfix
      exact fun q hq => (List.isChain_cons.1 hlater).1 q hq rfl
    refine ⟨?_, ?_, ?_⟩
    · refine (spelled_parts (hs.fragments.within hbefore.isInfix) (hnot hbefore.isInfix)).append ?_ ?_
      · refine Resolved.Spelled.cons_root ?_ hopens
        exact spelled_parts (hs.fragments.within hafter.isInfix) (hnot hafter.isInfix)
      · rintro p -
        right
        rintro q ⟨⟩
        rfl
    · cases before with
      | nil => rintro ⟨⟩
      | cons f before =>
        obtain ⟨rest, hrest⟩ := hbefore
        have hbegins : (f :: before).head? ≠ some (.combinator .descendant) := by
          simpa [← hrest] using hs.begins
        exact begins_parts hbegins
    · rw [List.getLast?_append_cons]
      cases after with
      | nil => exact ⟨_, rfl, rfl⟩
      | cons f after =>
        obtain ⟨rest, hrest⟩ := hafter
        obtain ⟨g, hg, hcombinator⟩ := hs.ends
        rw [← hrest, List.getLast?_append_of_ne_nil _ (List.cons_ne_nil f after)] at hg
        refine ⟨g.part, ?_, by rw [g.isCombinator_part, hcombinator]⟩
        rw [List.map_cons, List.getLast?_cons_cons, ← List.map_cons, List.getLast?_map, hg]
        rfl

theorem written_resolveAll {scope : Scope} {context : List Resolved} {inScope : Bool}
    {selectors : List Selector} {resolved : List Resolved}
    (hs : ∀ s ∈ selectors, s.Stands place)
    (hcontext : ∀ r ∈ context, Written place root (!inScope) r)
    (hjoin : JoinAll scope context inScope selectors)
    (h : resolveAll scope context inScope selectors = .ok resolved) :
    ∀ r ∈ resolved, Written place root (!inScope) r := by
  unfold resolveAll at h
  split at h
  · cases h
    split
    · exact hcontext
    split
    · intro r hr
      cases List.mem_singleton.1 hr
      exact ⟨Resolved.Spelled.nil.cons_root nofun, nofun, .root, rfl, rfl⟩
    · exact List.forall_mem_nil _
  split at h
  · cases h
    intro r hr
    simp only [List.mem_flatMap, List.mem_map] at hr
    obtain ⟨parent, hparent, s, hmem, rfl⟩ := hr
    exact (hs s hmem).written_nest (hcontext parent hparent) ((hjoin s hmem).1 parent hparent)
  rename_i hcontext
  have hnil : context = [] := by simpa using hcontext
  split at h
  · rename_i hin
    intro r hr
    obtain ⟨s, hmem, hqualify⟩ := exists_of_mem_mapM h hr
    refine (hs s hmem).written_qualify hqualify ((hjoin s hmem).2 hnil hin r ?_)
    rw [hqualify]
    rfl
  · rename_i hin
    cases h
    intro r hr
    obtain ⟨s, hmem, rfl⟩ := List.mem_map.1 hr
    rw [verbatim, substitute, substitute_marker]
    exact (hs s hmem).written_parts fun _ => by simpa using hin

end Selector

/-! ### Conditions on rules -/

mutual

def Content.eachRule (scope : Scope) (p : List Resolved → Bool → List Selector → Bool)
    (context : List Resolved) (inScope : Bool) : Content → Bool
  | .rule selectors _ nested _ =>
    p context inScope selectors &&
      match Selector.resolveAll scope context inScope selectors with
      | .ok resolved => Sheet.eachRule scope p resolved inScope nested
      | .error _ => true
  | .atRule head body =>
    if head.kind.isScoped && inScope then Sheet.eachRule scope p context true body
    else Sheet.eachRule scope p [] false body

/-- Whether `p` holds at every rule, of the selectors around it, of whether it is in scope and of its
own selectors. -/
def Sheet.eachRule (scope : Scope) (p : List Resolved → Bool → List Selector → Bool)
    (context : List Resolved) (inScope : Bool) : Sheet → Bool
  | [] => true
  | c :: cs => c.eachRule scope p context inScope && Sheet.eachRule scope p context inScope cs

end

end ScopedCss
