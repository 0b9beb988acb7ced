/-
The class of a scope in what is written. Flattening puts the texts of simple selectors side by side,
so the class can run into what follows it. `Sheet.hasClass_of_flatten`: where what is put behind the
class or behind a nesting marker opens, every selector in scope has the class as a token of its own.
-/
import ScopedCss.Proofs.Selector.Name
import ScopedCss.Proofs.Sheet.Standing
import ScopedCss.Proofs.Stylesheet.Template

namespace ScopedCss

open Resolved (Written)

/-- Whether selectors can be put where they are resolved, if that is in scope. -/
def Selector.joinsInScope (context : List Resolved) (inScope : Bool) (selectors : List Selector) :
    Bool :=
  !inScope || decide (JoinAll .someClass context inScope selectors)

/-- Whether a point stands right before the identifier `name`. -/
def Token.hasClass (name : Text) : List Token → Bool
  | point :: ident :: ts =>
    point.isMark '.' && ident.kind = .ident && ident.text = name && !ident.spaced ||
      hasClass name (ident :: ts)
  | _ => false

/-- A selector that is read as tokens one of which is the class `name`. -/
def Text.HasClass (x name : Text) : Prop :=
  (tokenize x).failure = none ∧ Token.hasClass name (tokenize x).tokens = true

instance (x name : Text) : Decidable (x.HasClass name) := inferInstanceAs (Decidable (_ ∧ _))

mutual

def TemplateItem.Classed (name : Text) (inScope : Bool) : TemplateItem → Prop
  | .rule selectors _ => inScope = true → ∀ p ∈ selectors, (p.fill ('.' :: name)).HasClass name
  | .atRule kind _ items => Template.Classed name (inScope && kind.isScoped) items

/-- Filled with the class `name`, every selector in scope has that class; a keyframes-like at-rule
ends the scope for all that is inside it. -/
def Template.Classed (name : Text) (inScope : Bool) : Template → Prop
  | [] => True
  | i :: is => i.Classed name inScope ∧ Template.Classed name inScope is

end

mutual

def TemplateItem.decClassed (name : Text) :
    (inScope : Bool) → (i : TemplateItem) → Decidable (i.Classed name inScope)
  | inScope, .rule selectors _ => inferInstanceAs (Decidable (inScope = true → ∀ p ∈ selectors, _))
  | inScope, .atRule kind _ items => Template.decClassed name (inScope && kind.isScoped) items

def Template.decClassed (name : Text) :
    (inScope : Bool) → (t : Template) → Decidable (t.Classed name inScope)
  | _, [] => isTrue trivial
  | inScope, i :: is =>
    have := TemplateItem.decClassed name inScope i
    have := Template.decClassed name inScope is
    inferInstanceAs (Decidable (_ ∧ _))

end

instance (name : Text) (inScope : Bool) (t : Template) : Decidable (t.Classed name inScope) :=
  Template.decClassed name inScope t

theorem Template.classed_append {name : Text} {inScope : Bool} {s t : Template} :
    Template.Classed name inScope (s ++ t) ↔
      Template.Classed name inScope s ∧ Template.Classed name inScope t := by
  induction s with
  | nil => simp [Template.Classed]
  | cons i s ih => simp [Template.Classed, ih, and_assoc]

mutual

theorem TemplateItem.classed_of_not (name : Text) : ∀ i : TemplateItem, i.Classed name false
  | .rule _ _ => nofun
  | .atRule _ _ items => Template.classed_of_not name items

/-- Out of scope nothing is asked. -/
theorem Template.classed_of_not (name : Text) : ∀ t : Template, Template.Classed name false t
  | [] => trivial
  | i :: is => ⟨TemplateItem.classed_of_not name i, Template.classed_of_not name is⟩

end

/-! ### Written selectors -/

theorem Token.hasClass_of_infix {name : Text} {point ident : Token} (hpoint : point.isMark '.' = true)
    (hident : ident.kind = .ident ∧ ident.text = name ∧ ident.spaced = false)
    {ts : List Token} (h : [point, ident] <:+: ts) : hasClass name ts = true := by
  obtain ⟨before, after, rfl⟩ := h
  induction before with
  | nil => simp [hasClass, hpoint, hident]
  | cons t before ih =>
    cases before with
    | nil => exact Bool.or_eq_true_iff.2 (.inr ih)
    | cons u before => exact Bool.or_eq_true_iff.2 (.inr ih)

theorem Text.IsName.opens_point {x : Text} (h : x.IsName) : Text.opens ('.' :: x) = true := by
  cases x with
  | nil => cases h.starts
  | cons c x =>
    have hc : c.isDigit = false := Lexeme.isDigit_of_isIdentStart h.starts
    simp [opens, hc]
    decide

/-- The tokens of the class `name`. -/
def Token.ofClass (place : Location) (name : Text) : List Token :=
  [⟨.punct, ['.'], ['.'], place, false⟩, ⟨.ident, name, name, place, false⟩]

theorem Resolved.Written.hasClass {place : Location} {name : Text} {r : Resolved}
    (hname : name.IsName) (h : Written place (Token.ofClass place name) false r)
    (hroot : .root ∈ r) : (r.write ('.' :: name)).HasClass name := by
  obtain ⟨ts, hts⟩ := h.spelled false
  have hstretch : Token.IsStretch place (Token.ofClass place name) ['.' :: name] :=
    hname.isStretch place (.inl rfl)
  have hjoin : Token.join (Token.ofClass place name) = '.' :: name := by
    rw [hstretch.text, List.flatten_singleton]
  have hopens : (Token.join (Token.ofClass place name)).opens = true := by
    rw [hjoin]
    exact hname.opens_point
  obtain ⟨w, hw, hyields⟩ := hts.yields (w := []) (z := []) (by rwa [hjoin]) hopens
    (List.forall_mem_nil _) rfl (by decide)
  rw [hjoin, List.nil_append, List.append_nil] at hyields
  have hrest : Lexeme.dropGap (w ++ []) = [] := by
    rw [Lexeme.dropGap_append_space hw, Lexeme.dropGap_nil]
  obtain ⟨hfailure, htokens⟩ :=
    Lexer.tokens_of_yields place (l := .start (r.write ('.' :: name))) rfl hyields hrest
  refine ⟨hfailure, ?_⟩
  obtain ⟨b, before, after, heq⟩ := hts.exists_root hroot
  rw [← htokens] at heq
  obtain ⟨us, after', hus, hmap, -⟩ := List.map_eq_append_iff.1 heq.symm
  obtain ⟨before', vs, rfl, -, hvs⟩ := List.map_eq_append_iff.1 hmap
  obtain ⟨point, vs, rfl, hpoint, hvs⟩ := List.map_eq_cons_iff.1 hvs
  obtain ⟨ident, vs, rfl, hident, hvs⟩ := List.map_eq_cons_iff.1 hvs
  obtain rfl := List.map_eq_nil_iff.1 hvs
  have hwithin : [point, ident] <:+: _ := ⟨before', after', hus.symm⟩
  refine Token.hasClass_of_infix ?_ ?_ hwithin
  · rw [← Token.isMark_movedTo place, hpoint]
    rfl
  · have hkind := congrArg Token.kind hident
    have htext := congrArg Token.text hident
    have hspaced := congrArg Token.spaced hident
    exact ⟨hkind, htext, hspaced⟩

theorem Resolved.fill_pattern {r : Resolved} {p : Pattern} (h : r.pattern = .ok p) (root : Text) :
    p.fill root = r.write root := by
  rw [Resolved.pattern, mapM_eq_ok] at h
  induction h with
  | nil => rfl
  | @cons part piece r p hpart _ ih =>
    have hfill : piece.fill root = part.write root := by
      cases part <;> cases hpart <;> rfl
    rw [write_cons, ← ih, ← hfill]
    rfl

section Classed

variable {place : Location} {name : Text} {D : Declaration → Prop} {A : AtRule → Prop}

theorem TemplateItem.classed_ofRule (hname : name.IsName) {resolved : List Resolved}
    {declarations : List (Text × Text)} {t : Template}
    (hwritten : ∀ r ∈ resolved, Written place (Token.ofClass place name) false r)
    (hrooted : Rooted true resolved) (h : TemplateItem.ofRule resolved declarations = .ok t) :
    Template.Classed name true t := by
  unfold TemplateItem.ofRule at h
  split at h
  · cases h
    trivial
  · obtain ⟨patterns, hpatterns, h⟩ := bind_eq_ok.1 h
    cases h
    refine ⟨fun _ p hp => ?_, trivial⟩
    obtain ⟨r, hr, hpattern⟩ := exists_of_mem_mapM hpatterns hp
    rw [Resolved.fill_pattern hpattern]
    exact (hwritten r hr).hasClass hname ((hrooted r hr).2 rfl)

theorem TemplateItem.classed_ofAtRule {inScope : Bool} {head : AtRule} {items t : Template}
    (hi : Template.Classed name (inScope && head.kind.isScoped) items)
    (h : TemplateItem.ofAtRule head items = .ok t) : Template.Classed name inScope t := by
  unfold TemplateItem.ofAtRule at h
  split at h
  · cases h
    trivial
  · obtain ⟨condition, -, h⟩ := bind_eq_ok.1 h
    cases h
    exact ⟨hi, trivial⟩

mutual

theorem Content.classed_template (hname : name.IsName) :
    ∀ {context : List Resolved} {c : Content} {t : Template},
      (∀ r ∈ context, Written place (Token.ofClass place name) false r) → Rooted true context →
      c.All (∀ s ∈ ·, s.Stands place) D A →
      c.eachRule .someClass Selector.joinsInScope context true = true →
      c.template context true = .ok t → Template.Classed name true t
  | _, .rule selectors declarations nested location, t, hwritten, hrooted, hall, hjoins, h => by
    simp only [Content.template, bind_eq_ok, pure_eq_ok] at h
    obtain ⟨resolved, hresolved, texts, -, own, hown, below, hbelow, rfl⟩ := h
    obtain ⟨hselectors, -, hnested⟩ := hall
    simp only [Content.eachRule, hresolved, Bool.and_eq_true, Selector.joinsInScope, Bool.not_true,
      Bool.false_or, decide_eq_true_eq] at hjoins
    have hw := Selector.written_resolveAll hselectors hwritten hjoins.1 hresolved
    have hr := hrooted.resolveAll hresolved
    exact Template.classed_append.2 ⟨TemplateItem.classed_ofRule hname hw hr hown,
      Sheet.classed_templateIn hname hw hr hnested hjoins.2 hbelow⟩
  | _, .atRule head body, t, hwritten, hrooted, hall, hjoins, h => by
    rw [Content.template] at h
    rw [Content.eachRule] at hjoins
    split at h
    · rename_i hcond
      obtain ⟨items, hitems, h⟩ := bind_eq_ok.1 h
      rw [if_pos hcond] at hjoins
      refine TemplateItem.classed_ofAtRule ?_ h
      rw [Bool.and_comm, hcond]
      exact Sheet.classed_templateIn hname hwritten hrooted hall.2 hjoins hitems
    · rename_i hcond
      obtain ⟨items, -, h⟩ := bind_eq_ok.1 h
      refine TemplateItem.classed_ofAtRule ?_ h
      rw [Bool.and_comm, Bool.eq_false_iff.2 hcond]
      exact Template.classed_of_not name items

theorem Sheet.classed_templateIn (hname : name.IsName) :
    ∀ {context : List Resolved} {s : Sheet} {t : Template},
      (∀ r ∈ context, Written place (Token.ofClass place name) false r) → Rooted true context →
      Sheet.All (∀ s ∈ ·, s.Stands place) D A s →
      s.eachRule .someClass Selector.joinsInScope context true = true →
      s.templateIn context true = .ok t → Template.Classed name true t
  | _, [], t, _, _, _, _, h => by
    cases h
    trivial
  | _, c :: cs, t, hwritten, hrooted, hall, hjoins, h => by
    simp only [Sheet.templateIn, bind_eq_ok, pure_eq_ok] at h
    obtain ⟨first, hfirst, others, hothers, rfl⟩ := h
    rw [Sheet.eachRule, Bool.and_eq_true] at hjoins
    exact Template.classed_append.2
      ⟨Content.classed_template hname hwritten hrooted hall.1 hjoins.1 hfirst,
        Sheet.classed_templateIn hname hwritten hrooted hall.2 hjoins.2 hothers⟩

end

end Classed

/-- **The class of a scope stays a class of its own.** A source without placeholders is flattened
under every class that is made from a digest, and each selector outside keyframes-like at-rules is
then read as tokens one of which is that class: provided that no comment alone keeps two tokens of a
selector apart, that none of them ends in a backslash, and that what comes to stand behind the class
or behind a nesting marker is nothing that an identifier takes in. -/
theorem Sheet.hasClass_of_flatten {source : Text} {sheet : Sheet}
    (hparse : Sheet.parse source = .ok sheet)
    (hplain : Token.Plain (Text.tokenize source).tokens)
    (htight : Sheet.EachSelector Token.Tight (.ofSource source (Text.tokenize source).failure)
      (Text.tokenize source).tokens)
    (hjoins : sheet.eachRule .someClass Selector.joinsInScope [] true = true)
    (digest : List UInt8) (length : Int) :
    ∃ t, sheet.template = .ok t ∧
      sheet.flatten ⟨some (Fingerprint.className digest Fingerprint.defaultStem length)⟩ =
        .ok (Template.fill ('.' :: Fingerprint.className digest Fingerprint.defaultStem length) t) ∧
      Template.Classed (Fingerprint.className digest Fingerprint.defaultStem length) true t := by
  have hname := Fingerprint.isName_className digest length
  generalize Fingerprint.className digest Fingerprint.defaultStem length = name at hname
  have hne : name ≠ [] := by
    rintro rfl
    cases hname.starts
  have hwritable : Sheet.EachSelector
      (fun group => Token.Writable default (group.map (·.movedTo default)))
      (.ofSource source (Text.tokenize source).failure) (Text.tokenize source).tokens := by
    intro ts hsuffix hopens g hg group hmem
    obtain ⟨hwithin, -⟩ :=
      Selector.Groups.infix_of_split hopens (toOption_eq_some.1 hg) group hmem
    exact Text.writable_of_infix default (hwithin.trans hsuffix.isInfix)
      (htight ts hsuffix hopens g hg group hmem)
  have hall := Sheet.stands_of_run hwritable hplain hparse
  obtain ⟨out, hout⟩ := Sheet.exists_flatten ⟨some name⟩ (Sheet.wellNested_of_parse hparse)
    (Sheet.filled_of_all hall)
  rw [Sheet.flatten_eq sheet hne] at hout ⊢
  obtain ⟨t, ht, -⟩ := map_eq_ok.1 hout
  refine ⟨t, ht, by rw [ht]; rfl, ?_⟩
  exact Sheet.classed_templateIn hname (List.forall_mem_nil _) (Rooted.nil true) hall hjoins ht

/-- Combinators, a suffix, a descendant of the class, a conditional and frames; comments keep two
tokens of a value apart, and a comma from what follows it. -/
def joinedSource : Text :=
  "a > .b { c: d/**/e; &:e,/**/.f & { g: h } }".toList ++
    "@media m { svg|i:root { j: k } } @keyframes l { 50% { n: o } }".toList

theorem hasClass_joinedSource : ∃ sheet t,
    Sheet.parse joinedSource = .ok sheet ∧ sheet.template = .ok t ∧
      sheet.flatten ⟨some "stylescope-aaaaaaaa".toList⟩ =
        .ok (Template.fill ".stylescope-aaaaaaaa".toList t) ∧
      Template.Classed "stylescope-aaaaaaaa".toList true t := by
  have hname : Fingerprint.className (List.replicate 5 0) Fingerprint.defaultStem 8 =
      "stylescope-aaaaaaaa".toList := by decide
  have hjoins : ((Sheet.parse joinedSource).toOption.any fun sheet =>
      sheet.eachRule .someClass Selector.joinsInScope [] true) = true := by decide +kernel
  have htight : Sheet.EachSelector Token.Tight
      (.ofSource joinedSource (Text.tokenize joinedSource).failure)
      (Text.tokenize joinedSource).tokens := by decide +kernel
  cases hparse : Sheet.parse joinedSource with
  | error e =>
    rw [hparse] at hjoins
    cases hjoins
  | ok sheet =>
    rw [hparse] at hjoins
    obtain ⟨t, ht, hflatten, hclassed⟩ := Sheet.hasClass_of_flatten hparse (by decide +kernel)
      htight hjoins (List.replicate 5 0) 8
    rw [hname] at hflatten hclassed
    exact ⟨sheet, t, rfl, ht, hflatten, hclassed⟩

/-- The hyphen of an element name makes the class longer. -/
theorem class_runs_into_hyphen : ∃ sheet t,
    Sheet.parse "-foo \x7b color: red; \x7d".toList = .ok sheet ∧ sheet.template = .ok t ∧
      sheet.flatten ⟨some "stylescope-aaaaaaaa".toList⟩ =
        .ok (Template.fill ".stylescope-aaaaaaaa".toList t) ∧
      ¬Template.Classed "stylescope-aaaaaaaa".toList true t := by
  have h : (do
      let sheet ← Sheet.parse "-foo \x7b color: red; \x7d".toList
      let t ← sheet.template
      return decide (t.Classed "stylescope-aaaaaaaa".toList true)) = .ok false := by decide +kernel
  obtain ⟨sheet, hparse, h⟩ := bind_eq_ok.1 h
  obtain ⟨t, ht, h⟩ := bind_eq_ok.1 h
  refine ⟨sheet, t, hparse, ht, ?_, of_decide_eq_false (Except.ok.inj h)⟩
  rw [Sheet.flatten_eq sheet (by decide), ht]
  rfl

end ScopedCss
