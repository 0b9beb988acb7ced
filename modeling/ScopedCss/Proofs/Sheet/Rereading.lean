/-
Tokens that are read as certain items, whatever state the reader is in and whatever follows them
(`Sheet.Reads`). Such readings can be put one after the other (`Reads.append`) and inside a block
(`Opens.block`), whose head is a list of selectors (`opens_rule`) or that of an at-rule
(`opens_atRule`).
-/
import ScopedCss.Proofs.Sheet.Semicolon

namespace ScopedCss

open Token (through)
open Declaration (depthAfter)

namespace Sheet

/-- In any state, `ts` are read as `items`. -/
def Reads (ts : List Token) (items : List Item) : Prop :=
  ∀ (ending : Ending) (s : State) (rest : List Token), ending.failure = none →
    s.tokens = ts ++ rest →
    run ending s = run ending { s with tokens := rest, items := items.reverse ++ s.items }

/-- In any state, `ts` are read as `head` and the brace after it. -/
def Opens (ts : List Token) (head : Head) : Prop :=
  ∀ (ending : Ending) (s : State) (rest : List Token), ending.failure = none →
    s.tokens = ts ++ rest → ∃ opening, run ending s = run ending (s.openBlock head opening rest)

theorem Reads.nil : Reads [] [] := by
  intro ending s rest _ htokens
  obtain ⟨tokens, items, blocks, recovered⟩ := s
  cases htokens
  rfl

theorem Reads.append {ts us : List Token} {items items' : List Item} (h : Reads ts items)
    (h' : Reads us items') : Reads (ts ++ us) (items ++ items') := by
  intro ending s rest hfailure htokens
  rw [List.append_assoc] at htokens
  rw [h ending s _ hfailure htokens, h' ending _ rest hfailure rfl]
  simp only [List.reverse_append, List.append_assoc]

/-- Items between a head and a closing brace are a block. -/
theorem Opens.block {ts us : List Token} {head : Head} {items : List Item} {close : Token}
    (h : Opens ts head) (h' : Reads us items) (hclose : close.isMark '\x7d' = true) :
    Reads (ts ++ us ++ [close]) [.content (head.close items)] := by
  intro ending s rest hfailure htokens
  simp only [List.append_assoc, List.singleton_append] at htokens
  obtain ⟨opening, hopen⟩ := h ending s _ hfailure htokens
  rw [hopen, h' ending _ (close :: rest) hfailure rfl]
  refine run_of_next ?_
  simp [step, State.openBlock, hclose]

/-- A declaration with its `;` is read as one item. -/
theorem reads_declaration {key colon semicolon : Token} {vs : List Token}
    (hkey : key.kind = .ident) (hcolon : colon.isMark ':' = true) (hvs : vs ≠ [])
    (hinside : ∀ t ∈ vs, inCondition t = true) (hclosed : vs.foldl depthAfter 0 = 0)
    (halone : Declaration.nextProperty vs = none) (hsemicolon : semicolon.isMark ';' = true) :
    Reads (key :: colon :: vs ++ [semicolon])
      [.declaration
        { key := .literal key.text
          value := Fragment.ofTokens vs
          location := some (Declaration.placeOf key (colon :: vs)) }] := by
  intro ending s rest _ htokens
  have hmark := Token.isMark_of_kind (t := key) (by rw [hkey]; decide)
  have hbody : ∀ t ∈ colon :: vs, inCondition t = true := by
    refine List.forall_mem_cons.2 ⟨?_, hinside⟩
    simp [inCondition, Token.isTerminator, Token.isMark_eq hcolon]
  have hall : ∀ t ∈ key :: colon :: vs, inCondition t = true := by
    refine List.forall_mem_cons.2 ⟨?_, hbody⟩
    simp [inCondition, Token.isTerminator, hmark]
  have hdepth : (key :: colon :: vs).foldl depthAfter 0 = 0 := by
    simp only [List.foldl_cons]
    simpa [depthAfter, Token.isOpener, Token.isCloser, hmark, Token.isMark_eq hcolon] using hclosed
  have htokens : s.tokens = key :: (colon :: vs ++ semicolon :: rest) := by
    rw [htokens]
    simp
  have hends : startsRule ending 0 (key :: (colon :: vs ++ semicolon :: rest)) = .ok false := by
    have hstarts : startsRule ending 0 (key :: colon :: vs ++ semicolon :: rest) = _ :=
      startsRule_inside hall (semicolon :: rest)
    rw [hdepth] at hstarts
    refine hstarts.trans ?_
    simp [startsRule, Token.isOpener, Token.isCloser, Token.isTerminator, Token.isMark_eq hsemicolon]
  have hterminates : ∀ t ∈ (semicolon :: rest).head?, t.isTerminator = true := by
    rintro t ⟨⟩
    simp [Token.isTerminator, hsemicolon]
  rw [run_of_next (step_of_declaration htokens hkey hends),
    Declaration.readDeclaration_alone hkey hcolon hvs hbody halone hterminates]
  simp [State.addDeclaration, Declaration.isDangling, Declaration.dropSemicolon, hsemicolon]

/-- The head of an at-rule goes up to its brace. -/
theorem opens_atRule {sign name brace : Token} {cs : List Token} (hsign : sign.isMark '@' = true)
    (hname : name.kind = .ident) (hspaced : name.spaced = false)
    (hinside : ∀ t ∈ cs, inCondition t = true) (hbrace : brace.isMark '\x7b' = true) :
    Opens (sign :: name :: cs ++ [brace])
      (.atRule
        { kind := .ofName name.text
          name := name.text
          condition := Fragment.ofTokens cs
          location := some (sign.span brace) }) := by
  intro ending s rest _ htokens
  have hstop : inCondition brace = false := by simp [inCondition, hbrace]
  have htake : (cs ++ brace :: rest).takeWhile inCondition = cs := by
    rw [List.takeWhile_append_of_pos hinside, List.takeWhile_cons_of_neg (by simp [hstop]),
      List.append_nil]
  have hdrop : (cs ++ brace :: rest).dropWhile inCondition = brace :: rest := by
    rw [List.dropWhile_append_of_pos hinside, List.dropWhile_cons_of_neg (by simp [hstop])]
  refine ⟨brace.location, run_of_next ?_⟩
  rw [step, htokens]
  simp [stepAtRule, Token.isMark_eq hsign, hname, hspaced, htake, hdrop, hbrace]

end Sheet

/-! ### Selector lists -/

/-- The tokens of groups with commas between them. -/
def Token.groupTokens (first : List Token) (others : List (Token × List Token)) : List Token :=
  first ++ others.flatMap fun p => p.1 :: p.2

/-- A group that neither is empty nor ends a selector list. -/
def Token.IsGroup (ts : List Token) : Prop := ts ≠ [] ∧ through 0 ts = some 0

namespace Token

variable {first : List Token} {others : List (Token × List Token)} {brace : Token}

theorem groupTokens_cons (first : List Token) (p : Token × List Token)
    (others : List (Token × List Token)) :
    groupTokens first (p :: others) = first ++ p.1 :: groupTokens p.2 others := by
  simp [groupTokens]

theorem split_groupTokens (hfirst : IsGroup first)
    (hothers : ∀ p ∈ others, p.1.isMark ',' = true ∧ IsGroup p.2)
    (hbrace : brace.isMark '\x7b' = true) (e : Error) (started : Bool) (rest : List Token) :
    Selector.Groups.split e 0 started (groupTokens first others ++ brace :: rest) =
      .ok ⟨first :: others.map (·.2), brace, rest⟩ := by
  induction others generalizing first started with
  | nil =>
    rw [groupTokens, List.flatMap_nil, List.append_nil, Selector.Groups.split_through hfirst.2,
      Selector.Groups.split, if_pos (by simp [hbrace]), map_ok, Selector.Groups.prepend_mk]
    simp
  | cons p others ih =>
    obtain ⟨⟨hcomma, hgroup⟩, hothers⟩ := List.forall_mem_cons.1 hothers
    have hne : first.isEmpty = false := by simpa using hfirst.1
    have hmark := isMark_eq hcomma
    rw [groupTokens_cons, List.append_assoc, List.cons_append,
      Selector.Groups.split_through hfirst.2, Selector.Groups.split]
    simp only [hmark, isOpener, isCloser, hne, ih hgroup hothers, map_ok]
    simp [Selector.Groups.prepend_mk]

theorem startsRule_groupTokens (hfirst : IsGroup first)
    (hothers : ∀ p ∈ others, p.1.isMark ',' = true ∧ IsGroup p.2)
    (hbrace : brace.isMark '\x7b' = true) (ending : Sheet.Ending) (rest : List Token) :
    Sheet.startsRule ending 0 (groupTokens first others ++ brace :: rest) = .ok true := by
  induction others generalizing first with
  | nil =>
    rw [groupTokens, List.flatMap_nil, List.append_nil, Sheet.startsRule_through hfirst.2]
    simp [Sheet.startsRule, isOpener, isCloser, isMark_eq hbrace]
  | cons p others ih =>
    obtain ⟨⟨hcomma, hgroup⟩, hothers⟩ := List.forall_mem_cons.1 hothers
    have hmark := isMark_eq hcomma
    rw [groupTokens_cons, List.append_assoc, List.cons_append, Sheet.startsRule_through hfirst.2,
      Sheet.startsRule]
    simp only [hmark, isOpener, isCloser, isTerminator]
    exact ih hgroup hothers

end Token

namespace Selector

theorem exists_of_pseudoLength_ok {colon : Token} {ts : List Token} {n : Nat}
    (h : pseudoLength colon ts = .ok n) : ∃ u us, ts = u :: us ∧ u.spaced = false := by
  cases ts with
  | nil => cases h
  | cons u us =>
    refine ⟨u, us, rfl, ?_⟩
    rw [pseudoLength] at h
    split at h
    · rename_i hcolon
      simp only [Bool.and_eq_true, Bool.not_eq_true'] at hcolon
      exact hcolon.2
    · rw [pseudoNameLength] at h
      split at h
      · rename_i hname
        simp only [Bool.and_eq_true, Bool.not_eq_true'] at hname
        exact hname.2
      · cases h

/-- White space after the colon of a pseudo-class is a fault, so no selector looks like a
declaration. -/
theorem runsIntoRule_of_reads {t : Token} {ts : List Token} {fs : List Fragment}
    (h : fragmentsAfter none (t :: ts) = .ok fs) {rest : List Token}
    (hrest : ∀ u ∈ rest.head?, u.isMark ':' = false) :
    Sheet.runsIntoRule (t :: ts ++ rest) = false := by
  match ts, h with
  | [], _ =>
    match rest with
    | [] => rfl
    | [_] => rfl
    | u :: v :: rest => simp [Sheet.runsIntoRule, hrest u rfl]
  | colon :: ts, h =>
    by_cases hident : t.kind = .ident ∧ colon.isMark ':' = true
    · obtain ⟨hkind, hcolon⟩ := hident
      have hmark := Token.isMark_of_kind (t := t) (by rw [hkind]; decide)
      have hcolonMark := Token.isMark_eq hcolon
      have hkindColon : colon.kind ≠ .placeholder := by
        intro hplaceholder
        simp [Token.isMark, hplaceholder] at hcolon
      have hname : simpleLength t (colon :: ts) = .ok 0 := by
        simp [simpleLength, Token.isOpener, hmark]
      have hpseudo : simpleLength colon ts = pseudoLength colon ts := by
        simp [simpleLength, Token.isOpener, hcolonMark]
      rw [fragmentsAfter] at h
      simp only [Token.isCombinator, hmark, hkind, hname] at h
      obtain ⟨gs, hgs, -⟩ := map_eq_ok.1 h
      rw [List.drop_zero, fragmentsAfter] at hgs
      simp only [Token.isCombinator, hcolonMark, hkindColon, hpseudo] at hgs
      cases hlength : pseudoLength colon ts with
      | error e => simp [hlength] at hgs
      | ok n =>
        obtain ⟨u, us, rfl, hspaced⟩ := exists_of_pseudoLength_ok hlength
        simp [Sheet.runsIntoRule, hspaced]
    · cases hmore : ts ++ rest with
      | nil => simp [Sheet.runsIntoRule, hmore]
      | cons u us =>
        simp only [List.cons_append, Sheet.runsIntoRule, hmore]
        simp only [not_and, Bool.not_eq_true] at hident
        by_cases hkind : t.kind = .ident
        · simp [hident hkind]
        · simp [hkind]

end Selector

namespace Sheet

/-- Selectors and the brace after them open a rule. -/
theorem opens_rule {first : List Token} {others : List (Token × List Token)} {brace t : Token}
    {selectors : List Selector} (hfirst : Token.IsGroup first)
    (hothers : ∀ p ∈ others, p.1.isMark ',' = true ∧ Token.IsGroup p.2)
    (hbrace : brace.isMark '\x7b' = true) (ht : t ∈ first.head?) (hsign : t.isMark '@' = false)
    (hread : (first :: others.map (·.2)).mapM Selector.ofTokens = .ok selectors) :
    Opens (Token.groupTokens first others ++ [brace]) (.rule selectors t.location) := by
  intro ending s rest hfailure htokens
  obtain ⟨ts, rfl⟩ : ∃ ts, first = t :: ts := by
    cases first with
    | nil => cases ht
    | cons u ts =>
      cases ht
      exact ⟨ts, rfl⟩
  obtain ⟨more, hmore⟩ : ∃ more, others.flatMap (fun p => p.1 :: p.2) ++ brace :: rest = more :=
    ⟨_, rfl⟩
  have hall : Token.groupTokens (t :: ts) others ++ brace :: rest = t :: (ts ++ more) := by
    rw [← hmore, Token.groupTokens, List.append_assoc, List.cons_append]
  have htokens : s.tokens = t :: (ts ++ more) := by
    rw [htokens, ← hall, List.append_assoc, List.singleton_append]
  have hstarts := Token.startsRule_groupTokens hfirst hothers hbrace ending rest
  have hsplit := Token.split_groupTokens hfirst hothers hbrace ending.inSelector false rest
  rw [hall] at hstarts hsplit
  have hplain : t.isMark '\x7d' = false ∧ t.isMark ';' = false := by
    obtain ⟨hopen, -⟩ | ⟨-, hclose, hdepth, -⟩ | ⟨-, -, hends, -⟩ :=
      Token.through_cons_eq_some hfirst.2
    · exact ⟨Token.isMark_of_bracket (.inl hopen) (by decide),
        Token.isMark_of_bracket (.inl hopen) (by decide)⟩
    · exact absurd rfl hdepth
    · have hends := hends rfl
      simp only [Token.endsSelector, Token.isTerminator, Bool.or_eq_false_iff] at hends
      exact ⟨hends.2.2, hends.2.1⟩
  have hsecond : ending.beforeSecond (ts ++ more) = none := by
    unfold Ending.beforeSecond
    split
    · rfl
    · exact hfailure
  have hruns : runsIntoRule (t :: (ts ++ more)) = false := by
    obtain ⟨selector, -, hselector, -, -⟩ := List.forall₂_cons_left_iff.1 (mapM_eq_ok.1 hread)
    obtain ⟨fs, hfs, -⟩ := map_eq_ok.1 hselector
    refine Selector.runsIntoRule_of_reads hfs ?_
    rw [← hmore]
    cases others with
    | nil =>
      rintro u ⟨⟩
      simp [Token.isMark_eq hbrace]
    | cons p others =>
      rintro u ⟨⟩
      simp [Token.isMark_eq (hothers p List.mem_cons_self).1]
  have hlast : ((t :: ts) :: others.map (·.2)).getLast? ≠ some [] := by
    intro hempty
    have hmem := List.mem_of_getLast? hempty
    rcases List.mem_cons.1 hmem with heq | hmem
    · cases heq
    · obtain ⟨p, hp, hnil⟩ := List.mem_map.1 hmem
      exact (hothers p hp).2.1 hnil
  refine ⟨brace.location, run_of_next ?_⟩
  rw [step, htokens]
  simp only [hplain, hsign, hstarts, hsecond, hruns, stepRule, hsplit, Selector.Groups.selectors,
    if_neg hlast, hread, Bool.false_eq_true, if_false]

end Sheet

end ScopedCss
