/-
Reading a sheet with nothing taken for granted: besides what reading selectors relies on, a key to
read, a last token of a value, a token in front of a colon, a first declaration of a run, a brace
behind a head. The checked reader slips if any of these is missing, and also if a step leaves as
many tokens as it found.

It never slips: `step_eq` holds in every state whose tokens have text.
-/
import ScopedCss.Proofs.Selector.Checked
import ScopedCss.Proofs.Sheet.Faults

namespace ScopedCss.Checked

open Sheet (Ending State Head)

/-- The token that comes `n` tokens later, unless the source ends before it. -/
def peek (ending : Ending) (ts : List Token) (n : Nat) : Checked (Option Token) :=
  match ts[n]?, ending.failure with
  | some t, _ => .ok (some t)
  | none, some e => .error (.fault e)
  | none, none => .ok none

/-- The next token, which is relied on, and what follows it. -/
def next : List Token → Checked (Token × List Token)
  | [] => .error .slip
  | t :: ts => .ok (t, ts)

/-! ## Declarations -/

/-- Where a value runs into the next property. `rest` is what is left of the value from the token
with index `i` on. -/
def nextProperty (value : List Token) (depth i : Nat) : (rest : List Token) → Checked (Option Nat)
  | [] => .ok none
  | t :: ts =>
    if t.isOpener then nextProperty value (depth + 1) (i + 1) ts
    else if t.isCloser then nextProperty value (depth - 1) (i + 1) ts
    else if depth = 0 && t.isMark ':' && 0 < i then do
      let name ← expect value[i - 1]?
      if name.kind = .ident && name.spaced && 1 < i then .ok (some (i - 1))
      else nextProperty value depth (i + 1) ts
    else nextProperty value depth (i + 1) ts

/-- The tokens of a declaration's body, and those from its terminator on. -/
def body (ending : Ending) : List Token → Checked (List Token × List Token)
  | [] =>
    match ending.failure with
    | some e => .error (.fault e)
    | none => .ok ([], [])
  | t :: ts =>
    if t.isTerminator then .ok ([], t :: ts)
    else (fun read => (t :: read.1, read.2)) <$> body ending ts

/-- A malformed declaration at a place. -/
def dangle (key : Token) (tokens : List Token) (place : Location) (reason : Text) : Declaration :=
  { Declaration.dangle key tokens reason with location := some place }

/-- The last token of a declaration. -/
def lastToken (key : Token) (tokens : List Token) : Checked Token :=
  if tokens.isEmpty then .ok key else expect tokens.getLast?

/-- The declaration made of a key and the tokens after it. -/
def ofTokens (key : Token) (tokens : List Token) : Checked Declaration := do
  let value := tokens.drop 1
  let last ← lastToken key tokens
  let place := key.span last
  if key.kind ≠ .ident && key.kind ≠ .placeholder then
    return dangle key tokens place (Declaration.missingPropertyName key)
  else if tokens.isEmpty then
    return dangle key tokens place (Declaration.missingColon key)
  else
    let colon ← expect tokens.head?
    if !colon.isMark ':' then
      return dangle key tokens place (Declaration.missingColon key)
    else if value.isEmpty then
      return dangle key tokens place (Declaration.emptyValue key)
    else
      let first ← expect (Fragment.ofTokens [key]).head?
      return { key := first, value := Fragment.ofTokens value, location := some place }

/-- Where the value of a declaration runs into the next property. -/
def propertyIndex (tokens : List Token) : Checked (Option Nat) :=
  if tokens.head?.any (·.isMark ':') then nextProperty (tokens.drop 1) 0 0 (tokens.drop 1)
  else .ok none

/-- Reads a declaration, and gives back the remainder. -/
def readDeclaration (ending : Ending) (ts : List Token) : Checked (Declaration × List Token) := do
  let (key, ts) ← next ts
  let (tokens, after) ← body ending ts
  let value := tokens.drop 1
  let split ← propertyIndex tokens
  match split with
  | some n =>
    let (_, last) ← expectLast (value.take n)
    let colon ← expect tokens.head?
    return (dangle key (colon :: value.take n) (key.span last) (Declaration.missingSemicolon key),
      value.drop n ++ after)
  | none => (·, Declaration.dropSemicolon after) <$> ofTokens key tokens

/-- The tokens before the first brace outside brackets, each with the depth it stands at, and those
from the brace on. -/
def beforeBrace (ending : Ending) (depth : Nat) :
    List Token → Checked (List (Token × Nat) × List Token)
  | [] =>
    match ending.failure with
    | some e => .error (.fault e)
    | none => .ok ([], [])
  | t :: ts =>
    if depth = 0 && t.isMark '\x7b' then .ok ([], t :: ts)
    else
      let depth := if t.isCloser then depth - 1 else depth
      (fun read => ((t, depth) :: read.1, read.2)) <$>
        beforeBrace ending (if t.isOpener then depth + 1 else depth) ts

/-- The last place before `stop` that a compound begins at, but none before the third token. -/
def compoundStart (ts : List (Token × Nat)) : (stop : Nat) → Checked Nat
  | 0 => .ok 2
  | i + 1 =>
    if 1 < i then do
      let p ← expect ts[i]?
      if p.2 = 0 && p.1.spaced then .ok i else compoundStart ts i
    else .ok 2

/-- The place from which on there are only combinators before `cut`. -/
def backOverCombinators (ts : List (Token × Nat)) : (cut : Nat) → Checked Nat
  | 0 => .ok 0
  | n + 1 =>
    if 2 < n + 1 then do
      let p ← expect ts[n]?
      if p.1.isCombinator then backOverCombinators ts n else .ok (n + 1)
    else .ok (n + 1)

/-- How many tokens before a brace are the body of the declaration that runs into a rule there. -/
def unterminatedLength (ts : List (Token × Nat)) : Checked Nat := do
  let start ← compoundStart ts (ts.findIdx fun p => p.2 = 0 && p.1.isMark ',')
  let cut ← backOverCombinators ts start
  let value := ((ts.map (·.1)).take cut).drop 1
  let split ← nextProperty value 0 0 value
  match split with
  | some n => return n + 1
  | none => return cut

/-- Reads a declaration that runs into a rule, and gives the rule back. -/
def readUnterminated (ending : Ending) (ts : List Token) : Checked (Declaration × List Token) := do
  let (key, ts) ← next ts
  let (read, after) ← beforeBrace ending 0 ts
  let cut ← unterminatedLength read
  let tokens := read.map (·.1)
  let value := (tokens.take cut).drop 1
  let colon ← expect tokens.head?
  let (_, last) ← expectLast value
  return (dangle key (colon :: value) (key.span last) (Declaration.missingSemicolon key),
    tokens.drop cut ++ after)

/-! ## Blocks -/

/-- A run of declarations outside any rule, as a rule without selectors. -/
def bareRule (ds : List Declaration) : Checked Content := do
  let first ← expect ds.head?
  return .rule [] ds [] first.location

/-- The run read so far, if there is one, as a rule. -/
def flush (run : List Declaration) : Checked (List Content) :=
  if run.isEmpty then .ok [] else ([·]) <$> bareRule run

/-- The contents of a sheet or of an at-rule, behind the run of declarations `run`. -/
def contents (run : List Declaration) : List Item → Checked (List Content)
  | [] => flush run
  | .declaration d :: items => contents (run ++ [d]) items
  | .content c :: items => do
    let before ← flush run
    let others ← contents [] items
    return before ++ c :: others

/-- The content that a head and the items of its block make. -/
def close (items : List Item) : Head → Checked Content
  | .rule selectors location => .ok (Head.close items (.rule selectors location))
  | .atRule head => .atRule head <$> contents [] items

/-- What a step comes to, unless it stops the reading. -/
inductive Outcome where
  | next (s : State)
  | done (sheet : Sheet)

/-- The condition of an at-rule, and the tokens from its brace on. -/
def condition (ending : Ending) (sign name : Token) :
    List Token → Checked (List Token × List Token)
  | [] => .error (.fault (ending.failure.getD (.grammar (.endInAtRule name.text) sign.location)))
  | t :: ts =>
    if t.isMark '\x7b' then .ok ([], t :: ts)
    else if t.isTerminator then fault (.missingBlock name.text) t.location
    else (fun read => (t :: read.1, read.2)) <$> condition ending sign name ts

/-- Reads the head of an at-rule. -/
def atRule (ending : Ending) (s : State) : Checked Outcome := do
  let (sign, ts) ← next s.tokens
  let name ← peek ending ts 0
  match name with
  | none => fault .missingAtRuleName sign.location
  | some name =>
    if name.kind ≠ .ident || name.spaced then fault .missingAtRuleName sign.location
    else
      let (condition, rest) ← condition ending sign name ts.tail
      let (opening, rest) ← next rest
      return .next (s.openBlock
        (.atRule
          { kind := .ofName name.text
            name := name.text
            condition := Fragment.ofTokens condition
            location := some (sign.span opening) })
        opening.location rest)

/-- Reads the selectors of a rule. -/
def rule (ending : Ending) (s : State) : Checked Outcome := do
  let start ← expect s.tokens.head?
  let (selectors, rest) ← selectors ending.inSelector s.tokens
  let (opening, rest) ← next rest
  require (opening.isMark '\x7b')
  return .next (s.openBlock (.rule selectors start.location) opening.location rest)

/-- Whether a rule in front is really a declaration that lacks its `;`. -/
def runsIntoRule (ending : Ending) (ts : List Token) : Checked Bool := do
  let key ← peek ending ts 0
  let colon ← peek ending ts 1
  let value ← peek ending ts 2
  return key.any (·.kind = .ident) && colon.any (·.isMark ':') &&
    value.any fun t => t.spaced && !t.isMark '\x7b'

/-- Reads one item, or the head or the end of one block. -/
def step (ending : Ending) (s : State) : Checked Outcome := do
  let token ← peek ending s.tokens 0
  match token with
  | none =>
    match s.blocks with
    | b :: _ => fault .unterminatedBlock b.opening
    | [] => .done <$> contents [] s.items.reverse
  | some t =>
    if t.isMark '\x7d' then
      match s.blocks with
      | [] => fault .unexpectedBrace t.location
      | b :: blocks =>
        let content ← close s.items.reverse b.head
        return .next { s with
          tokens := s.tokens.tail, items := .content content :: b.before, blocks := blocks }
    else if t.isMark ';' then return .next { s with tokens := s.tokens.tail }
    else if t.isMark '@' then atRule ending s
    else
      let starts ← sure (Sheet.startsRule ending 0 s.tokens)
      if !starts then
        let read ← readDeclaration ending s.tokens
        return .next (s.addDeclaration read)
      else
        let runs ← runsIntoRule ending s.tokens
        if runs then
          let read ← readUnterminated ending s.tokens
          return .next (s.addDeclaration read)
        else rule ending s

/-- Steps until the sheet is read. A step that leaves as many tokens as it found is a slip. -/
def run (ending : Ending) (s : State) : Checked Sheet :=
  match step ending s with
  | .error stop => .error stop
  | .ok (.done sheet) => .ok sheet
  | .ok (.next s') =>
    if s'.tokens.length < s.tokens.length then run ending s' else .error .slip
termination_by s.tokens.length

/-- The sheet that a source writes. -/
def parse (source : Text) : Checked Sheet :=
  let stream := Text.tokenize source
  run (.ofSource source stream.failure) { tokens := stream.tokens }

/-! ## No reading of a declaration slips -/

/-- A token that is not the colon of the next property leads on to the token after it. -/
theorem nextProperty_cons {value : List Token} {i : Nat} {p : Token} (depth : Nat) (t : Token)
    (ts : List Token) (hp : 0 < i → value[i - 1]? = some p)
    (h : ¬(depth = 0 ∧ t.isMark ':' = true ∧ (p.kind = .ident ∧ p.spaced = true) ∧ 1 < i)) :
    nextProperty value depth i (t :: ts) =
      nextProperty value (Declaration.depthAfter depth t) (i + 1) ts := by
  simp only [nextProperty, Declaration.depthAfter]
  split
  · rfl
  split
  · rfl
  split
  · rename_i hcolon
    simp only [Bool.and_eq_true, decide_eq_true_eq] at hcolon
    have hname : ¬(decide (p.kind = .ident) && p.spaced && decide (1 < i)) = true := by
      simp only [Bool.and_eq_true, decide_eq_true_eq]
      exact fun hn => h ⟨hcolon.1.1, hcolon.1.2, hn⟩
    rw [hp hcolon.2, expect_some, ok_bind, if_neg hname]
  · rfl

theorem nextProperty_later {value : List Token} {n depth : Nat} {p : Token} {ts : List Token}
    (hp : value[n + 1]? = some p) (hts : value.drop (n + 2) = ts) :
    nextProperty value (Declaration.depthAfter depth p) (n + 2) ts =
      .ok ((· + (n + 1)) <$> Declaration.propertyIndex depth (p :: ts)) := by
  induction ts generalizing n depth p with
  | nil => simp [nextProperty, Declaration.propertyIndex]
  | cons t ts ih =>
    have ht : value[n + 2]? = some t := by
      rw [← List.head?_drop, hts, List.head?_cons]
    have hdrop : value.drop (n + 3) = ts := by
      rw [← List.tail_drop, hts, List.tail_cons]
    rw [Declaration.propertyIndex]
    by_cases hname : Declaration.depthAfter depth p = 0 ∧ p.kind = .ident ∧ p.spaced = true ∧
        t.isMark ':' = true
    · obtain ⟨hdepth, hkind, hspaced, hcolon⟩ := hname
      have hopener : t.isOpener = false := by
        simp [Token.isOpener, Token.isMark_eq_false hcolon]
      have hcloser : t.isCloser = false := by
        simp [Token.isCloser, Token.isMark_eq_false hcolon]
      simp [nextProperty, hopener, hcloser, hdepth, hkind, hspaced, hcolon, hp]
    · have hnot : (decide (Declaration.depthAfter depth p = 0) && decide (p.kind = .ident) &&
          p.spaced && (t :: ts).head?.any (·.isMark ':')) = false := by
        simpa using hname
      have hcons := nextProperty_cons _ t ts (i := n + 2) (fun _ => hp)
        fun h => hname ⟨h.1, h.2.2.1.1, h.2.2.1.2, h.2.1⟩
      rw [hcons, ih ht hdrop]
      simp only [hnot, Bool.false_eq_true, if_false, Functor.map_map]
      congr 2
      funext k
      omega

theorem nextProperty_eq (value : List Token) :
    nextProperty value 0 0 value = .ok (Declaration.nextProperty value) := by
  cases value with
  | nil => rfl
  | cons p ts =>
    rw [nextProperty_cons 0 p ts (p := p) (by simp) (by simp)]
    cases ts with
    | nil => rfl
    | cons t ts =>
      rw [nextProperty_cons _ t ts (p := p) (by simp) (by simp)]
      exact nextProperty_later (n := 0) rfl rfl

theorem body_eq {ending : Ending} {ts : List Token}
    (h : ending.failure = none ∨ ∃ t ∈ ts, t.isTerminator = true) :
    body ending ts =
      .ok (ts.takeWhile (!·.isTerminator), ts.dropWhile (!·.isTerminator)) := by
  induction ts with
  | nil =>
    have hnone : ending.failure = none := by simpa using h
    simp [body, hnone]
  | cons t ts ih =>
    by_cases ht : t.isTerminator = true
    · simp [body, ht]
    · have hrest : ending.failure = none ∨ ∃ u ∈ ts, u.isTerminator = true := by simpa [ht] using h
      simp [body, ht, ih hrest]

/-- A look ahead that finds no brace stops at a terminator or at the end. -/
theorem terminator_of_startsRule {ending : Ending} {depth : Nat} {ts : List Token}
    (h : Sheet.startsRule ending depth ts = .ok false) :
    ending.failure = none ∨ ∃ t ∈ ts, t.isTerminator = true := by
  induction ts generalizing depth with
  | nil =>
    unfold Sheet.startsRule at h
    split at h
    · cases h
    · rename_i hfailure
      exact .inl hfailure
  | cons t ts ih =>
    have hrest : ∀ {d}, Sheet.startsRule ending d ts = .ok false →
        ending.failure = none ∨ ∃ u ∈ t :: ts, u.isTerminator = true := by
      intro d hd
      exact (ih hd).imp_right fun ⟨u, hu, hterm⟩ => ⟨u, List.mem_cons_of_mem t hu, hterm⟩
    unfold Sheet.startsRule at h
    split at h
    · exact hrest h
    split at h
    · cases h
    split at h
    · rename_i hterm
      rw [Bool.and_eq_true] at hterm
      exact .inr ⟨t, List.mem_cons_self, hterm.2⟩
    · exact hrest h

/-- A malformed declaration spans its tokens. -/
theorem dangle_eq {key : Token} {tokens : List Token} {last : Token} (reason : Text)
    (h : tokens.getLast?.getD key = last) :
    dangle key tokens (key.span last) reason = Declaration.dangle key tokens reason := by
  simp [dangle, Declaration.dangle, Declaration.placeOf, h]

/-- The last token of a value that is there is the last one of the declaration. -/
theorem exists_expectLast (key colon : Token) {value : List Token} (h : value ≠ [])
    (reason : Text) :
    ∃ read, expectLast value = .ok read ∧
      dangle key (colon :: value) (key.span read.2) reason =
        Declaration.dangle key (colon :: value) reason := by
  obtain ⟨front, last, rfl⟩ := (List.eq_nil_or_concat' value).resolve_left h
  refine ⟨(front, last), expectLast_concat front last, dangle_eq reason ?_⟩
  rw [← List.cons_append, List.getLast?_concat, Option.getD_some]

theorem lt_of_propertyIndex {depth n : Nat} {ts : List Token}
    (h : Declaration.propertyIndex depth ts = some n) : n < ts.length := by
  induction ts generalizing depth n with
  | nil => cases h
  | cons t ts ih =>
    simp only [Declaration.propertyIndex] at h
    split at h
    · cases h
      simp
    · obtain ⟨m, hm, rfl⟩ := Option.map_eq_some_iff.1 h
      have hlt := ih hm
      simpa using hlt

theorem bounds_of_nextProperty {value : List Token} {n : Nat}
    (h : Declaration.nextProperty value = some n) : 0 < n ∧ n < value.length := by
  cases value with
  | nil => cases h
  | cons t ts =>
    obtain ⟨m, hm, rfl⟩ := Option.map_eq_some_iff.1 h
    have hlt := lt_of_propertyIndex hm
    simpa using hlt

/-- A key with text is one fragment. -/
theorem ofTokens_singleton {key : Token} (h : key.text ≠ []) :
    Fragment.ofTokens [key] = [Fragment.ofToken key] := by
  simp only [Fragment.ofTokens, Fragment.ofToken]
  split <;> simp [Fragment.merge, h]

theorem lastToken_eq (key : Token) (tokens : List Token) :
    lastToken key tokens = .ok (tokens.getLast?.getD key) := by
  rcases List.eq_nil_or_concat' tokens with rfl | ⟨front, last, rfl⟩ <;> simp [lastToken]

theorem ofTokens_eq {key : Token} (h : key.text ≠ []) (tokens : List Token) :
    ofTokens key tokens = .ok (Declaration.ofTokens key tokens) := by
  simp only [ofTokens, Declaration.ofTokens, lastToken_eq, ok_bind, dangle_eq _ rfl,
    ofTokens_singleton h]
  split
  · rfl
  · cases tokens with
    | nil => rfl
    | cons colon value =>
      simp only [List.isEmpty_cons, List.head?_cons, expect_some, ok_bind, Bool.false_eq_true,
        if_false, List.drop_succ_cons, List.drop_zero]
      split
      · rfl
      · split <;> rfl

theorem readDeclaration_eq {ending : Ending} {key : Token} {ts : List Token}
    (hends : Sheet.startsRule ending 0 (key :: ts) = .ok false)
    (hkey : key.isTerminator = false) (htext : key.text ≠ []) :
    readDeclaration ending (key :: ts) = .ok (Declaration.readDeclaration key ts) := by
  have hterminator : ending.failure = none ∨ ∃ t ∈ ts, t.isTerminator = true := by
    simpa [hkey] using terminator_of_startsRule hends
  simp only [readDeclaration, Declaration.readDeclaration, next, ok_bind, body_eq hterminator,
    ofTokens_eq htext]
  generalize ts.takeWhile (!·.isTerminator) = tokens
  generalize ts.dropWhile (!·.isTerminator) = after
  cases tokens with
  | nil => rfl
  | cons colon value =>
    have hindex : propertyIndex (colon :: value) =
        .ok (if colon.isMark ':' then Declaration.nextProperty value else none) := by
      simp only [propertyIndex, List.head?_cons, Option.any_some, List.drop_succ_cons,
        List.drop_zero, nextProperty_eq]
      split <;> rfl
    by_cases hcolon : colon.isMark ':' = true
    · cases hnext : Declaration.nextProperty value with
      | none => simp [Declaration.ownLength?, hindex, hcolon, hnext]
      | some n =>
        obtain ⟨hpos, hlt⟩ := bounds_of_nextProperty hnext
        have hown : value.take n ≠ [] :=
          List.length_pos_iff.1 (by rw [List.length_take]; omega)
        obtain ⟨read, hread, hdangle⟩ :=
          exists_expectLast key colon hown (Declaration.missingSemicolon key)
        simp [Declaration.ownLength?, hindex, hcolon, hnext, hread, hdangle]
    · simp [Declaration.ownLength?, hindex, hcolon]

/-! ## No reading of a declaration that runs into a rule slips -/

/-- A token in front of the brace leads on to the one after it. -/
theorem startsRule_cons {ending : Ending} {depth : Nat} {t : Token} {ts : List Token}
    (hbrace : (decide (depth = 0) && t.isMark '\x7b') = false)
    (h : Sheet.startsRule ending depth (t :: ts) = .ok true) :
    Sheet.startsRule ending (Declaration.depthAfter depth t) ts = .ok true := by
  rw [Sheet.startsRule, hbrace] at h
  by_cases hbracket : (t.isOpener || t.isCloser) = true
  · simpa [hbracket] using h
  · have hdepth : Declaration.depthAfter depth t = depth := by
      simp only [Bool.or_eq_true, not_or] at hbracket
      simp [Declaration.depthAfter, hbracket]
    rw [hdepth]
    by_cases hend : (decide (depth = 0) && t.isTerminator) = true <;>
      simp_all

theorem beforeBrace_eq {ending : Ending} {depth : Nat} {ts : List Token}
    (h : Sheet.startsRule ending depth ts = .ok true) :
    beforeBrace ending depth ts =
      .ok (Declaration.beforeBrace depth ts,
        ts.drop (Declaration.beforeBrace depth ts).length) := by
  induction ts generalizing depth with
  | nil =>
    unfold Sheet.startsRule at h
    split at h <;> cases h
  | cons t ts ih =>
    cases hbrace : decide (depth = 0) && t.isMark '\x7b' with
    | true => simp [beforeBrace, Declaration.beforeBrace, hbrace]
    | false =>
      have hdepth : Declaration.depthAfter depth t =
          if t.isOpener then (if t.isCloser then depth - 1 else depth) + 1
          else if t.isCloser then depth - 1 else depth := by
        unfold Declaration.depthAfter
        split
        · rename_i hopener
          have hcloser : t.isCloser = false := by
            simp only [Token.isOpener, Bool.or_eq_true] at hopener
            rcases hopener with h | h <;> simp [Token.isCloser, Token.isMark_eq_false h]
          simp [hcloser]
        · rfl
      have hnext := ih (startsRule_cons hbrace h)
      simp only [beforeBrace, Declaration.beforeBrace, hbrace, ← hdepth, hnext]
      simp

theorem map_beforeBrace (depth : Nat) (ts : List Token) :
    (Declaration.beforeBrace depth ts).map (·.1) =
      ts.take (Declaration.beforeBrace depth ts).length := by
  induction ts generalizing depth with
  | nil => rfl
  | cons t ts ih =>
    unfold Declaration.beforeBrace
    split
    · rfl
    · simp [ih]

theorem compoundStart_eq {ts : List (Token × Nat)} {stop : Nat} (h : stop ≤ ts.length) :
    compoundStart ts stop =
      .ok (((List.range stop).reverse.find? fun i =>
        2 ≤ i && (ts[i]?).any fun p => p.2 = 0 && p.1.spaced).getD 2) := by
  induction stop with
  | zero => rfl
  | succ i ih =>
    have hp : ts[i]? = some ts[i] := List.getElem?_eq_getElem h
    rw [List.range_succ, List.reverse_concat, List.find?_cons, compoundStart, hp]
    by_cases hi : 1 < i
    · simp only [hi, if_true, expect_some, ok_bind, ih (Nat.le_of_succ_le h), Option.any_some]
      have htwo : decide (2 ≤ i) = true := decide_eq_true hi
      rw [htwo, Bool.true_and]
      cases decide (ts[i].2 = 0) && ts[i].1.spaced <;> rfl
    · -- no place is left to look at
      have hnone : (List.range i).reverse.find? (fun j =>
          2 ≤ j && (ts[j]?).any fun p => p.2 = 0 && p.1.spaced) = none := by
        rw [List.find?_eq_none]
        intro j hj
        have hlt : j < i := by simpa using hj
        have htwo : ¬2 ≤ j := by omega
        simp [htwo]
      have htwo : ¬2 ≤ i := by omega
      simp [hi, htwo, hnone]

theorem backOverCombinators_eq {ts : List (Token × Nat)} {cut : Nat} (h : cut ≤ ts.length) :
    backOverCombinators ts cut =
      .ok (Declaration.backOverCombinators (ts.map (·.1)) cut) := by
  induction cut with
  | zero => rfl
  | succ n ih =>
    have hp : ts[n]? = some ts[n] := List.getElem?_eq_getElem h
    simp only [backOverCombinators, Declaration.backOverCombinators, hp, List.getElem?_map,
      expect_some, ok_bind, ih (Nat.le_of_succ_le h), Option.map_some, Option.any_some]
    by_cases hn : 2 < n + 1
    · simp only [hn, if_true, decide_true, Bool.true_and]
      split <;> rfl
    · simp [hn]

theorem backOverCombinators_bounds (ts : List Token) {cut : Nat} (h : 2 ≤ cut) :
    2 ≤ Declaration.backOverCombinators ts cut ∧ Declaration.backOverCombinators ts cut ≤ cut := by
  induction cut with
  | zero => cases h
  | succ n ih =>
    unfold Declaration.backOverCombinators
    split
    · rename_i hback
      simp only [Bool.and_eq_true, decide_eq_true_eq] at hback
      obtain ⟨hle, hge⟩ := ih (by omega)
      exact ⟨hle, by omega⟩
    · exact ⟨h, Nat.le_refl _⟩

theorem compoundStart_bounds {ts : List (Token × Nat)} (h : 2 ≤ ts.length) :
    2 ≤ Declaration.compoundStart ts ∧ Declaration.compoundStart ts ≤ ts.length := by
  have hstop : (ts.findIdx fun p => p.2 = 0 && p.1.isMark ',') ≤ ts.length :=
    List.findIdx_le_length
  simp only [Declaration.compoundStart]
  generalize hfind : List.find? _ _ = found
  cases found with
  | none => exact ⟨Nat.le_refl 2, h⟩
  | some i =>
    have hi := List.find?_some hfind
    have hmem := List.mem_of_find?_eq_some hfind
    simp only [List.mem_reverse, List.mem_range] at hmem
    simp only [Bool.and_eq_true, decide_eq_true_eq] at hi
    exact ⟨hi.1, by simp only [Option.getD_some]; omega⟩

/-- A declaration that runs into a rule keeps its colon and a token of its value. -/
theorem unterminatedLength_bounds {ts : List (Token × Nat)} (h : 2 ≤ ts.length) :
    2 ≤ Declaration.unterminatedLength ts ∧ Declaration.unterminatedLength ts ≤ ts.length := by
  obtain ⟨hstart, hstart'⟩ := compoundStart_bounds h
  obtain ⟨hcut, hcut'⟩ := backOverCombinators_bounds (ts.map (·.1)) hstart
  simp only [Declaration.unterminatedLength]
  split
  · rename_i n hnext
    obtain ⟨hpos, hlt⟩ := bounds_of_nextProperty hnext
    simp only [List.length_drop, List.length_take, List.length_map] at hlt
    omega
  · omega

theorem unterminatedLength_eq {ts : List (Token × Nat)} (h : 2 ≤ ts.length) :
    unterminatedLength ts = .ok (Declaration.unterminatedLength ts) := by
  obtain ⟨-, hstart⟩ := compoundStart_bounds h
  have hcompound : compoundStart ts (ts.findIdx fun p => p.2 = 0 && p.1.isMark ',') =
      .ok (Declaration.compoundStart ts) := compoundStart_eq List.findIdx_le_length
  simp only [unterminatedLength, Declaration.unterminatedLength, hcompound, ok_bind,
    backOverCombinators_eq hstart, nextProperty_eq]
  generalize Declaration.nextProperty _ = split
  cases split <;> rfl

/-- A declaration that runs into a rule begins with a name and a colon, and a token of its value
stands before the brace. -/
theorem beforeBrace_of_runsIntoRule {key : Token} {ts : List Token}
    (h : Sheet.runsIntoRule (key :: ts) = true) :
    key.kind = .ident ∧ 2 ≤ (Declaration.beforeBrace 0 ts).length := by
  unfold Sheet.runsIntoRule at h
  split at h
  · rename_i key' colon value rest hts
    cases hts
    simp only [Bool.and_eq_true, decide_eq_true_eq, Bool.not_eq_true'] at h
    obtain ⟨⟨⟨hkey, hcolon⟩, -⟩, hvalue⟩ := h
    have hdepth : Declaration.depthAfter 0 colon = 0 := by
      simp [Declaration.depthAfter, Token.isOpener, Token.isCloser, Token.isMark_eq_false hcolon]
    refine ⟨hkey, ?_⟩
    simp [Declaration.beforeBrace, Token.isMark_eq_false hcolon, hdepth, hvalue]
  · cases h

theorem readUnterminated_eq {ending : Ending} {key : Token} {ts : List Token}
    (hopens : Sheet.startsRule ending 0 (key :: ts) = .ok true)
    (hruns : Sheet.runsIntoRule (key :: ts) = true) :
    readUnterminated ending (key :: ts) = .ok (Declaration.readUnterminated key ts) := by
  obtain ⟨hkey, hlength⟩ := beforeBrace_of_runsIntoRule hruns
  have hmark : ∀ c, key.isMark c = false := fun c => by simp [Token.isMark, hkey]
  have hdepth : Declaration.depthAfter 0 key = 0 := by
    simp [Declaration.depthAfter, Token.isOpener, Token.isCloser, hmark]
  have hrest := startsRule_cons (by simp [hmark]) hopens
  rw [hdepth] at hrest
  have htokens := map_beforeBrace 0 ts
  simp only [readUnterminated, Declaration.readUnterminated, next, ok_bind, beforeBrace_eq hrest,
    unterminatedLength_eq hlength]
  generalize Declaration.beforeBrace 0 ts = read at *
  obtain ⟨hcut, hcut'⟩ := unterminatedLength_bounds hlength
  generalize Declaration.unterminatedLength read = n at *
  have hle : read.length ≤ ts.length := by
    have hlen := congrArg List.length htokens
    rw [List.length_map, List.length_take] at hlen
    omega
  have hgiven : (ts.take read.length).drop n ++ ts.drop read.length = ts.drop n := by
    rw [← List.drop_append_of_le_length (by rw [List.length_take]; omega), List.take_append_drop]
  rw [htokens, List.take_take, Nat.min_eq_left hcut', hgiven]
  cases ts with
  | nil =>
    simp only [List.length_nil] at hle
    omega
  | cons colon ts =>
    obtain ⟨m, rfl⟩ : ∃ m, n = m + 2 := ⟨n - 2, by omega⟩
    obtain ⟨l, hl⟩ : ∃ l, read.length = l + 2 := ⟨read.length - 2, by omega⟩
    have hvalue : ts.take (m + 1) ≠ [] := by
      rw [List.length_cons] at hle
      exact List.length_pos_iff.1 (by rw [List.length_take]; omega)
    obtain ⟨last, hlast, hdangle⟩ :=
      exists_expectLast key colon hvalue (Declaration.missingSemicolon key)
    simp [hl, hlast, hdangle]

end ScopedCss.Checked
