/-
Reading a selector from its tokens. White space between two compound selectors is a descendant
combinator, and every other combinator stands between compounds or at the front.
-/
import ScopedCss.Error
import ScopedCss.Selector.Basic

namespace ScopedCss.Selector

/-- The bracket that closes the one a token opens. -/
def closerOf (t : Token) : Char := if t.isMark '[' then ']' else ')'

/-- How many tokens go up to the bracket that closes `opening`, that bracket included. `closer` is
awaited first, then the ones of `outer` in order. -/
def bracketLength (opening : Token) (closer : Char) (outer : List Char) :
    List Token → Except Error Nat
  | [] => .error (.grammar (.unclosedBracket opening.text) opening.location)
  | t :: ts =>
    if t.isOpener then
      (· + 1) <$> bracketLength opening (closerOf t) (closer :: outer) ts
    else if t.isCloser then
      if t.isMark closer then
        match outer with
        | [] => .ok 1
        | c :: outer => (· + 1) <$> bracketLength opening c outer ts
      else .error (.grammar .mismatchedBracket t.location)
    else (· + 1) <$> bracketLength opening closer outer ts

/-- How many tokens of `ts` are the arguments of a pseudo-class. -/
def argumentLength : List Token → Except Error Nat
  | [] => .ok 0
  | t :: ts =>
    if t.isMark '(' && !t.spaced then (· + 1) <$> bracketLength t ')' [] ts else .ok 0

/-- How many tokens of `ts` are the name and arguments of a pseudo-class that begins at `colon`. -/
def pseudoNameLength (colon : Token) : List Token → Except Error Nat
  | [] => .error (.grammar .missingPseudoClass colon.location)
  | t :: ts =>
    if t.kind = .ident && !t.spaced then (· + 1) <$> argumentLength ts
    else .error (.grammar .missingPseudoClass colon.location)

/-- How many tokens of `ts` follow `colon` in a pseudo-class or pseudo-element. -/
def pseudoLength (colon : Token) : List Token → Except Error Nat
  | [] => pseudoNameLength colon []
  | t :: ts =>
    if t.isMark ':' && !t.spaced then (· + 1) <$> pseudoNameLength colon ts
    else pseudoNameLength colon (t :: ts)

/-- How many tokens of `ts` follow `t` in a class or an id. -/
def nameLength (t : Token) : List Token → Except Error Nat
  | [] => .error (.grammar (.missingName t.text) t.location)
  | n :: _ =>
    if !n.spaced && (n.kind = .ident || n.kind = .number) then .ok 1
    else .error (.grammar (.missingName t.text) t.location)

/-- How many tokens of `ts` belong to the simple selector that begins with `t`. -/
def simpleLength (t : Token) (ts : List Token) : Except Error Nat :=
  if t.isOpener then bracketLength t (closerOf t) [] ts
  else if t.isMark '.' || t.isMark '#' then nameLength t ts
  else if t.isMark ':' then pseudoLength t ts
  else .ok 0

/-- The descendant combinator that white space before `t` stands for, after the fragment
`previous`. -/
def gap (previous : Option Fragment) (t : Token) : List Fragment :=
  match previous with
  | none => []
  | some p => if t.spaced && !p.isCombinator then [.combinator .descendant] else []

/-- The fragments that a list of tokens reads as, after the fragment `previous`. -/
def fragmentsAfter (previous : Option Fragment) (tokens : List Token) :
    Except Error (List Fragment) :=
  match tokens with
  | [] => .ok []
  | t :: ts =>
    if t.isCombinator then
      if previous.any (·.isCombinator) then .error (.grammar .consecutiveCombinators t.location)
      else if ts.isEmpty then .error (.grammar .trailingCombinator t.location)
      else
        let fragment := Fragment.combinator (.ofToken t)
        (fragment :: ·) <$> fragmentsAfter (some fragment) ts
    else if t.isMark '&' then
      (gap previous t ++ .marker :: ·) <$> fragmentsAfter (some .marker) ts
    else if t.kind = .placeholder then
      let fragment := Fragment.placeholder ⟨t.value, some t.location⟩
      (gap previous t ++ fragment :: ·) <$> fragmentsAfter (some fragment) ts
    else
      match simpleLength t ts with
      | .error e => .error e
      | .ok n =>
        let fragment := Fragment.literal (Token.join (t :: ts.take n))
        (gap previous t ++ fragment :: ·) <$> fragmentsAfter (some fragment) (ts.drop n)
termination_by tokens.length

/-- The selector that a list of tokens reads as. -/
def ofTokens (tokens : List Token) : Except Error Selector := mk <$> fragmentsAfter none tokens

/-- A selector list before it is read: its tokens divided at the commas, the brace after it, and
what follows the brace. -/
structure Groups where
  groups : List (List Token)
  brace : Token
  rest : List Token

namespace Groups

/-- A token put in front of the first group. -/
def cons (t : Token) (g : Groups) : Groups :=
  match g.groups with
  | [] => { g with groups := [[t]] }
  | first :: others => { g with groups := (t :: first) :: others }

/-- Divides `tokens` at the commas outside brackets, up to a brace outside brackets. `started` says
whether the group at hand has tokens already, and `ending` is why the tokens may run out. -/
def split (ending : Error) (depth : Nat) (started : Bool) : List Token → Except Error Groups
  | [] => .error ending
  | t :: ts =>
    if depth = 0 && t.isMark '\x7b' then .ok ⟨[[]], t, ts⟩
    else if t.isOpener then cons t <$> split ending (depth + 1) true ts
    else if t.isCloser then
      if depth = 0 then .error (.grammar (.strayBracket t.text) t.location)
      else cons t <$> split ending (depth - 1) true ts
    else if depth = 0 && t.isMark ',' then
      if started then
        (fun g => { g with groups := [] :: g.groups }) <$> split ending 0 false ts
      else .error (.grammar .emptySelector t.location)
    else cons t <$> split ending depth true ts

/-- The selectors of the groups; the last group must not be empty either. -/
def selectors (g : Groups) : Except Error (List Selector) :=
  if g.groups.getLast? = some [] then
    .error (.grammar (if g.groups.length = 1 then .missingSelector else .emptySelector)
      g.brace.location)
  else g.groups.mapM ofTokens

end Groups

end ScopedCss.Selector
