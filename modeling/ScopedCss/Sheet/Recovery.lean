/-
Reading one declaration, well formed or not. A malformed one is kept as dangling, and what follows
it is given back: where a `;` is missing, reading resumes at the next `name:` or at the rule that
the declaration runs into.

`rest_le_readDeclaration` and `rest_le_readUnterminated`: what is given back is never more than what
was there.
-/
import ScopedCss.Sheet.Basic

namespace ScopedCss.Declaration

/-- The bracket depth after a token; a bracket that closes nothing leaves it at zero. -/
def depthAfter (depth : Nat) (t : Token) : Nat :=
  if t.isOpener then depth + 1 else if t.isCloser then depth - 1 else depth

/-- How many tokens stand before the first `name:` outside brackets whose name has white space
before it. -/
def propertyIndex (depth : Nat) : List Token → Option Nat
  | [] => none
  | t :: ts =>
    let depth := depthAfter depth t
    if depth = 0 && t.kind = .ident && t.spaced && ts.head?.any (·.isMark ':') then some 0
    else (· + 1) <$> propertyIndex depth ts

/-- How many tokens of a value stand before the next property that it runs into; the first token is
always the value's own. -/
def nextProperty : List Token → Option Nat
  | [] => none
  | t :: ts => (· + 1) <$> propertyIndex (depthAfter 0 t) ts

/-- The span of a declaration from its key to its last token. -/
def placeOf (key : Token) (body : List Token) : Location := key.span (body.getLast?.getD key)

/-- A malformed declaration. The colon is no part of its value. -/
def dangle (key : Token) (body : List Token) (reason : Text) : Declaration :=
  let value := match body with
    | [] => []
    | t :: ts => if t.isMark ':' then ts else t :: ts
  { key := .literal key.text
    value := Fragment.ofTokens value
    location := some (placeOf key body)
    dangling := some reason }

def missingSemicolon (key : Token) : Text :=
  "missing ';' after property '".toList ++ key.text ++ "'".toList

def missingPropertyName (key : Token) : Text :=
  "expected a property name, found '".toList ++ key.text ++ "'".toList

def missingColon (key : Token) : Text :=
  "expected ':' after property '".toList ++ key.text ++ "'".toList

def emptyValue (key : Token) : Text :=
  "empty value for property '".toList ++ key.text ++ "'".toList

/-- The declaration made of a key and the tokens after it. -/
def ofTokens (key : Token) (body : List Token) : Declaration :=
  if key.kind ≠ .ident && key.kind ≠ .placeholder then
    dangle key body (missingPropertyName key)
  else
    match body with
    | [] => dangle key body (missingColon key)
    | colon :: value =>
      if !colon.isMark ':' then dangle key body (missingColon key)
      else if value.isEmpty then dangle key body (emptyValue key)
      else
        { key := Fragment.ofToken key
          value := Fragment.ofTokens value
          location := some (placeOf key body) }

/-- How many tokens of a declaration's body are its own, if it runs into the next property. -/
def ownLength? : List Token → Option Nat
  | [] => none
  | colon :: value => if colon.isMark ':' then (· + 1) <$> nextProperty value else none

/-- The tokens after a declaration without the `;` that ends it. -/
def dropSemicolon : List Token → List Token
  | [] => []
  | t :: ts => if t.isMark ';' then ts else t :: ts

/-- Reads the declaration of `key` from the tokens after it, and gives back the remainder. It goes
up to the next `;` or brace, whatever brackets are open, unless another property comes first. -/
def readDeclaration (key : Token) (ts : List Token) : Declaration × List Token :=
  let body := ts.takeWhile (!·.isTerminator)
  let after := ts.dropWhile (!·.isTerminator)
  match ownLength? body with
  | some n => (dangle key (body.take n) (missingSemicolon key), body.drop n ++ after)
  | none => (ofTokens key body, dropSemicolon after)

/-- The tokens before the first brace outside brackets, each with the depth it stands at; a bracket
stands outside the pair that it makes. -/
def beforeBrace (depth : Nat) : List Token → List (Token × Nat)
  | [] => []
  | t :: ts =>
    if depth = 0 && t.isMark '\x7b' then []
    else
      (t, if t.isCloser then depth - 1 else depth) :: beforeBrace (depthAfter depth t) ts

/-- Where the rule begins that a declaration runs into: at the last compound with white space before
it, in front of the first comma, and never before the value's second token. -/
def compoundStart (ts : List (Token × Nat)) : Nat :=
  let stop := ts.findIdx fun p => p.2 = 0 && p.1.isMark ','
  ((List.range stop).reverse.find? fun i =>
    2 ≤ i && (ts[i]?).any fun p => p.2 = 0 && p.1.spaced).getD 2

/-- The combinators right in front of a rule belong to it. -/
def backOverCombinators (ts : List Token) : Nat → Nat
  | 0 => 0
  | n + 1 =>
    if 2 < n + 1 && (ts[n]?).any (·.isCombinator) then backOverCombinators ts n else n + 1

/-- How many tokens before a brace are the body of the declaration that runs into a rule there. -/
def unterminatedLength (ts : List (Token × Nat)) : Nat :=
  let tokens := ts.map (·.1)
  let cut := backOverCombinators tokens (compoundStart ts)
  match nextProperty ((tokens.take cut).drop 1) with
  | some n => n + 1
  | none => cut

/-- Reads the declaration of `key` that runs into a rule, and gives the rule back. -/
def readUnterminated (key : Token) (ts : List Token) : Declaration × List Token :=
  let n := unterminatedLength (beforeBrace 0 ts)
  (dangle key (ts.take n) (missingSemicolon key), ts.drop n)

theorem length_dropSemicolon_le (ts : List Token) : (dropSemicolon ts).length ≤ ts.length := by
  cases ts with
  | nil => simp [dropSemicolon]
  | cons t ts => simp only [dropSemicolon]; split <;> simp

theorem rest_le_readDeclaration (key : Token) (ts : List Token) :
    (readDeclaration key ts).2.length ≤ ts.length := by
  have hlen : (ts.takeWhile (!·.isTerminator)).length + (ts.dropWhile (!·.isTerminator)).length =
      ts.length := by
    rw [← List.length_append, List.takeWhile_append_dropWhile]
  simp only [readDeclaration]
  split
  · simp only [List.length_append, List.length_drop]
    omega
  · have hd := length_dropSemicolon_le (ts.dropWhile (!·.isTerminator))
    simp only
    omega

theorem rest_le_readUnterminated (key : Token) (ts : List Token) :
    (readUnterminated key ts).2.length ≤ ts.length := by
  simp [readUnterminated]

end ScopedCss.Declaration
