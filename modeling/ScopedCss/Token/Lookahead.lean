/-
A buffer of tokens read ahead. Tokens are taken from the lexer only when they are looked at, so a
lexical failure shows at the first look past the tokens before it, once, and never again.
-/
import ScopedCss.Token.Lexer

namespace ScopedCss

/-- Tokens read ahead of a lexer, those already taken (the last one first), and whether the lexer
has nothing more. -/
structure Lookahead where
  lexer : Lexer
  ready : List Token := []
  taken : List Token := []
  exhausted : Bool := false
deriving DecidableEq, Repr

namespace Lookahead

def start (source : Text) : Lookahead := { lexer := .start source }

/-- Reads ahead until `n` tokens are ready or the lexer has nothing more. -/
def fill (b : Lookahead) : Nat → Except Error Unit × Lookahead
  | 0 => (.ok (), b)
  | n + 1 =>
    if b.exhausted then (.ok (), b)
    else
      match b.lexer.next with
      | (.token t, lexer) => fill { b with lexer := lexer, ready := b.ready ++ [t] } n
      | (.failure e, lexer) => (.error e, { b with lexer := lexer })
      | (.finished, lexer) => (.ok (), { b with lexer := lexer, exhausted := true })

/-- The token `n` places ahead, read if need be. -/
def peek (b : Lookahead) (n : Nat) : Except Error (Option Token) × Lookahead :=
  let (done, b') := b.fill (n + 1 - b.ready.length)
  (done.map fun _ => b'.ready[n]?, b')

/-- Takes the next token. -/
def next (b : Lookahead) : Except Error (Option Token) × Lookahead :=
  match b.peek 0 with
  | (.ok (some t), b') =>
    (.ok (some t), { b' with ready := b'.ready.drop 1, taken := t :: b'.taken })
  | other => other

/-- Gives back the last `n` tokens taken. -/
def back (b : Lookahead) (n : Nat) : Lookahead :=
  { b with ready := (b.taken.take n).reverse ++ b.ready, taken := b.taken.drop n }

end Lookahead

end ScopedCss
