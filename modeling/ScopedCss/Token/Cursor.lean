/-
Readers that are moved by hand and look in both directions. A look ahead finds what comes next; a
look back counts from where the reader stands and, once it passes the front, goes on from the end.
-/
import ScopedCss.Token.Lookahead

namespace ScopedCss

/-- What stands at `i`, counted from the end if `i` is below zero. -/
def lookAt {α : Type} (xs : List α) (i : Int) : Except Error (Option α) :=
  match i with
  | .ofNat n => .ok xs[n]?
  | .negSucc n =>
    match xs.reverse[n]? with
    | some x => .ok (some x)
    | none => .error ⟨.outOfRange, none⟩

/-- A source and a lexer on its way through it. -/
structure Cursor where
  source : Text
  lexer : Lexer
deriving DecidableEq, Repr

namespace Cursor

def start (source : Text) : Cursor := ⟨source, .start source⟩

/-- The character `n` places from here. -/
def look (c : Cursor) (n : Int) : Except Error (Option Char) :=
  lookAt c.source (c.lexer.position.index + n)

/-- The cursor `n` characters further on, or at the end. -/
def advance (c : Cursor) (n : Nat) : Cursor := { c with lexer := c.lexer.advance n }

/-- Reads the next token. -/
def next (c : Cursor) : Reading × Cursor :=
  let (reading, lexer) := c.lexer.next
  (reading, { c with lexer := lexer })

end Cursor

/-- The token `n` places ahead, read if need be. A look back counts from the last token that is
ready, and reads none. -/
def Lookahead.look (b : Lookahead) (n : Int) : Except Error (Option Token) × Lookahead :=
  match n with
  | .ofNat n => b.peek n
  | .negSucc _ => (lookAt b.ready n, b)

end ScopedCss
