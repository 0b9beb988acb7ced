/-
Reading tokens one at a time. A `Lexer` is what is left of a source and the position reached;
`Lexer.tokens` is all that it still yields. A source with a malformed unit yields the tokens before
it and then the failure.
-/
import ScopedCss.Token.Lexeme

namespace ScopedCss

/-- A source partly read. A lexer that has failed yields nothing more. -/
structure Lexer where
  rest : Text
  position : Position
  failed : Bool := false
deriving DecidableEq, Repr

/-- What one reading yields. -/
inductive Reading where
  | token (t : Token)
  | failure (e : Error)
  | finished
deriving DecidableEq, Repr

/-- The tokens of a source, and the failure that cuts them short if there is one. -/
structure TokenStream where
  tokens : List Token
  failure : Option Error
deriving DecidableEq, Repr

namespace Lexer

/-- A lexer at the start of `source`. -/
def start (source : Text) : Lexer := { rest := source, position := .origin }

/-- The lexer `n` characters further on, or at the end. -/
def advance (l : Lexer) (n : Nat) : Lexer :=
  { l with rest := l.rest.drop n, position := l.position.after (l.rest.take n) }

/-- The lexer past the gap of white space and comments in front. -/
def skipGap (l : Lexer) : Lexer := l.advance (Lexeme.takeGap l.rest).length

/-- Reads the next token. -/
def next (l : Lexer) : Reading × Lexer :=
  if l.failed then (.finished, l)
  else
    let s := l.skipGap
    match Lexeme.read s.rest with
    | none => (.finished, s)
    | some x =>
      let e := s.advance x.text.length
      let place := Location.between s.position e.position
      match x with
      | .token kind text value =>
        (.token ⟨kind, text, value, place, Lexeme.isSpaced l.rest⟩, e)
      | .broken fault _ => (.failure (.lexical fault place), { e with failed := true })

/-- A token read leaves less to read. -/
theorem rest_lt_of_next {l l' : Lexer} {t : Token} (h : l.next = (.token t, l')) :
    l'.rest.length < l.rest.length := by
  unfold next at h
  split at h
  · simp at h
  · simp only at h
    split at h
    · simp at h
    · rename_i x hx
      have hne := Lexeme.text_ne_nil_of_read hx
      split at h
      · simp only [Prod.mk.injEq] at h
        rw [← h.2]
        have hpos := List.length_pos_iff.mpr hne
        have hs : l.skipGap.rest ≠ [] := by
          intro he
          rw [he] at hx
          simp [Lexeme.read] at hx
        have hspos := List.length_pos_iff.mpr hs
        have hle : l.skipGap.rest.length ≤ l.rest.length := by
          simp only [skipGap, advance, List.length_drop]
          omega
        have hd : ∀ n, (l.skipGap.advance n).rest.length = l.skipGap.rest.length - n := by
          intro n
          simp [advance]
        rw [hd]
        omega
      · simp at h

/-- All the tokens that a lexer still yields. -/
def tokens (l : Lexer) : TokenStream :=
  match h : l.next with
  | (.token t, l') =>
    have := rest_lt_of_next h
    { l'.tokens with tokens := t :: l'.tokens.tokens }
  | (.failure e, _) => ⟨[], some e⟩
  | (.finished, _) => ⟨[], none⟩
termination_by l.rest.length

end Lexer

/-- The tokens of a source. -/
def Text.tokenize (source : Text) : TokenStream := (Lexer.start source).tokens

end ScopedCss
