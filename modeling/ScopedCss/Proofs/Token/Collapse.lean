/-
Collapsing white space. The texts of all tokens of a source, with one space for each run of white
space between them, are read as the same tokens (`Text.tokenize_join`), unless a comment was all
that kept two of them apart or a backslash stands alone.
-/
import ScopedCss.Proofs.Token.Standing

namespace ScopedCss

/-- A lexeme is whole, unless it is a backslash that escapes nothing. -/
theorem Lexeme.whole_of_read {s : Text} {kind : TokenKind} {text value : Text}
    (h : read s = some (.token kind text value)) (hslash : kind = .punct → text ≠ ['\\']) :
    text.Whole := by
  cases s with
  | nil => cases h
  | cons c s =>
    cases form_of_read h with
    | string hquote =>
      refine .concat _ ?_
      rintro rfl
      cases hquote
    | placeholder => exact .concat _ (by decide)
    | number => exact alike_front.keeps_takeNumber.whole _
    | ident => exact whole_takeIdent _
    | url => exact .concat _ (by decide)
    | punct => exact .cons (fun hc => hslash rfl (by rw [hc])) .nil

namespace Lexer

theorem whole_of_mem_tokens (l : Lexer) (hl : l.failed = false) :
    ∀ t ∈ l.tokens.tokens, t.isMark '\\' = false → t.text.Whole := by
  intro t ht hmark
  obtain ⟨s, hread⟩ := exists_read_of_mem l hl t ht
  refine Lexeme.whole_of_read hread fun hkind htext => ?_
  simp [Token.isMark, hkind, htext] at hmark

/-- All the tokens that a lexer reads are read back from their texts. -/
theorem yields_join (place : Location) (l : Lexer) (hl : l.failed = false)
    (hfailure : l.tokens.failure = none) (habut : Token.Abutting l.tokens.tokens) :
    Text.Yields place (Token.join l.tokens.tokens)
      (Token.flushLeft (l.tokens.tokens.map (·.movedTo place))) [] := by
  cases hread : Lexeme.read l.skipGap.rest with
  | none =>
    rw [tokens_of_finished hl (Lexeme.eq_nil_of_read hread)]
    exact .nil
  | some lexeme =>
    cases lexeme with
    | broken fault text =>
      rw [tokens_of_broken hl hread] at hfailure
      cases hfailure
    | token kind x value =>
      rw [tokens_of_token hl hread] at hfailure habut ⊢
      have hyields := yields_of_prefix place hl hread List.prefix_rfl habut rfl
        (.inr ⟨rfl, hfailure⟩) (List.forall_mem_nil _) (z := []) (by decide)
      rw [List.append_nil] at hyields
      exact hyields

end Lexer

/-- Collapsing white space keeps the tokens of a source: the texts of all of them, put side by side
with one space for white space, are read as tokens that differ only in their places and in that
nothing stands in front of the first. -/
theorem Text.tokenize_join {source : Text} (hok : (tokenize source).failure = none)
    (hadjacent : (tokenize source).tokens.IsChain fun t u =>
      u.spaced = true ∨ u.location.start = t.location.stop)
    (hslash : ∀ t ∈ (tokenize source).tokens, t.isMark '\\' = false) (place : Location) :
    (tokenize (Token.join (tokenize source).tokens)).failure = none ∧
      (tokenize (Token.join (tokenize source).tokens)).tokens.map (·.movedTo place) =
        Token.flushLeft ((tokenize source).tokens.map (·.movedTo place)) := by
  have hwhole := Lexer.whole_of_mem_tokens (.start source) rfl
  have hyields := Lexer.yields_join place (.start source) rfl hok
    ⟨hadjacent.imp fun _ _ h => h.imp_right .inl, fun t ht => hwhole t ht (hslash t ht)⟩
  exact Lexer.tokens_of_yields place (l := .start _) rfl hyields Lexeme.dropGap_nil

/-- A name that ends in an escaped backslash, a comment beside white space, a url and the name of
one that is quoted, and an open parenthesis at the end. -/
def Text.spreadSource : Text :=
  "\t.a\\\\  /* b */\n>c \\9 \t-1.5e+3px url( d )url(  'e' ) f(  ".toList

def Text.collapsedSource : Text :=
  ".a\\\\ >c \\9 -1.5e+3px url( d )url( 'e' ) f(".toList

theorem Text.tokenize_collapsedSource :
    (tokenize spreadSource).failure = none ∧
    Token.join (tokenize spreadSource).tokens = collapsedSource ∧
    (tokenize collapsedSource).failure = none ∧
    ∀ place : Location, (tokenize collapsedSource).tokens.map (·.movedTo place) =
      Token.flushLeft ((tokenize spreadSource).tokens.map (·.movedTo place)) := by
  have hok : (tokenize spreadSource).failure = none := by decide +kernel
  have hjoin : Token.join (tokenize spreadSource).tokens = collapsedSource := by decide +kernel
  have hsame := tokenize_join hok (by decide +kernel) (by decide +kernel)
  rw [hjoin] at hsame
  exact ⟨hok, hjoin, (hsame ⟨0, 0, 1, 1⟩).1, fun place => (hsame place).2⟩

end ScopedCss
