/-
Reading tokens one after the other: `stream_induction` carries a property from what one reading
comes to through to all the tokens of a lexer, and `Within` says that a lexer is on its way through
a source.
-/
import ScopedCss.Proofs.Token.Lexeme
import ScopedCss.Token.Lexer

namespace ScopedCss

namespace Position

theorem after_append (p : Position) (s t : Text) : p.after (s ++ t) = (p.after s).after t :=
  List.foldl_append

@[simp] theorem index_step (p : Position) (c : Char) : (p.step c).index = p.index + 1 := by
  unfold step
  split <;> rfl

@[simp] theorem index_after (p : Position) (t : Text) : (p.after t).index = p.index + t.length := by
  induction t generalizing p with
  | nil => rfl
  | cons c t ih =>
    have h := ih (p.step c)
    rw [index_step] at h
    simp only [after, List.foldl_cons, List.length_cons] at h ⊢
    omega

end Position

/-- Only the empty text has no lexeme in front. -/
theorem Lexeme.eq_nil_of_read {t : Text} (h : read t = none) : t = [] := by
  cases t with
  | nil => rfl
  | cons c t => cases h

namespace Lexer

@[simp] theorem rest_advance (l : Lexer) (n : Nat) : (l.advance n).rest = l.rest.drop n := rfl

@[simp] theorem position_advance (l : Lexer) (n : Nat) :
    (l.advance n).position = l.position.after (l.rest.take n) := rfl

/-- A lexer past its gap and the lexeme after it. -/
def past (l : Lexer) (text : Text) : Lexer := l.skipGap.advance text.length

/-- Where the lexeme after the gap of a lexer stands. -/
def place (l : Lexer) (text : Text) : Location :=
  .between l.skipGap.position (l.past text).position

section Next

variable {l l' : Lexer}

theorem tokens_of_next_token {t : Token} (h : l.next = (.token t, l')) :
    l.tokens = ⟨t :: l'.tokens.tokens, l'.tokens.failure⟩ := by
  rw [tokens]
  split <;> rename_i hn <;> rw [h] at hn <;> cases hn
  rfl

theorem tokens_of_next_failure {e : Error} (h : l.next = (.failure e, l')) :
    l.tokens = ⟨[], some e⟩ := by
  rw [tokens]
  split <;> rename_i hn <;> rw [h] at hn <;> cases hn
  rfl

theorem tokens_of_next_finished (h : l.next = (.finished, l')) : l.tokens = ⟨[], none⟩ := by
  rw [tokens]
  split <;> rename_i hn <;> rw [h] at hn <;> cases hn

end Next

section Equations

variable {l : Lexer} (hl : l.failed = false)

include hl

theorem next_of_finished (h : l.skipGap.rest = []) : l.next = (.finished, l.skipGap) := by
  simp [next, hl, h, Lexeme.read]

theorem next_of_token {kind : TokenKind} {text value : Text}
    (h : Lexeme.read l.skipGap.rest = some (.token kind text value)) :
    l.next = (.token ⟨kind, text, value, l.place text, Lexeme.isSpaced l.rest⟩, l.past text) := by
  simp [next, hl, h, place, past, Lexeme.text]

theorem next_of_broken {fault : LexicalFault} {text : Text}
    (h : Lexeme.read l.skipGap.rest = some (.broken fault text)) :
    l.next = (.failure (.lexical fault (l.place text)), { l.past text with failed := true }) := by
  simp [next, hl, h, place, past, Lexeme.text]

theorem tokens_of_finished (h : l.skipGap.rest = []) : l.tokens = ⟨[], none⟩ :=
  tokens_of_next_finished (next_of_finished hl h)

theorem tokens_of_token {kind : TokenKind} {text value : Text}
    (h : Lexeme.read l.skipGap.rest = some (.token kind text value)) :
    l.tokens = { (l.past text).tokens with
      tokens := ⟨kind, text, value, l.place text, Lexeme.isSpaced l.rest⟩ ::
        (l.past text).tokens.tokens } :=
  tokens_of_next_token (next_of_token hl h)

theorem tokens_of_broken {fault : LexicalFault} {text : Text}
    (h : Lexeme.read l.skipGap.rest = some (.broken fault text)) :
    l.tokens = ⟨[], some (.lexical fault (l.place text))⟩ :=
  tokens_of_next_failure (next_of_broken hl h)

end Equations

/-- What holds of an exhausted lexer and of one that fails, and passes from the lexer behind a token
to the one in front of it, holds of the tokens of every lexer. -/
theorem stream_induction {P : Lexer → TokenStream → Prop}
    (finished : ∀ l : Lexer, l.failed = false → l.skipGap.rest = [] → P l ⟨[], none⟩)
    (broken : ∀ (l : Lexer) (fault : LexicalFault) (text : Text), l.failed = false →
      Lexeme.read l.skipGap.rest = some (.broken fault text) →
      P l ⟨[], some (.lexical fault (l.place text))⟩)
    (token : ∀ (l : Lexer) (kind : TokenKind) (text value : Text) (stream : TokenStream),
      l.failed = false → Lexeme.read l.skipGap.rest = some (.token kind text value) →
      P (l.past text) stream →
      P l { stream with
        tokens := ⟨kind, text, value, l.place text, Lexeme.isSpaced l.rest⟩ :: stream.tokens })
    (l : Lexer) (hl : l.failed = false) : P l l.tokens := by
  induction hn : l.rest.length using Nat.strong_induction_on generalizing l with
  | _ n ih =>
    cases hread : Lexeme.read l.skipGap.rest with
    | none =>
      have hrest := Lexeme.eq_nil_of_read hread
      rw [tokens_of_finished hl hrest]
      exact finished l hl hrest
    | some x =>
      cases x with
      | token kind text value =>
        rw [tokens_of_token hl hread]
        have hlt := rest_lt_of_next (next_of_token hl hread)
        exact token l kind text value _ hl hread (ih _ (hn ▸ hlt) (l.past text) hl rfl)
      | broken fault text =>
        rw [tokens_of_broken hl hread]
        exact broken l fault text hl hread

/-- Every token was read in front of some text. -/
theorem exists_read_of_mem (l : Lexer) (hl : l.failed = false) :
    ∀ t ∈ l.tokens.tokens, ∃ s, Lexeme.read s = some (.token t.kind t.text t.value) := by
  refine stream_induction (P := fun _ stream => ∀ t ∈ stream.tokens,
    ∃ s, Lexeme.read s = some (.token t.kind t.text t.value)) ?_ ?_ ?_ l hl
  · intro l _ _
    exact List.forall_mem_nil _
  · intro l fault text _ _
    exact List.forall_mem_nil _
  · intro l kind text value stream _ hread ih
    exact List.forall_mem_cons.2 ⟨⟨_, hread⟩, ih⟩

theorem text_ne_nil (l : Lexer) (hl : l.failed = false) : ∀ t ∈ l.tokens.tokens, t.text ≠ [] := by
  intro t ht
  obtain ⟨s, hread⟩ := exists_read_of_mem l hl t ht
  exact Lexeme.text_ne_nil_of_read hread

/-- The lexer has read a front part of `source` and stands behind it. -/
def Within (source : Text) (l : Lexer) : Prop :=
  ∃ front, source = front ++ l.rest ∧ l.position = Position.origin.after front

namespace Within

variable {source : Text} {l : Lexer}

theorem start (source : Text) : Within source (Lexer.start source) := ⟨[], rfl, rfl⟩

theorem advance (h : Within source l) (n : Nat) : Within source (l.advance n) := by
  obtain ⟨front, hsource, hposition⟩ := h
  refine ⟨front ++ l.rest.take n, ?_, ?_⟩
  · rw [rest_advance, List.append_assoc, List.take_append_drop, hsource]
  · rw [position_advance, hposition, Position.after_append]

theorem past (h : Within source l) (text : Text) : Within source (l.past text) :=
  (h.advance _).advance _

end Within

end Lexer

end ScopedCss
