/-
The tokens of a text do not depend on the white space around its line breaks: squeezing it leaves
every token as it is but for its place (`Lexer.tokens_of_squeezed`). White space in front of all
tokens shows in the first of them alone (`Lexer.tokens_of_gap`).
-/
import ScopedCss.Proofs.Token.Squeezed

namespace ScopedCss

namespace Lexeme

open Text (Squeezed)

/-! ### Gaps -/

theorem takeRemark_cons {c : Char} {t : Text} (h : ¬(c = '*' ∧ t.head? = some '/')) :
    takeRemark (c :: t) = c :: takeRemark t := by
  rw [takeRemark]
  rintro u rfl rfl
  exact h ⟨rfl, rfl⟩

theorem takeRemark_append_space {w : Text} (h : ∀ c ∈ w, isSpace c = true) (t : Text) :
    takeRemark (w ++ t) = w ++ takeRemark t := by
  induction w with
  | nil => rfl
  | cons c w ih =>
    obtain ⟨hc, hw⟩ := List.forall_mem_cons.1 h
    have hstar : c ≠ '*' := by
      rintro rfl
      exact absurd hc (by decide)
    rw [List.cons_append, takeRemark_cons fun hmark => hstar hmark.1, ih hw]
    rfl

/-- A comment is closed in both texts or in neither. -/
theorem takeRemark_of_squeezed {b : Bool} {s n : Text} (h : Squeezed b s n) :
    (takeRemark s = s ∧ takeRemark n = n) ∨
      ∃ r r', s = takeRemark s ++ '*' :: '/' :: r ∧ n = takeRemark n ++ '*' :: '/' :: r' ∧
        Squeezed false r r' := by
  induction h with
  | nil => exact .inl ⟨rfl, rfl⟩
  | @char b c s n rest ih =>
    by_cases hclose : c = '*' ∧ s.head? = some '/'
    · obtain ⟨rfl, hslash⟩ := hclose
      obtain ⟨r, rfl⟩ := List.head?_eq_some_iff.1 hslash
      obtain ⟨r', rfl, hrest⟩ := rest.cons_left (by decide)
      exact .inr ⟨r, r', rfl, rfl, hrest.weaken⟩
    · have hclose' : ¬(c = '*' ∧ n.head? = some '/') := fun h =>
        hclose ⟨h.1, (head?_eq_of_squeezed rest (by decide)).1 h.2⟩
      rw [takeRemark_cons hclose, takeRemark_cons hclose']
      rcases ih with ⟨hs, hn⟩ | ⟨r, r', hs, hn, hrest⟩
      · exact .inl ⟨by rw [hs], by rw [hn]⟩
      · exact .inr ⟨r, r', congrArg (c :: ·) hs, congrArg (c :: ·) hn, hrest⟩
  | @fold w s n space broken rest ih =>
    rw [takeRemark_append_space space, takeRemark_cons (by simp)]
    rcases ih with ⟨hs, hn⟩ | ⟨r, r', hs, hn, hrest⟩
    · exact .inl ⟨by rw [hs], by rw [hn]⟩
    · refine .inr ⟨r, r', ?_, congrArg ('\n' :: ·) hn, hrest⟩
      rw [List.append_assoc, ← hs]
  | @trail w space =>
    refine .inl ⟨?_, rfl⟩
    have hw := takeRemark_append_space space []
    rwa [List.append_nil, takeRemark, List.append_nil] at hw

theorem takeComment_closed {u r : Text} (h : u = takeRemark u ++ '*' :: '/' :: r) :
    takeComment ('/' :: '*' :: u) = '/' :: '*' :: takeRemark u ++ ['*', '/'] ∧
      ('/' :: '*' :: u).drop (takeComment ('/' :: '*' :: u)).length = r := by
  have hdrop := congrArg (List.drop (takeRemark u).length) h
  rw [List.drop_left] at hdrop
  have hcomment : takeComment ('/' :: '*' :: u) = '/' :: '*' :: takeRemark u ++ ['*', '/'] := by
    simp [takeComment, startsComment, hdrop]
  refine ⟨hcomment, ?_⟩
  have hmore := congrArg (List.drop 2) hdrop
  rw [List.drop_drop] at hmore
  rw [hcomment]
  simpa using hmore

theorem takeComment_open {u : Text} (h : takeRemark u = u) :
    takeComment ('/' :: '*' :: u) = [] := by
  simp [takeComment, startsComment, h]

theorem takeComment_of_squeezed {s n : Text} (h : Squeezed false s n) :
    (takeComment s = [] ∧ takeComment n = []) ∨
      takeComment s ≠ [] ∧ takeComment n ≠ [] ∧
        Squeezed false (s.drop (takeComment s).length) (n.drop (takeComment n).length) := by
  cases hs : startsComment s with
  | false =>
    have hn : startsComment n = false := by
      refine Bool.eq_false_iff.2 fun hn => Bool.eq_false_iff.1 hs ?_
      obtain ⟨u, rfl⟩ := exists_of_startsComment hn
      obtain ⟨s, rfl, hstar⟩ := h.cons_right (by decide)
      obtain ⟨u', rfl, -⟩ := hstar.cons_right (by decide)
      rfl
    exact .inl ⟨by simp [takeComment, hs], by simp [takeComment, hn]⟩
  | true =>
    obtain ⟨u, rfl⟩ := exists_of_startsComment hs
    obtain ⟨n, rfl, hstar⟩ := h.cons_left (by decide)
    obtain ⟨u', rfl, hremark⟩ := hstar.cons_left (by decide)
    rcases takeRemark_of_squeezed hremark with ⟨hu, hu'⟩ | ⟨r, r', hu, hu', hrest⟩
    · exact .inl ⟨takeComment_open hu, takeComment_open hu'⟩
    · obtain ⟨hs, hsdrop⟩ := takeComment_closed hu
      obtain ⟨hn, hndrop⟩ := takeComment_closed hu'
      refine .inr ⟨by simp [hs], by simp [hn], ?_⟩
      rw [hsdrop, hndrop]
      exact hrest

/-- What is left behind the gap in front. -/
def dropGap (t : Text) : Text := t.drop (takeGap t).length

@[simp] theorem dropGap_nil : dropGap [] = [] := List.drop_nil

theorem dropGap_space {c : Char} (hc : isSpace c = true) (t : Text) :
    dropGap (c :: t) = dropGap t := by
  rw [dropGap, takeGap, if_pos hc]
  rfl

theorem dropGap_comment {t : Text} (h : takeComment t ≠ []) :
    dropGap t = dropGap (t.drop (takeComment t).length) := by
  obtain ⟨remark, rest, htext, ht, -⟩ := takeComment_spec h
  cases t with
  | nil => simp [takeComment, startsComment] at h
  | cons c r =>
    have hc : isSpace c = false := by
      rw [htext] at ht
      rw [(List.cons.inj ht).1]
      decide
    rw [dropGap, takeGap]
    simp only [hc, h, Bool.false_eq_true, if_false, dif_neg, not_false_iff, List.length_append,
      dropGap, List.drop_drop]

theorem dropGap_of_neither {c : Char} {t : Text} (hc : isSpace c = false)
    (h : takeComment (c :: t) = []) : dropGap (c :: t) = c :: t := by
  rw [dropGap, takeGap]
  simp [hc, h]

theorem isSpaced_space {c : Char} (hc : isSpace c = true) (t : Text) :
    isSpaced (c :: t) = true := by
  rw [isSpaced, if_pos hc]

theorem isSpaced_of_neither {c : Char} {t : Text} (hc : isSpace c = false)
    (h : takeComment (c :: t) = []) : isSpaced (c :: t) = false := by
  rw [isSpaced]
  simp [hc, h]

theorem dropGap_append_space {w : Text} (h : ∀ c ∈ w, isSpace c = true) (t : Text) :
    dropGap (w ++ t) = dropGap t := by
  induction w with
  | nil => rfl
  | cons c w ih =>
    obtain ⟨hc, hw⟩ := List.forall_mem_cons.1 h
    rw [List.cons_append, dropGap_space hc, ih hw]

/-- No white space is left behind the gap. -/
theorem dropGap_head (t : Text) : ∀ c ∈ (dropGap t).head?, isSpace c = false := by
  fun_induction takeGap t with
  | case1 => simp
  | case2 c r hc ih => rwa [dropGap_space hc]
  | case3 c r hc hcomment =>
    rw [dropGap_of_neither (by simpa using hc) hcomment]
    simpa using hc
  | case4 c r hc hcomment _ ih => rwa [dropGap_comment hcomment]

theorem dropGap_of_squeezed {s n : Text} (h : Squeezed false s n) :
    Squeezed false (dropGap s) (dropGap n) ∧ (isSpaced n = isSpaced s ∨ dropGap s = []) := by
  induction hlength : s.length using Nat.strong_induction_on generalizing s n with
  | _ k ih =>
    subst hlength
    cases h with
    | nil => exact ⟨by simpa using .nil, .inl rfl⟩
    | @char _ c s n rest =>
      cases hc : isSpace c with
      | true =>
        obtain ⟨hdrop, -⟩ := ih s.length (by simp) rest.weaken rfl
        rw [dropGap_space hc, dropGap_space hc, isSpaced_space hc, isSpaced_space hc]
        exact ⟨hdrop, .inl rfl⟩
      | false =>
        have h : Squeezed false (c :: s) (c :: n) := .char c rest
        rcases takeComment_of_squeezed h with ⟨hs, hn⟩ | ⟨hs, hn, hrest⟩
        · rw [dropGap_of_neither hc hs, dropGap_of_neither hc hn, isSpaced_of_neither hc hs,
            isSpaced_of_neither hc hn]
          exact ⟨h, .inl rfl⟩
        · have hlt : ((c :: s).drop (takeComment (c :: s)).length).length < (c :: s).length := by
            have hpos := List.length_pos_iff.2 hs
            rw [List.length_drop]
            simp only [List.length_cons]
            omega
          rw [dropGap_comment hs, dropGap_comment hn, isSpaced_of_comment hs,
            isSpaced_of_comment hn]
          exact ih _ hlt hrest rfl
    | @fold w s n space broken rest =>
      obtain ⟨d, hd, -⟩ := broken
      cases w with
      | nil => cases hd
      | cons c w =>
        have hlt : s.length < (c :: w ++ s).length := by
          simp only [List.cons_append, List.length_cons, List.length_append]
          omega
        obtain ⟨hdrop, -⟩ := ih s.length hlt rest rfl
        have hc := space c List.mem_cons_self
        rw [dropGap_append_space space, dropGap_space (by decide), isSpaced_space (by decide)]
        exact ⟨hdrop, .inl (isSpaced_space hc _).symm⟩
    | trail space =>
      have hs : dropGap s = [] := by
        have happend := dropGap_append_space space []
        rwa [List.append_nil, dropGap_nil] at happend
      rw [hs, dropGap_nil]
      exact ⟨.nil, .inr rfl⟩

end Lexeme

/-- A token as it would be at another place. -/
def Token.movedTo (place : Location) (t : Token) : Token := { t with location := place }

/-- A token as it would be with no white space before it. -/
def Token.unspaced (t : Token) : Token := { t with spaced := false }

/-- Tokens without the white space in front of all of them. -/
def Token.flushLeft : List Token → List Token
  | [] => []
  | t :: ts => t.unspaced :: ts

namespace Token

variable (place : Location)

-- The proofs go by cases, not by `rfl`: as definitional equations they would change a condition and
-- leave its `Decidable` instance behind.

@[simp] theorem kind_movedTo (t : Token) : (t.movedTo place).kind = t.kind := by
  cases t
  rfl

@[simp] theorem text_movedTo (t : Token) : (t.movedTo place).text = t.text := by
  cases t
  rfl

@[simp] theorem value_movedTo (t : Token) : (t.movedTo place).value = t.value := by
  cases t
  rfl

@[simp] theorem spaced_movedTo (t : Token) : (t.movedTo place).spaced = t.spaced := by
  cases t
  rfl

@[simp] theorem location_movedTo (t : Token) : (t.movedTo place).location = place := by
  cases t
  rfl

@[simp] theorem isMark_movedTo (t : Token) (c : Char) :
    (t.movedTo place).isMark c = t.isMark c := by
  cases t
  rfl

@[simp] theorem isOpener_movedTo (t : Token) : (t.movedTo place).isOpener = t.isOpener := by
  cases t
  rfl

@[simp] theorem isCloser_movedTo (t : Token) : (t.movedTo place).isCloser = t.isCloser := by
  cases t
  rfl

@[simp] theorem isTerminator_movedTo (t : Token) :
    (t.movedTo place).isTerminator = t.isTerminator := by
  cases t
  rfl

@[simp] theorem isCombinator_movedTo (t : Token) :
    (t.movedTo place).isCombinator = t.isCombinator := by
  cases t
  rfl

@[simp] theorem join_movedTo (ts : List Token) : join (ts.map (·.movedTo place)) = join ts := by
  cases ts with
  | nil => rfl
  | cons t ts =>
    simp only [join, List.map_cons, List.flatMap_map, text_movedTo]
    rfl

end Token

namespace Lexer

open Text (Squeezed)
open Lexeme (dropGap)

theorem rest_skipGap (l : Lexer) : l.skipGap.rest = dropGap l.rest := rfl

/-- Squeezing white space around line breaks moves the tokens and changes nothing else about them,
if there is no line break in any of them. -/
theorem tokens_of_squeezed (place : Location) (l l' : Lexer) (hl : l.failed = false)
    (hl' : l'.failed = false) (h : Squeezed false l.rest l'.rest)
    (hfailure : l.tokens.failure = none)
    (hbreak : ∀ t ∈ l.tokens.tokens, ∀ c ∈ t.text, Text.isBreak c = false) :
    l'.tokens.failure = none ∧
      l'.tokens.tokens.map (·.movedTo place) = l.tokens.tokens.map (·.movedTo place) := by
  refine stream_induction (P := fun l stream => stream.failure = none →
    (∀ t ∈ stream.tokens, ∀ c ∈ t.text, Text.isBreak c = false) → ∀ l' : Lexer, l'.failed = false →
      Squeezed false l.rest l'.rest → l'.tokens.failure = none ∧
        l'.tokens.tokens.map (·.movedTo place) = stream.tokens.map (·.movedTo place))
    ?_ ?_ ?_ l hl hfailure hbreak l' hl' h
  · intro l _ hrest _ _ l' hl' h
    obtain ⟨hgap, -⟩ := Lexeme.dropGap_of_squeezed h
    rw [tokens_of_finished hl' (hgap.eq_nil hrest)]
    exact ⟨rfl, rfl⟩
  · intro l fault text _ _ hfailure
    cases hfailure
  · intro l kind text value stream _ hread ih hfailure hbreak l' hl' h
    obtain ⟨hgap, hspaced⟩ := Lexeme.dropGap_of_squeezed h
    obtain ⟨htext, hrest⟩ := List.forall_mem_cons.1 hbreak
    obtain ⟨hread', hafter⟩ := Lexeme.read_of_squeezed hgap (Lexeme.dropGap_head l.rest) hread htext
    obtain ⟨hnone, htokens⟩ := ih hfailure hrest (l'.past text) hl' hafter
    have hsame : Lexeme.isSpaced l'.rest = Lexeme.isSpaced l.rest := by
      refine hspaced.resolve_right fun hnil => ?_
      rw [rest_skipGap, hnil] at hread
      cases hread
    rw [tokens_of_token hl' hread']
    refine ⟨hnone, ?_⟩
    rw [List.map_cons, htokens, List.map_cons, hsame]
    rfl

/-- White space in front of all tokens shows in the first of them alone. -/
theorem tokens_of_gap (place : Location) {l l' : Lexer} (hl : l.failed = false)
    (hl' : l'.failed = false) (h : Squeezed false (dropGap l.rest) (dropGap l'.rest))
    (hfailure : l.tokens.failure = none)
    (hbreak : ∀ t ∈ l.tokens.tokens, ∀ c ∈ t.text, Text.isBreak c = false) :
    l'.tokens.failure = none ∧
      Token.flushLeft (l'.tokens.tokens.map (·.movedTo place)) =
        Token.flushLeft (l.tokens.tokens.map (·.movedTo place)) := by
  cases hread : Lexeme.read (dropGap l.rest) with
  | none =>
    have hnil := Lexeme.eq_nil_of_read hread
    rw [tokens_of_finished hl hnil, tokens_of_finished hl' (h.eq_nil hnil)]
    exact ⟨rfl, rfl⟩
  | some x =>
    cases x with
    | broken fault text =>
      rw [tokens_of_broken hl hread] at hfailure
      cases hfailure
    | token kind text value =>
      rw [tokens_of_token hl hread] at hfailure hbreak ⊢
      obtain ⟨htext, hrest⟩ := List.forall_mem_cons.1 hbreak
      obtain ⟨hread', hafter⟩ := Lexeme.read_of_squeezed h (Lexeme.dropGap_head l.rest) hread htext
      obtain ⟨hnone, htokens⟩ :=
        tokens_of_squeezed place (l.past text) (l'.past text) hl hl' hafter hfailure hrest
      rw [tokens_of_token hl' hread']
      refine ⟨hnone, ?_⟩
      rw [List.map_cons, htokens]
      rfl

end Lexer

end ScopedCss
