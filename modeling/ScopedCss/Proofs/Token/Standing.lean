/-
Tokens that can be written down again. `Text.Yields` reads a text up to some point and forgets the
places, so that readings can be put one after the other; tokens stand (`Token.Stand`) if they are
read back from their own texts wherever these are put, as long as what follows is apart.

Neighbouring tokens of a source stand (`Lexer.stand_of_infix`), unless a comment was all that kept
two of them apart or a backslash ends one. A mark such as a comma keeps apart by itself.
-/
import Mathlib.Data.List.Chain
import ScopedCss.Proofs.Token.Respacing

namespace ScopedCss

open Lexeme (isSpace dropGap isSpaced escapes)

/-- Reading `s` yields `ts`, each as if it stood at `place`, and leaves `r`. -/
inductive Text.Yields (place : Location) : (s : Text) → (ts : List Token) → (r : Text) → Prop
  | nil {s : Text} : Yields place s [] s
  | token {s x rest r : Text} {kind : TokenKind} {value : Text} {ts : List Token}
      (gap : dropGap s = x ++ rest) (read : Lexeme.read (x ++ rest) = some (.token kind x value))
      (more : Yields place rest ts r) :
      Yields place s (⟨kind, x, value, place, isSpaced s⟩ :: ts) r

namespace Text.Yields

variable {place : Location} {s r q : Text} {ts us : List Token}

theorem append (h : Yields place s ts r) (h' : Yields place r us q) :
    Yields place s (ts ++ us) q := by
  induction h with
  | nil => exact h'
  | token gap read _ ih => exact .token gap read (ih h')

/-- White space in front shows in the first token alone. -/
theorem space {t : Token} (h : Yields place s (t :: ts) r) {w : Text}
    (hw : ∀ c ∈ w, isSpace c = true) (hne : w ≠ []) :
    Yields place (w ++ s) ({ t with spaced := true } :: ts) r := by
  cases h with
  | token gap read more =>
    have hspaced : isSpaced (w ++ s) = true := by
      obtain ⟨c, w, rfl⟩ := List.exists_cons_of_ne_nil hne
      exact Lexeme.isSpaced_space (hw c List.mem_cons_self) _
    rw [← Lexeme.dropGap_append_space hw] at gap
    have hyields : Yields place (w ++ s) _ r := .token gap read more
    rwa [hspaced] at hyields

end Text.Yields

namespace Lexer

open Text (Yields)

variable (place : Location)

/-- A lexer reads what its text yields. -/
theorem tokens_of_yields {l : Lexer} (hl : l.failed = false) {ts : List Token} {r : Text}
    (h : Yields place l.rest ts r) (hr : dropGap r = []) :
    l.tokens.failure = none ∧ l.tokens.tokens.map (·.movedTo place) = ts := by
  generalize hs : l.rest = s at h
  induction h generalizing l with
  | nil =>
    rw [tokens_of_finished hl (by rw [rest_skipGap, hs, hr])]
    exact ⟨rfl, rfl⟩
  | @token s x rest r kind value ts gap read more ih =>
    have hread : Lexeme.read l.skipGap.rest = some (.token kind x value) := by
      rw [rest_skipGap, hs, gap, read]
    have hrest : (l.past x).rest = rest := by
      rw [past, rest_advance, rest_skipGap, hs, gap, List.drop_left]
    obtain ⟨hfailure, htokens⟩ := ih (l := l.past x) hl hr hrest
    rw [tokens_of_token hl hread]
    refine ⟨hfailure, ?_⟩
    rw [List.map_cons, htokens, hs]
    rfl

end Lexer

/-! ### Tokens of a source stand -/

/-- Two texts that begin alike, and of which the second is apart where they part. -/
inductive Text.Cut : (escaped : Bool) → (s n : Text) → Prop
  | char {e : Bool} (c : Char) {s n : Text} (rest : Cut (escapes e c) s n) :
      Cut e (c :: s) (c :: n)
  | stop {s n : Text} (apart : n.Apart) : Cut false s n

theorem Lexeme.alike_cut : Lexeme.Alike Text.Cut where
  char c _ _ h := .char c h
  front h := by
    cases h with
    | char c rest => exact .inl ⟨c, _, _, rfl, rfl, rest⟩
    | stop apart => exact .inr ⟨apart, fun he => by cases he⟩

/-- A space keeps apart. -/
theorem Text.apart_space (t : Text) : Text.Apart (' ' :: t) := ⟨rfl, rfl⟩

namespace Token

/-- Tokens with white space before the first of them, or without. -/
def led (spaced : Bool) : List Token → List Token
  | [] => []
  | t :: ts => { t with spaced := spaced } :: ts

theorem led_cons_self {t : Token} {ts : List Token} {b : Bool} (h : t.spaced = b) :
    led b (t :: ts) = t :: ts := by
  rw [led, ← h]

/-- Tokens that are read back from their texts, whatever white space is in front of them and whatever
text is behind them, if only it is apart. -/
def Stand (place : Location) (ts : List Token) : Prop :=
  ∀ w z : Text, (∀ c ∈ w, isSpace c = true) → z.Apart →
    Text.Yields place (w ++ (join ts ++ z)) (led (!w.isEmpty) ts) z

/-- A mark that is read as itself, and keeps what is on either side of it apart, as a comma does. -/
def isSolitary (t : Token) : Bool :=
  match t.text with
  | [c] => Lexeme.isPunct c && !Lexeme.isExtending c
  | _ => false

/-- `u` follows `t` behind white space or behind nothing at all, or one of them is solitary. -/
def Beside (t u : Token) : Prop :=
  u.spaced = true ∨ u.location.start = t.location.stop ∨ t.isSolitary = true ∨ u.isSolitary = true

instance (t u : Token) : Decidable (t.Beside u) := inferInstanceAs (Decidable (_ ∨ _ ∨ _ ∨ _))

/-- Tokens no two of which a comment alone keeps apart, and none of which ends in a backslash. -/
structure Tight (ts : List Token) : Prop where
  adjacent : ts.IsChain Beside
  unslashed : ∀ t ∈ ts, t.text.getLast? ≠ some '\\'

instance (ts : List Token) : Decidable (Tight ts) :=
  decidable_of_iff (ts.IsChain Beside ∧ ∀ t ∈ ts, t.text.getLast? ≠ some '\\')
    ⟨fun h => ⟨h.1, h.2⟩, fun h => ⟨h.adjacent, h.unslashed⟩⟩

/-- Tokens no two of which a comment alone keeps apart, each of them whole. -/
structure Abutting (ts : List Token) : Prop where
  adjacent : ts.IsChain Beside
  whole : ∀ t ∈ ts, t.text.Whole

theorem Abutting.tail {t : Token} {ts : List Token} (h : Abutting (t :: ts)) : Abutting ts where
  adjacent := h.adjacent.tail
  whole u hu := h.whole u (List.mem_cons_of_mem t hu)

theorem Tight.abutting {ts : List Token} (h : Tight ts) : Abutting ts where
  adjacent := h.adjacent
  whole t ht := .of_getLast? (h.unslashed t ht)

theorem Tight.within {ts us : List Token} (h : Tight ts) (hus : us <:+: ts) : Tight us where
  adjacent := h.adjacent.infix hus
  unslashed t ht := h.unslashed t (hus.subset ht)

/-- Tokens that do not end with an open parenthesis. -/
def Closed (ts : List Token) : Prop := ∀ t ∈ ts.getLast?, t.isMark '(' = false

theorem Closed.tail {t : Token} {ts : List Token} (h : Closed (t :: ts)) : Closed ts := by
  intro u hu
  refine h u ?_
  rw [List.getLast?_cons, Option.mem_def.1 hu]
  rfl

end Token

namespace Lexeme

/-- A text that a lexeme is read from has no gap in front, unless that is white space. -/
theorem dropGap_of_read {t : Text} {kind : TokenKind} {text value : Text}
    (h : read t = some (.token kind text value)) (hfront : ∀ c ∈ t.head?, isSpace c = false) :
    dropGap t = t ∧ isSpaced t = false := by
  cases t with
  | nil => cases h
  | cons c t =>
    have hcomment : takeComment (c :: t) = [] := by
      simp only [read, Option.some.injEq] at h
      split at h
      · cases h
      · rename_i hstart
        simp [takeComment, hstart]
    have hc : isSpace c = false := hfront c rfl
    exact ⟨dropGap_of_neither hc hcomment, isSpaced_of_neither hc hcomment⟩

theorem head?_dropGap_of_quotes {t : Text} (h : quotes t = true) :
    (dropGap t).head?.any isQuote = true := by
  induction t with
  | nil => cases h
  | cons c t ih =>
    cases hc : isSpace c with
    | true =>
      rw [dropGap_space hc]
      exact ih (by rwa [quotes_space hc] at h)
    | false =>
      have hquote : isQuote c = true := by rwa [quotes_cons hc] at h
      have hcomment : takeComment (c :: t) = [] := by
        have hslash : c ≠ '/' := by
          rintro rfl
          exact absurd hquote (by decide)
        simp [takeComment, startsComment_cons, hslash]
      rw [dropGap_of_neither hc hcomment]
      exact hquote

end Lexeme

/-- A lexeme behind white space is one token. -/
theorem Text.Yields.lexeme {place : Location} {x rest r value : Text} {kind : TokenKind}
    {ts : List Token} (hread : Lexeme.read (x ++ rest) = some (.token kind x value))
    (hfront : ∀ c ∈ x.head?, isSpace c = false) {w : Text} (hw : ∀ c ∈ w, isSpace c = true)
    (more : Yields place rest ts r) :
    Yields place (w ++ (x ++ rest)) (⟨kind, x, value, place, !w.isEmpty⟩ :: ts) r := by
  obtain ⟨hgap, hspaced⟩ := Lexeme.dropGap_of_read hread (by
    obtain ⟨c, x, rfl⟩ := List.exists_cons_of_ne_nil (Lexeme.text_ne_nil_of_read hread)
    exact hfront)
  have hyields : Yields place (x ++ rest) _ r := .token hgap hread more
  rw [hspaced] at hyields
  cases w with
  | nil => exact hyields
  | cons c w => exact hyields.space hw (List.cons_ne_nil c w)

namespace Lexer

open Text (Yields Cut)
open Token (trailing Abutting Tight Closed)

/-- `us` follow a token and `y` is the text behind it. Then `us` can be put behind that token again,
and it is not read otherwise for that. -/
structure Continues (y : Text) (us : List Token) : Prop where
  cut : ∀ z : Text, z.Apart → Cut false y (us.flatMap trailing ++ z)
  /-- A quote behind a parenthesis is still behind it, so that the name before is not that of a
  url. -/
  quotes : ∀ z r r' : Text, z.Apart → y = '(' :: r → us.flatMap trailing ++ z = '(' :: r' →
    Lexeme.quotes r = true → Lexeme.quotes r' = true
  opens : us ≠ [] → Lexeme.quotes y = true →
    ∀ z : Text, Lexeme.quotes (us.flatMap trailing ++ z) = true

/-- `us` are read again where they are put behind something else. -/
def Resumes (place : Location) (us : List Token) : Prop :=
  ∀ z : Text, z.Apart → Yields place (us.flatMap trailing ++ z) (us.map (·.movedTo place)) z

section Continues

variable {place : Location} {x y value : Text} {us : List Token} {kind : TokenKind}

/-- Whatever stood behind the last token, something apart can take its place. -/
theorem Continues.nil (y : Text) : Continues y [] where
  cut _ hz := .stop hz
  quotes z r r' hz _ heq := absurd (congrArg List.head? heq) (hz.head?_ne (d := '(') (by decide))
  opens h := absurd rfl h

/-- The text of a solitary token is apart. -/
theorem apart_of_isSolitary {t : Token} (h : t.isSolitary = true) (z : Text) :
    (t.text ++ z).Apart := by
  unfold Token.isSolitary at h
  split at h
  · rename_i c htext
    simp only [Bool.and_eq_true, Bool.not_eq_true'] at h
    obtain ⟨hpunct, hextending⟩ := h
    rw [htext]
    refine ⟨hextending, ?_⟩
    simp only [Lexeme.isPunct, Bool.not_eq_true', Bool.or_eq_false_iff, String.reduceToList,
      List.contains_cons, beq_eq_false_iff_ne] at hpunct
    obtain ⟨⟨-, hdigit⟩, -, -, -, -, hpoint, -⟩ := hpunct
    simp [Lexeme.startsUnsigned_cons, hpoint, hdigit]
  · cases h

/-- A token is read in front of what continues it, and a solitary one in front of anything. -/
theorem read_trailing (hread : Lexeme.read (x ++ y) = some (.token kind x value)) (hwhole : x.Whole)
    {location : Location} {spaced : Bool}
    (h : Continues y us ∨ Token.isSolitary ⟨kind, x, value, location, spaced⟩ = true) {z : Text}
    (hz : z.Apart) :
    Lexeme.read (x ++ (us.flatMap trailing ++ z)) = some (.token kind x value) := by
  rcases h with h | h
  · refine Lexeme.alike_cut.read ?_ (fun r r' => h.quotes z r r' hz) hread
    rw [hwhole]
    exact h.cut z hz
  · unfold Token.isSolitary at h
    split at h
    · rename_i c htext
      obtain rfl : x = [c] := htext
      have hpunct := (Bool.and_eq_true_iff.1 h).1
      rw [List.singleton_append, Lexeme.read_punct hpunct] at hread ⊢
      exact hread
    · cases h

/-- A token continues the one before it if it stands right behind it, has white space before it or is
solitary. -/
theorem Continues.cons {t : Text} {location : Location} (hgap : dropGap t = x ++ y)
    (hread : Lexeme.read (x ++ y) = some (.token kind x value)) (hwhole : x.Whole)
    (hclosed : us = [] → Token.isMark ⟨kind, x, value, location, isSpaced t⟩ '(' = true →
      Lexeme.quotes y = false)
    (h : Continues y us ∨ Token.isSolitary ⟨kind, x, value, location, isSpaced t⟩ = true)
    (hbeside : isSpaced t = true ∨ dropGap t = t ∨
      Token.isSolitary ⟨kind, x, value, location, isSpaced t⟩ = true) :
    Continues t (⟨kind, x, value, location, isSpaced t⟩ :: us) := by
  obtain ⟨c, x', rfl⟩ := List.exists_cons_of_ne_nil (Lexeme.text_ne_nil_of_read hread)
  have hc : isSpace c = false := Lexeme.dropGap_head t c (by rw [hgap]; rfl)
  have hquote : Lexeme.quotes t = true → Lexeme.isQuote c = true := by
    intro hquotes
    simpa [hgap] using Lexeme.head?_dropGap_of_quotes hquotes
  cases hspaced : isSpaced t with
  | true =>
    have htrail : ∀ z : Text, (⟨kind, c :: x', value, location, true⟩ :: us : List Token).flatMap
        trailing ++ z = ' ' :: (c :: x' ++ (us.flatMap trailing ++ z)) := by
      intro z
      simp [trailing]
    refine ⟨fun z _ => ?_, fun z r r' _ _ heq => ?_, fun _ hquotes z => ?_⟩
    · rw [htrail]
      exact .stop (Text.apart_space _)
    · rw [htrail] at heq
      cases heq
    · rw [htrail, Lexeme.quotes_space (by decide), List.cons_append, Lexeme.quotes_cons hc]
      exact hquote hquotes
  | false =>
    rw [hspaced] at h hbeside
    have htrail : ∀ z : Text, (⟨kind, c :: x', value, location, false⟩ :: us : List Token).flatMap
        trailing ++ z = c :: x' ++ (us.flatMap trailing ++ z) := by
      intro z
      simp [trailing]
    have hopens : ∀ z : Text, Lexeme.quotes t = true → Lexeme.quotes
        ((⟨kind, c :: x', value, location, false⟩ :: us : List Token).flatMap trailing ++ z) =
          true := by
      intro z hquotes
      rw [htrail, List.cons_append, Lexeme.quotes_cons hc]
      exact hquote hquotes
    by_cases hsolitary : Token.isSolitary ⟨kind, c :: x', value, location, false⟩ = true
    · -- nothing reaches into a solitary token, so what follows it does not matter
      have hapart := fun z => apart_of_isSolitary hsolitary (us.flatMap trailing ++ z)
      refine ⟨fun z _ => ?_, fun z r r' _ _ heq => ?_, fun _ hquotes z => hopens z hquotes⟩
      · rw [htrail]
        exact .stop (hapart z)
      · rw [htrail] at heq
        exact absurd (congrArg List.head? heq) ((hapart z).head?_ne (by decide))
    replace h := h.resolve_right hsolitary
    have ht : t = c :: x' ++ y := by
      rw [← hgap]
      exact ((hbeside.resolve_left (by decide)).resolve_right hsolitary).symm
    refine ⟨fun z hz => ?_, fun z r r' hz hr hr' hquotes => ?_, fun _ hquotes z => hopens z hquotes⟩
    · rw [htrail, ht]
      refine Lexeme.alike_cut.append _ ?_
      rw [hwhole]
      exact h.cut z hz
    · -- the token is the parenthesis, and not the last one
      rw [htrail] at hr'
      obtain ⟨rfl, -⟩ := List.cons.inj (ht.symm.trans hr)
      obtain ⟨rfl, rfl⟩ : kind = .punct ∧ x' = [] := by
        rw [List.cons_append, Lexeme.read_punct (by decide)] at hread
        cases hread
        exact ⟨rfl, rfl⟩
      obtain rfl : y = r := (List.cons.inj (ht.symm.trans hr)).2
      obtain rfl : us.flatMap trailing ++ z = r' := (List.cons.inj hr').2
      refine h.opens (fun hnil => ?_) hquotes z
      rw [hclosed hnil rfl] at hquotes
      cases hquotes

end Continues

/-- Where nothing is skipped there is no gap. -/
theorem dropGap_of_index {l : Lexer} (h : l.skipGap.position.index = l.position.index) :
    dropGap l.rest = l.rest := by
  have hle := (Lexeme.takeGap_isPrefix l.rest).length_le
  rw [skipGap, position_advance, Position.index_after, List.length_take, Nat.min_eq_left hle] at h
  rw [dropGap, show (Lexeme.takeGap l.rest).length = 0 by omega, List.drop_zero]

theorem split_of_read {l : Lexer} {kind : TokenKind} {x value : Text}
    (h : Lexeme.read l.skipGap.rest = some (.token kind x value)) :
    dropGap l.rest = x ++ (l.past x).rest ∧
      Lexeme.read (x ++ (l.past x).rest) = some (.token kind x value) := by
  have hsplit : dropGap l.rest = x ++ (l.past x).rest :=
    (Text.append_drop_of_prefix (Lexeme.text_prefix_of_read h)).symm
  exact ⟨hsplit, hsplit ▸ h⟩

/-- No quote is ahead of a lexer that reads nothing more. -/
theorem quotes_of_tokens_eq_nil {l : Lexer} (hl : l.failed = false)
    (htokens : l.tokens.tokens = []) (hfailure : l.tokens.failure = none) :
    Lexeme.quotes l.rest = false := by
  refine Bool.eq_false_iff.2 fun hquotes => ?_
  have hhead := Lexeme.head?_dropGap_of_quotes hquotes
  cases hread : Lexeme.read l.skipGap.rest with
  | none =>
    rw [← rest_skipGap, Lexeme.eq_nil_of_read hread] at hhead
    cases hhead
  | some lexeme =>
    cases lexeme with
    | token kind text value => rw [tokens_of_token hl hread] at htokens; cases htokens
    | broken fault text => rw [tokens_of_broken hl hread] at hfailure; cases hfailure

/-- The token that a lexer reads next is read again in front of what continues it. -/
theorem yields_of_read {place location : Location} {l : Lexer} {kind : TokenKind} {x value : Text}
    {spaced : Bool} (hread : Lexeme.read l.skipGap.rest = some (.token kind x value))
    (hwhole : x.Whole) {us : List Token} (hresumes : Resumes place us)
    (h : Continues (l.past x).rest us ∨
      Token.isSolitary ⟨kind, x, value, location, spaced⟩ = true)
    {w z : Text} (hw : ∀ c ∈ w, isSpace c = true) (hz : z.Apart) :
    Yields place (w ++ (x ++ (us.flatMap trailing ++ z)))
      (⟨kind, x, value, place, !w.isEmpty⟩ :: us.map (·.movedTo place)) z := by
  obtain ⟨hgap, hread⟩ := split_of_read hread
  have hhead : ∀ c ∈ x.head?, isSpace c = false := fun c hc =>
    Lexeme.dropGap_head l.rest c (hgap ▸ List.mem_head?_append_of_mem_head? hc)
  exact .lexeme (read_trailing hread hwhole h hz) hhead hw (hresumes z hz)

/-- `us` follow closely what a lexer has read. -/
def Meets (l : Lexer) (us : List Token) : Prop :=
  ∀ u ∈ us.head?, u.spaced = true ∨ u.location.start = l.position.index ∨ u.isSolitary = true

/-- What a lexer reads next meets the token before it, unless that is solitary. -/
theorem meets_of_abutting {l : Lexer} {t : Token} {us : List Token} (h : Abutting (t :: us))
    (hstop : t.location.stop = l.position.index) : t.isSolitary = true ∨ l.Meets us := by
  refine or_iff_not_imp_left.2 fun hsolitary u hu => ?_
  rcases (List.isChain_cons.1 h.adjacent).1 u hu with hspaced | hstart | ht | hu
  · exact .inl hspaced
  · exact .inr (.inl (hstart.trans hstop))
  · exact absurd ht hsolitary
  · exact .inr (.inr hu)

/-- The tokens that a lexer reads next are read again behind something else, and they continue what it
has read if they meet it. They may end with an open parenthesis only if the lexer reads nothing
more. -/
theorem continues_of_prefix (place : Location) (l : Lexer) (hl : l.failed = false) {us : List Token}
    (hus : us <+: l.tokens.tokens) (habut : Abutting us)
    (hclosed : Closed us ∨ us = l.tokens.tokens ∧ l.tokens.failure = none) :
    Resumes place us ∧ (l.Meets us → Continues l.rest us) := by
  have hnil : ∀ l : Lexer, Resumes place [] ∧ (l.Meets [] → Continues l.rest []) :=
    fun l => ⟨fun _ _ => .nil, fun _ => .nil l.rest⟩
  refine (stream_induction (P := fun l stream => l.tokens = stream ∧
    ∀ us, us <+: stream.tokens → Abutting us →
      (Closed us ∨ us = stream.tokens ∧ stream.failure = none) →
      Resumes place us ∧ (l.Meets us → Continues l.rest us)) ?_ ?_ ?_ l hl).2 us hus habut hclosed
  · intro l hl hrest
    refine ⟨tokens_of_finished hl hrest, fun us hus _ _ => ?_⟩
    rw [List.prefix_nil.1 hus]
    exact hnil l
  · intro l fault text hl hread
    refine ⟨tokens_of_broken hl hread, fun us hus _ _ => ?_⟩
    rw [List.prefix_nil.1 hus]
    exact hnil l
  · intro l kind x value stream hl hread ih
    obtain ⟨rfl, hlater⟩ := ih
    refine ⟨tokens_of_token hl hread, fun us hus habut hclosed => ?_⟩
    rcases List.prefix_cons_iff.1 hus with rfl | ⟨us, rfl, hus'⟩
    · exact hnil l
    have hwhole := habut.whole _ List.mem_cons_self
    obtain ⟨hresumes, hcontinues⟩ := hlater us hus' habut.tail
      (hclosed.imp Closed.tail fun hall => ⟨(List.cons.inj hall.1).2, hall.2⟩)
    have hrest := ((meets_of_abutting habut rfl).imp_right hcontinues).symm
    refine ⟨fun z hz => ?_, fun hmeets => ?_⟩
    · rw [List.flatMap_cons, List.append_assoc, List.map_cons, Token.movedTo]
      cases hspaced : isSpaced l.rest with
      | true =>
        exact yields_of_read (w := [' ']) hread hwhole hresumes hrest (by simp [isSpace]) hz
      | false =>
        exact yields_of_read (w := []) hread hwhole hresumes hrest (List.forall_mem_nil _) hz
    · obtain ⟨hgap, hread⟩ := split_of_read hread
      refine .cons hgap hread hwhole ?_ hrest ?_
      · rintro rfl hmark
        rcases hclosed with hclosed | ⟨hall, hfailure⟩
        · cases hmark.symm.trans (hclosed _ rfl)
        · exact quotes_of_tokens_eq_nil hl (List.cons.inj hall).2.symm hfailure
      · refine (hmeets _ rfl).imp_right (.imp_left fun hstart => dropGap_of_index ?_)
        exact Int.ofNat.inj hstart

/-- The next tokens of a lexer are read again behind white space. -/
theorem yields_of_prefix (place : Location) {l : Lexer} (hl : l.failed = false) {kind : TokenKind}
    {x value : Text} {location : Location} {spaced : Bool}
    (hread : Lexeme.read l.skipGap.rest = some (.token kind x value)) {us : List Token}
    (hus : us <+: (l.past x).tokens.tokens)
    (habut : Abutting (⟨kind, x, value, location, spaced⟩ :: us))
    (hstop : location.stop = (l.past x).position.index)
    (hclosed : Closed us ∨ us = (l.past x).tokens.tokens ∧ (l.past x).tokens.failure = none)
    {w z : Text} (hw : ∀ c ∈ w, isSpace c = true) (hz : z.Apart) :
    Yields place (w ++ (x ++ (us.flatMap trailing ++ z)))
      (⟨kind, x, value, place, !w.isEmpty⟩ :: us.map (·.movedTo place)) z := by
  obtain ⟨hresumes, hcontinues⟩ := continues_of_prefix place (l.past x) hl hus habut.tail hclosed
  exact yields_of_read hread (habut.whole _ List.mem_cons_self) hresumes
    ((meets_of_abutting habut hstop).imp_right hcontinues).symm hw hz

/-- Neighbouring tokens stand. -/
theorem stand_of_infix (place : Location) (l : Lexer) (hl : l.failed = false)
    {ts : List Token} (hts : ts <:+: l.tokens.tokens) (htight : Tight ts)
    (hne : ts ≠ []) (hclosed : Closed ts) : Token.Stand place (ts.map (·.movedTo place)) := by
  refine (stream_induction (P := fun l stream => l.tokens = stream ∧
    ∀ ts, ts <:+: stream.tokens → Tight ts → ts ≠ [] → Closed ts →
      Token.Stand place (ts.map (·.movedTo place))) ?_ ?_ ?_ l hl).2 ts hts htight hne hclosed
  · intro l hl hrest
    exact ⟨tokens_of_finished hl hrest, fun ts hts _ hne => absurd (List.infix_nil.1 hts) hne⟩
  · intro l fault text hl hread
    exact ⟨tokens_of_broken hl hread, fun ts hts _ hne => absurd (List.infix_nil.1 hts) hne⟩
  · intro l kind x value stream hl hread ih
    obtain ⟨rfl, hlater⟩ := ih
    refine ⟨tokens_of_token hl hread, fun ts hts htight hne hclosed => ?_⟩
    rcases List.infix_cons_iff.1 hts with hfront | hback
    swap
    · exact hlater ts hback htight hne hclosed
    obtain ⟨us, rfl, hus⟩ := (List.prefix_cons_iff.1 hfront).resolve_left hne
    intro w z hw hz
    rw [Token.join_movedTo, Token.join, List.append_assoc]
    exact yields_of_prefix place hl hread hus htight.abutting rfl (.inl hclosed.tail) hw hz

end Lexer

/-- Tokens at `place` of which all neighbours stand that do not end with an open parenthesis. -/
def Token.Writable (place : Location) (ts : List Token) : Prop :=
  ∀ us, us <:+: ts → us ≠ [] → Closed us → Stand place us

/-- Neighbouring tokens of a source can be written down again. -/
theorem Text.writable_of_infix (place : Location) {source : Text} {ts : List Token}
    (hts : ts <:+: (tokenize source).tokens) (htight : Token.Tight ts) :
    Token.Writable place (ts.map (·.movedTo place)) := by
  rintro us ⟨before, after, heq⟩ hne hclosed
  obtain ⟨front, after', hfront, hus, -⟩ := List.map_eq_append_iff.1 heq.symm
  obtain ⟨before', vs, rfl, -, rfl⟩ := List.map_eq_append_iff.1 hus
  have hvs : vs <:+: ts := ⟨before', after', hfront.symm⟩
  refine Lexer.stand_of_infix place (.start source) rfl (hvs.trans hts) (htight.within hvs) ?_ ?_
  · rintro rfl
    exact hne rfl
  · intro t ht
    have hmem : t.movedTo place ∈ (vs.map (·.movedTo place)).getLast? := by
      rw [List.getLast?_map, ht]
      rfl
    simpa using hclosed _ hmem

end ScopedCss
