/-
The places of tokens. A reader that counts lines as it goes comes to what a count over the text
read so far gives (`Position.isRight_between`, `Location.endOf_eq_between`), so every token and
every lexical failure covers what its location says (`Lexer.covers_tokens`).
-/
import ScopedCss.Proofs.Token.Tiling

namespace ScopedCss

/-- `o` is where the line of offset `n` begins: just after the last line feed before `n`, or at the
front of the text. -/
structure Text.LineStart (t : Text) (n o : Nat) : Prop where
  le : o ≤ n
  opens : o = 0 ∨ t[o - 1]? = some '\n'
  last : ∀ i, o ≤ i → i < n → t[i]? ≠ some '\n'

/-- The last line of a text is what stands behind its last line feed. -/
theorem Text.LineStart.length_takeWhile {t : Text} {o : Nat} (h : t.LineStart t.length o) :
    (t.reverse.takeWhile (· ≠ '\n')).length = t.length - o := by
  have hline : ∀ c ∈ (t.drop o).reverse, decide (c ≠ '\n') = true := by
    intro c hc
    obtain ⟨i, hi⟩ := List.mem_iff_getElem?.1 (List.mem_reverse.1 hc)
    rw [List.getElem?_drop] at hi
    have hlt := (List.getElem?_eq_some_iff.1 hi).1
    have hne := h.last (o + i) (Nat.le_add_right o i) hlt
    rw [hi] at hne
    simpa using hne
  have hbefore : (t.take o).reverse.takeWhile (· ≠ '\n') = [] := by
    cases o with
    | zero => rfl
    | succ k =>
      have hopens : t[k]? = some '\n' := by simpa using h.opens
      simp [List.take_add_one, hopens]
  rw [← List.take_append_drop o t, List.reverse_append, List.takeWhile_append_of_pos hline, hbefore,
    List.append_nil, List.length_reverse, List.take_append_drop, List.length_drop]

/-- A location lies in a source, and its line and column are those of its start. -/
structure Location.IsRight (source : Text) (l : Location) : Prop where
  start_nonneg : 0 ≤ l.start
  start_le_stop : l.start ≤ l.stop
  stop_le : l.stop ≤ source.length
  line : l.line = 1 + (source.take l.start.toNat).count '\n'
  column : ∃ o, source.LineStart l.start.toNat o ∧ l.column = l.start - o + 1

/-- A right location of at least one character. -/
structure Location.Covers (source : Text) (l : Location) : Prop extends l.IsRight source where
  nonempty : l.start < l.stop

namespace Position

/-- How far a reader has come agrees with the text it has read. -/
structure Counts (front : Text) (p : Position) : Prop where
  index : p.index = front.length
  line : p.line = 1 + front.count '\n'
  lineStart : front.LineStart front.length p.lineStart

theorem Counts.step {front : Text} {p : Position} (h : p.Counts front) (c : Char) :
    (p.step c).Counts (front ++ [c]) := by
  have hle := h.lineStart.le
  by_cases hc : c = '\n'
  · subst hc
    have hstep : p.step '\n' = ⟨p.index + 1, p.line + 1, p.index + 1⟩ := rfl
    rw [hstep]
    refine ⟨by simp [h.index], by simp [h.line, Nat.add_assoc], ⟨by simp [h.index], ?_, ?_⟩⟩
    · exact .inr (by simp [h.index])
    · intro i hstart hlt
      simp only [h.index, List.length_append, List.length_singleton] at hstart hlt
      omega
  · have hstep : p.step c = ⟨p.index + 1, p.line, p.lineStart⟩ := if_neg hc
    rw [hstep]
    refine ⟨by simp [h.index], by simp [h.line, hc], ⟨?_, ?_, ?_⟩⟩
    · rw [List.length_append]
      exact Nat.le_add_right_of_le hle
    · rcases h.lineStart.opens with hzero | hopens
      · exact .inl hzero
      · have hlt := (List.getElem?_eq_some_iff.1 hopens).1
        exact .inr (by rw [List.getElem?_append_left hlt, hopens])
    · intro i hstart hlt
      rcases Nat.lt_or_ge i front.length with hi | hi
      · rw [List.getElem?_append_left hi]
        exact h.lineStart.last i hstart hi
      · have hi : i = front.length := by
          simp only [List.length_append, List.length_singleton] at hlt
          omega
        subst hi
        simpa using hc

theorem counts_after (front : Text) : (origin.after front).Counts front := by
  induction front using List.reverseRecOn with
  | nil => exact ⟨rfl, rfl, ⟨Nat.le_refl 0, .inl rfl, fun i _ h => absurd h (Nat.not_lt_zero i)⟩⟩
  | append_singleton front c ih =>
    have hstep : origin.after (front ++ [c]) = (origin.after front).step c := after_append ..
    rw [hstep]
    exact ih.step c

end Position

namespace Location

/-- A span that begins behind a front part of a source and ends inside it is right. -/
theorem isRight_between {front rest : Text} {q : Position} (hstart : front.length ≤ q.index)
    (hstop : q.index ≤ (front ++ rest).length) :
    (between (Position.origin.after front) q).IsRight (front ++ rest) := by
  have h := Position.counts_after front
  refine ⟨?_, ?_, ?_, ?_, (Position.origin.after front).lineStart, ?_, ?_⟩
  all_goals simp only [between, Position.column, h.index, Int.toNat_natCast]
  · exact Int.natCast_nonneg _
  · exact Int.ofNat_le.2 hstart
  · exact Int.ofNat_le.2 hstop
  · simp [h.line]
  · refine ⟨h.lineStart.le, ?_, ?_⟩
    · rcases h.lineStart.opens with hzero | hopens
      · exact .inl hzero
      · have hlt := (List.getElem?_eq_some_iff.1 hopens).1
        exact .inr (by rw [List.getElem?_append_left hlt, hopens])
    · intro i hi hlt
      rw [List.getElem?_append_left hlt]
      exact h.lineStart.last i hi hlt
  · have hle := h.lineStart.le
    omega

/-- Counting over a whole text comes to what counting along the way does. -/
theorem endOf_eq_between (t : Text) :
    endOf t = between (Position.origin.after t) (Position.origin.after t) := by
  have h := Position.counts_after t
  simp only [endOf, between, Position.column, h.index, h.line, h.lineStart.length_takeWhile]
  congr 1
  omega

theorem isRight_endOf (source : Text) : (endOf source).IsRight source := by
  have h := Position.counts_after source
  have hright : (between (Position.origin.after source) (Position.origin.after source)).IsRight
      (source ++ []) := isRight_between h.index.ge (by rw [h.index, List.append_nil])
  rwa [← endOf_eq_between, List.append_nil] at hright

theorem IsRight.span {source : Text} {a b : Location} (ha : a.IsRight source)
    (hb : b.IsRight source) (h : a.start ≤ b.stop) : (a.span b).IsRight source :=
  ⟨ha.start_nonneg, h, hb.stop_le, ha.line, ha.column⟩

theorem Covers.span {source : Text} {a b : Location} (ha : a.Covers source)
    (hb : b.Covers source) (h : a.stop ≤ b.start) : (a.span b).Covers source := by
  have hlt := Int.lt_of_lt_of_le ha.nonempty (Int.le_trans h hb.start_le_stop)
  exact ⟨ha.toIsRight.span hb.toIsRight (Int.le_of_lt hlt), hlt⟩

end Location

namespace Lexer

/-- What a lexer reads next stands where its location says. -/
theorem Within.covers_place {source : Text} {l : Lexer} (h : Within source l) {x : Lexeme}
    (hread : Lexeme.read l.skipGap.rest = some x) : (l.place x.text).Covers source := by
  have hskip : Within source l.skipGap := h.advance _
  obtain ⟨front, hsource, hposition⟩ := hskip
  have hprefix := Lexeme.text_prefix_of_read hread
  have hpast := index_past hprefix
  have hpos := List.length_pos_iff.mpr (Lexeme.text_ne_nil_of_read hread)
  have hindex : l.skipGap.position.index = front.length := by
    rw [hposition, (Position.counts_after front).index]
  have hlength := congrArg List.length hsource
  rw [List.length_append] at hlength
  have hle : x.text.length ≤ l.skipGap.rest.length := hprefix.length_le
  have hright : (l.place x.text).IsRight (front ++ l.skipGap.rest) := by
    rw [place, hposition]
    refine Location.isRight_between ?_ ?_
    · omega
    · rw [List.length_append]
      omega
  rw [← hsource] at hright
  refine ⟨hright, ?_⟩
  simp only [place, Location.between]
  omega

/-- The tokens that a lexer yields, and the failure that may end them, are where they say. -/
theorem covers_tokens {source : Text} (l : Lexer) (hl : l.failed = false) (h : Within source l) :
    (∀ t ∈ l.tokens.tokens, t.location.Covers source) ∧
      ∀ e, l.tokens.failure = some e →
        ∃ fault place, e = .lexical fault place ∧ place.Covers source := by
  refine stream_induction (P := fun l stream => Within source l →
    (∀ t ∈ stream.tokens, t.location.Covers source) ∧ ∀ e, stream.failure = some e →
      ∃ fault place, e = .lexical fault place ∧ place.Covers source) ?_ ?_ ?_ l hl h
  · intro l _ _ _
    exact ⟨List.forall_mem_nil _, nofun⟩
  · intro l fault text _ hread h
    refine ⟨List.forall_mem_nil _, ?_⟩
    rintro e he
    cases he
    exact ⟨fault, _, rfl, h.covers_place hread⟩
  · intro l kind text value stream _ hread ih h
    obtain ⟨htokens, hfailure⟩ := ih (h.past text)
    exact ⟨List.forall_mem_cons.2 ⟨h.covers_place hread, htokens⟩, hfailure⟩

end Lexer

/-- Tokens that tile a source come in order. -/
theorem Tiled.pairwise {source : Text} {stop start : Int} {tokens : List Token}
    (h : Tiled source stop start tokens) :
    (∀ t ∈ tokens, start ≤ t.location.start) ∧
      tokens.Pairwise fun a b => a.location.stop ≤ b.location.start := by
  induction h with
  | nil => exact ⟨List.forall_mem_nil _, .nil⟩
  | cons ordered _ _ nonempty _ _ _ ih =>
    obtain ⟨hstarts, hpairs⟩ := ih
    refine ⟨List.forall_mem_cons.2 ⟨ordered, fun t ht => ?_⟩, .cons hstarts hpairs⟩
    have := hstarts t ht
    omega

end ScopedCss
