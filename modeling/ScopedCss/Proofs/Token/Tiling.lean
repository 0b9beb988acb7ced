/-
The tokens of a source tile it. Between them stand gaps, made of white space and of complete
comments and of nothing else (`Text.tiled_tokenize`), up to the end or to the unit that breaks off.
-/
import ScopedCss.Proofs.Token.Reading

namespace ScopedCss

/-- A piece of a gap: one character of white space, or a comment, which ends at the first `*/` after
it opens. -/
inductive GapPiece where
  | space (c : Char) (isSpace : c ∈ [' ', '\t', '\n', '\r', '\x0c'])
  | comment (remark : Text) (closes : ¬ ['*', '/'] <:+: remark ++ ['*'])

namespace GapPiece

def text : GapPiece → Text
  | space c _ => [c]
  | comment remark _ => '/' :: '*' :: remark ++ ['*', '/']

def IsSpace : GapPiece → Prop
  | space .. => True
  | comment .. => False

/-- The text of pieces side by side. -/
def texts (pieces : List GapPiece) : Text := pieces.flatMap text

end GapPiece

/-- A gap: white space and complete comments. -/
def Text.IsGap (t : Text) : Prop := ∃ pieces, t = GapPiece.texts pieces

/-- A gap with white space outside its comments. -/
def Text.IsSpacedGap (t : Text) : Prop :=
  ∃ pieces, t = GapPiece.texts pieces ∧ ∃ p ∈ pieces, p.IsSpace

/-- `tokens` tile `source` between two offsets: each is the part of the source at its place, none is
empty, and in front of each, as behind the last, stands a gap. A token is marked as spaced if its
gap has white space outside comments. -/
inductive Tiled (source : Text) (stop : Int) : Int → List Token → Prop
  | nil {start : Int} (ordered : start ≤ stop) (inside : stop ≤ source.length)
      (gap : (source.slice start stop).IsGap) : Tiled source stop start []
  | cons {start : Int} {t : Token} {ts : List Token} (ordered : start ≤ t.location.start)
      (gap : (source.slice start t.location.start).IsGap)
      (spaced : t.spaced = true ↔ (source.slice start t.location.start).IsSpacedGap)
      (nonempty : t.location.start < t.location.stop) (ne_nil : t.text ≠ [])
      (text : t.text = t.location.slice source) (rest : Tiled source stop t.location.stop ts) :
      Tiled source stop start (t :: ts)

theorem Text.offset_natCast {n k : Nat} (h : k ≤ n) : offset n k = k := by
  rw [offset, if_neg (by omega), Int.toNat_natCast, Nat.min_eq_left h]

theorem Text.slice_append (p t r : Text) :
    Text.slice (p ++ t ++ r) p.length ↑(p.length + t.length) = t := by
  have hp : offset (p ++ t ++ r).length p.length = p.length := offset_natCast (by simp)
  have ht : offset (p ++ t ++ r).length ↑(p.length + t.length) = p.length + t.length :=
    offset_natCast (by simp)
  simp only [slice, hp, ht]
  simp

namespace Lexeme

theorem mem_of_isSpace {c : Char} (h : isSpace c = true) : c ∈ [' ', '\t', '\n', '\r', '\x0c'] := by
  simpa [isSpace, or_assoc] using h

theorem isSpace_of_mem {c : Char} (h : c ∈ [' ', '\t', '\n', '\r', '\x0c']) : isSpace c = true := by
  simpa [isSpace, or_assoc] using h

/-- The gap in front consists of pieces, of which one is white space if the gap counts as spaced. -/
theorem exists_pieces (t : Text) :
    ∃ pieces, takeGap t = GapPiece.texts pieces ∧
      (isSpaced t = true → ∃ p ∈ pieces, p.IsSpace) := by
  fun_induction takeGap t with
  | case1 => exact ⟨[], rfl, by simp [isSpaced]⟩
  | case2 c r hc ih =>
    obtain ⟨pieces, hpieces, -⟩ := ih
    refine ⟨.space c (mem_of_isSpace hc) :: pieces, ?_, ?_⟩
    · rw [hpieces]
      rfl
    · exact fun _ => ⟨_, List.mem_cons_self, trivial⟩
  | case3 c r hc hcomment =>
    refine ⟨[], rfl, ?_⟩
    rw [isSpaced]
    simp [hc, hcomment]
  | case4 c r hc hcomment _ ih =>
    obtain ⟨pieces, hpieces, hspaced⟩ := ih
    obtain ⟨remark, rest, htext, -, hcloses⟩ := takeComment_spec hcomment
    refine ⟨.comment remark hcloses :: pieces, ?_, ?_⟩
    · rw [hpieces, htext]
      rfl
    · rw [isSpaced]
      simp only [hc, hcomment, Bool.false_eq_true, if_false, dif_neg, not_false_iff]
      intro h
      obtain ⟨p, hp, hspace⟩ := hspaced h
      exact ⟨p, List.mem_cons_of_mem _ hp, hspace⟩

theorem takeRemark_append {remark : Text} (h : ¬ ['*', '/'] <:+: remark ++ ['*']) (r : Text) :
    takeRemark (remark ++ '*' :: '/' :: r) = remark := by
  induction remark with
  | nil => rfl
  | cons c remark ih =>
    rw [List.cons_append, List.infix_cons_iff, not_or] at h
    rw [List.cons_append, takeRemark, ih h.2]
    intro u hc hu
    subst hc
    cases remark with
    | nil => simp at hu
    | cons d remark =>
      obtain ⟨rfl, -⟩ := List.cons.inj hu
      exact h.1 ⟨remark ++ ['*'], rfl⟩

/-- A comment that stands in front is taken as it stands. -/
theorem takeComment_append {remark : Text} (h : ¬ ['*', '/'] <:+: remark ++ ['*']) (r : Text) :
    takeComment ('/' :: '*' :: remark ++ ['*', '/'] ++ r) = '/' :: '*' :: remark ++ ['*', '/'] := by
  have hremark := takeRemark_append h r
  simp [takeComment, startsComment, hremark]

theorem isSpaced_of_comment {t : Text} (h : takeComment t ≠ []) :
    isSpaced t = isSpaced (t.drop (takeComment t).length) := by
  obtain ⟨remark, rest, htext, ht, -⟩ := takeComment_spec h
  cases t with
  | nil => rfl
  | cons c r =>
    have hc : isSpace c = false := by
      rw [htext] at ht
      rw [(List.cons.inj ht).1]
      decide
    rw [isSpaced]
    simp [hc, h]

/-- Whether a gap counts as spaced shows in its pieces, whatever follows it. -/
theorem isSpaced_of_pieces {pieces : List GapPiece} (h : ∃ p ∈ pieces, p.IsSpace) (r : Text) :
    isSpaced (GapPiece.texts pieces ++ r) = true := by
  induction pieces with
  | nil => simp at h
  | cons p pieces ih =>
    cases p with
    | space c hc =>
      have hspace := isSpace_of_mem hc
      simp only [GapPiece.texts, List.flatMap_cons, GapPiece.text, List.cons_append,
        List.nil_append]
      rw [isSpaced]
      simp [hspace]
    | comment remark hcloses =>
      have hpieces : ∃ p ∈ pieces, p.IsSpace := by
        obtain ⟨p, hp, hspace⟩ := h
        rcases List.mem_cons.1 hp with rfl | hp
        · exact hspace.elim
        · exact ⟨p, hp, hspace⟩
      have hcomment := takeComment_append hcloses (GapPiece.texts pieces ++ r)
      have htext : GapPiece.texts (.comment remark hcloses :: pieces) ++ r =
          '/' :: '*' :: remark ++ ['*', '/'] ++ (GapPiece.texts pieces ++ r) := by
        simp [GapPiece.texts, GapPiece.text]
      rw [htext, isSpaced_of_comment (by rw [hcomment]; simp), hcomment, List.drop_left]
      exact ih hpieces

theorem isGap_takeGap (t : Text) : (takeGap t).IsGap := by
  obtain ⟨pieces, hpieces, -⟩ := exists_pieces t
  exact ⟨pieces, hpieces⟩

theorem isSpaced_iff (t : Text) : isSpaced t = true ↔ (takeGap t).IsSpacedGap := by
  constructor
  · intro h
    obtain ⟨pieces, hpieces, hspaced⟩ := exists_pieces t
    exact ⟨pieces, hpieces, hspaced h⟩
  · rintro ⟨pieces, hpieces, hspaced⟩
    rw [← Text.append_drop_of_prefix (takeGap_isPrefix t), hpieces]
    exact isSpaced_of_pieces hspaced _

end Lexeme

/-- Where the tokens of a source stop: at its end, or where a unit begins that breaks off. -/
def TokenStream.StopsAt (source : Text) (stream : TokenStream) (stop : Int) : Prop :=
  match stream.failure with
  | none => stop = source.length
  | some e => ∃ l, e.location = some l ∧ stop = l.start

namespace Lexer

/-- The parts of a source around the gap that a lexer stands in front of. -/
theorem Within.gap {source : Text} {l : Lexer} (h : Within source l) :
    ∃ front, source = front ++ Lexeme.takeGap l.rest ++ l.skipGap.rest ∧
      l.position.index = front.length ∧
      l.skipGap.position.index = front.length + (Lexeme.takeGap l.rest).length := by
  obtain ⟨front, hsource, hposition⟩ := h
  have hgap := Text.append_drop_of_prefix (Lexeme.takeGap_isPrefix l.rest)
  refine ⟨front, ?_, ?_, ?_⟩
  · rw [List.append_assoc]
    exact hsource.trans (congrArg (front ++ ·) hgap.symm)
  · simp [hposition, Position.origin]
  · have hle := (Lexeme.takeGap_isPrefix l.rest).length_le
    simp only [skipGap, position_advance, Position.index_after, hposition, Position.origin,
      List.length_take]
    omega

theorem index_past {l : Lexer} {text : Text} (h : text <+: l.skipGap.rest) :
    (l.past text).position.index = l.skipGap.position.index + text.length := by
  rw [past, position_advance, Position.index_after, List.length_take,
    Nat.min_eq_left h.length_le]

theorem tiled_tokens {source : Text} (l : Lexer) (hl : l.failed = false) (h : Within source l) :
    ∃ stop, l.tokens.StopsAt source stop ∧ Tiled source stop l.position.index l.tokens.tokens := by
  refine stream_induction (P := fun l stream => Within source l →
    ∃ stop, stream.StopsAt source stop ∧ Tiled source stop l.position.index stream.tokens)
    ?_ ?_ ?_ l hl h
  · intro l _ hrest h
    obtain ⟨front, hsource, hfront, -⟩ := h.gap
    rw [hrest] at hsource
    have hslice := Text.slice_append front (Lexeme.takeGap l.rest) []
    rw [← hsource] at hslice
    have hlength : source.length = front.length + (Lexeme.takeGap l.rest).length := by
      simp [hsource]
    refine ⟨source.length, rfl, .nil (by omega) (by omega) ?_⟩
    rw [hfront, hlength, hslice]
    exact Lexeme.isGap_takeGap l.rest
  · intro l fault text _ hread h
    obtain ⟨front, hsource, hfront, hgap⟩ := h.gap
    have hslice := Text.slice_append front (Lexeme.takeGap l.rest) l.skipGap.rest
    rw [← hsource] at hslice
    have hlength : front.length + (Lexeme.takeGap l.rest).length ≤ source.length := by
      simp [hsource]
    refine ⟨l.skipGap.position.index, ⟨_, rfl, rfl⟩, .nil (by omega) (by omega) ?_⟩
    rw [hfront, hgap, hslice]
    exact Lexeme.isGap_takeGap l.rest
  · intro l kind text value stream _ hread ih h
    obtain ⟨stop, hstop, htiled⟩ := ih (h.past text)
    obtain ⟨front, hsource, hfront, hgap⟩ := h.gap
    have hprefix : text <+: l.skipGap.rest := Lexeme.text_prefix_of_read hread
    have hpast := index_past hprefix
    have hne : text ≠ [] := Lexeme.text_ne_nil_of_read hread
    have hpos := List.length_pos_iff.mpr hne
    have hslice := Text.slice_append front (Lexeme.takeGap l.rest) l.skipGap.rest
    rw [← hsource] at hslice
    have htext := Text.slice_append (front ++ Lexeme.takeGap l.rest) text
      (l.skipGap.rest.drop text.length)
    rw [List.append_assoc, Text.append_drop_of_prefix hprefix, ← hsource, List.length_append]
      at htext
    refine ⟨stop, hstop, .cons ?_ ?_ ?_ ?_ hne ?_ htiled⟩
    all_goals
      simp only [place, Location.between, Location.slice, hfront, hgap, hpast, hslice, htext]
    · omega
    · exact Lexeme.isGap_takeGap l.rest
    · exact Lexeme.isSpaced_iff l.rest
    · omega

end Lexer

/-- The tokens of a source tile it. -/
theorem Text.tiled_tokenize (source : Text) :
    ∃ stop, (Text.tokenize source).StopsAt source stop ∧
      Tiled source stop 0 (Text.tokenize source).tokens :=
  Lexer.tiled_tokens _ rfl (.start source)

end ScopedCss
