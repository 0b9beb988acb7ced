/-
Names. A text of letters, digits and hyphens that begins with a letter is an identifier wherever
something apart follows it (`Text.IsName.read`), and a simple selector behind a point or a colon
(`Text.IsName.isStretch`). The class names made from digests are such texts
(`Fingerprint.isName_className`).
-/
import ScopedCss.Fingerprint.ClassName
import ScopedCss.Proofs.Digest.Base32
import ScopedCss.Proofs.Selector.Stretch

namespace ScopedCss

open Lexeme (isSpace isIdentStart isIdentPart)

/-- A text that is an identifier all through, without escapes. -/
structure Text.IsName (x : Text) : Prop where
  starts : x.head?.any isIdentStart = true
  parts : ∀ c ∈ x, isIdentPart c = true

namespace Lexeme

theorem takeIdent_of_parts {x : Text} (h : ∀ c ∈ x, isIdentPart c = true) : takeIdent x = x := by
  induction x with
  | nil => rfl
  | cons c x ih =>
    obtain ⟨hc, hx⟩ := List.forall_mem_cons.1 h
    rw [takeIdent_cons hc, ih hx]

theorem isIdentStart_ne {c d : Char} (hc : isIdentStart c = true) (hd : isIdentStart d = false) :
    c ≠ d := by
  rintro rfl
  rw [hc] at hd
  cases hd

/-- The letters of ASCII, by number. -/
theorem range_of_isAlpha {c : Char} (h : c.isAlpha = true) :
    65 ≤ c.toNat ∧ c.toNat ≤ 90 ∨ 97 ≤ c.toNat ∧ c.toNat ≤ 122 := by
  rcases Bool.or_eq_true_iff.1 h with hupper | hlower
  · have hvals : c.val ≥ 'A'.val ∧ c.val ≤ 'Z'.val := of_decide_eq_true hupper
    exact .inl ⟨UInt32.le_iff_toNat_le.1 hvals.1, UInt32.le_iff_toNat_le.1 hvals.2⟩
  · obtain ⟨hlow, hhigh⟩ := Bool.and_eq_true_iff.1 hlower
    exact .inr ⟨UInt32.le_iff_toNat_le.1 (of_decide_eq_true hlow),
      UInt32.le_iff_toNat_le.1 (of_decide_eq_true hhigh)⟩

theorem range_of_isDigit {c : Char} (h : c.isDigit = true) : 48 ≤ c.toNat ∧ c.toNat ≤ 57 := by
  simpa [Char.isDigit, UInt32.le_iff_toNat_le] using h

theorem isDigit_of_isIdentStart {c : Char} (hc : isIdentStart c = true) : c.isDigit = false := by
  refine Bool.eq_false_iff.2 fun hd => ?_
  have hd := range_of_isDigit hd
  simp only [isIdentStart, Bool.or_eq_true, decide_eq_true_eq] at hc
  rcases hc with (hc | hc) | rfl
  · have hrange := range_of_isAlpha hc
    omega
  · omega
  · exact absurd hd (by decide)

theorem read_point {t : Text} (h : startsDigit t = false) :
    read ('.' :: t) = some (.token .punct ['.'] ['.']) := by
  have hcomment : startsComment ('.' :: t) = false := by simp [startsComment_cons]
  have hnumber : startsNumber ('.' :: t) = false := by simp [startsNumber, startsUnsigned, h]
  have hident : startsIdent ('.' :: t) = false := by simp [startsIdent_cons, isIdentStart]
  simp [read, hcomment, hnumber, hident, isQuote, Text.quotationMark, Text.apostrophe]

end Lexeme

namespace Text.IsName

variable {x : Text}

theorem isSpace_head (h : x.IsName) : ∀ c ∈ x.head?, isSpace c = false := by
  intro c hc
  have hstart : isIdentStart c = true := by simpa [Option.mem_def.1 hc] using h.starts
  have hne := fun d => Lexeme.isIdentStart_ne (d := d) hstart
  simp [isSpace, hne ' ' (by decide), hne '\t' (by decide), hne '\n' (by decide),
    hne '\r' (by decide), hne '\x0c' (by decide)]

theorem startsDigit_append (h : x.IsName) (z : Text) : Lexeme.startsDigit (x ++ z) = false := by
  cases x with
  | nil => cases h.starts
  | cons c x => exact Lexeme.isDigit_of_isIdentStart h.starts

theorem read_self (h : x.IsName) : Lexeme.read x = some (.token .ident x x) := by
  cases x with
  | nil => cases h.starts
  | cons c x =>
    have hc : isIdentStart c = true := h.starts
    have hne := fun d => Lexeme.isIdentStart_ne (d := d) hc
    have hcomment : Lexeme.startsComment (c :: x) = false := by
      simp [Lexeme.startsComment_cons, hne '/' (by decide)]
    have hquote : Lexeme.isQuote c = false := by
      simp [Lexeme.isQuote, hne Text.quotationMark (by decide), hne Text.apostrophe (by decide)]
    have hnumber : Lexeme.startsNumber (c :: x) = false := by
      simp [Lexeme.startsNumber, Lexeme.startsUnsigned_cons, hne '+' (by decide),
        hne '-' (by decide), hne '.' (by decide), Lexeme.isDigit_of_isIdentStart hc]
    have hident : Lexeme.startsIdent (c :: x) = true := by
      simp [Lexeme.startsIdent_cons, hne '-' (by decide), hne '\\' (by decide), hc]
    have htake := Lexeme.takeIdent_of_parts h.parts
    simp [Lexeme.read, hcomment, hquote, hne '$' (by decide), hnumber, hident, Lexeme.readIdent, htake]

theorem read (h : x.IsName) {z : Text} (hz : z.Apart) :
    Lexeme.read (x ++ z) = some (.token .ident x x) := by
  have hwhole : x.Whole := .of_forall fun c hc => Lexeme.ne_of_isIdentPart (h.parts c hc)
  have hcut : Text.Cut (Lexeme.escapesAfter false x) [] z := by
    rw [hwhole]
    exact .stop hz
  refine Lexeme.alike_cut.read hcut nofun ?_
  rw [List.append_nil, h.read_self]

/-- A mark and a name are a simple selector. -/
theorem isStretch (h : x.IsName) (place : Location) {c : Char} (hc : c = '.' ∨ c = ':') :
    Token.IsStretch place [⟨.punct, [c], [c], place, false⟩, ⟨.ident, x, x, place, false⟩]
      [c :: x] where
  stand w z hw hz := by
    have hname : Yields place (x ++ z) [⟨.ident, x, x, place, false⟩] z :=
      .lexeme (h.read hz) h.isSpace_head (w := []) (List.forall_mem_nil _) .nil
    have hmark : Lexeme.read ([c] ++ (x ++ z)) = some (.token .punct [c] [c]) := by
      rcases hc with rfl | rfl
      · exact Lexeme.read_point (h.startsDigit_append z)
      · exact Lexeme.read_punct (by decide) _
    have hspace : ∀ d ∈ [c].head?, isSpace d = false := by
      rcases hc with rfl | rfl <;> simp [isSpace]
    simpa [Token.join, Token.trailing, Token.led] using Yields.lexeme hmark hspace hw hname
  closed := by
    rcases hc with rfl | rfl <;> rfl
  text := by simp [Token.join, Token.trailing]
  reads b previous more hmore := by
    have hstarts : Selector.startsSimple ⟨.punct, [c], [c], place, b⟩ := by
      rcases hc with rfl | rfl <;> exact ⟨rfl, rfl, by rintro ⟨⟩⟩
    have hlength : Selector.simpleLength ⟨.punct, [c], [c], place, b⟩
        ([⟨.ident, x, x, place, false⟩] ++ more) = .ok 1 := by
      rcases hc with rfl | rfl
      · rfl
      · change (· + 1) <$> Selector.argumentLength more = .ok 1
        rw [Selector.argumentLength_of_detached hmore]
        rfl
    simpa [Token.led, Token.join, Token.trailing] using
      Selector.fragmentsAfter_simple hstarts hlength previous

end Text.IsName

namespace Base32

theorem isIdentPart_digit : ∀ n < 32, isIdentPart (digit n) = true := by decide

theorem isIdentPart_encodeBits (bits : List Bool) :
    ∀ c ∈ encodeBits bits, isIdentPart c = true := by
  intro c hc
  obtain ⟨n, hn, rfl⟩ := exists_digit_of_mem hc
  exact isIdentPart_digit n hn

end Base32

theorem Fingerprint.isName_className (digest : List UInt8) (length : Int) :
    (className digest defaultStem length).IsName := by
  have hdigits : ∀ c ∈ Text.slice (Base32.encode digest) 0 length, isIdentPart c = true :=
    fun c hc => Base32.isIdentPart_encodeBits _ c
      (List.mem_of_mem_drop (List.mem_of_mem_take hc))
  have hstem : ∀ c ∈ defaultStem, isIdentPart c = true := List.all_eq_true.1 (by decide)
  exact ⟨by rfl, List.forall_mem_append.2 ⟨hstem, List.forall_mem_cons.2 ⟨rfl, hdigits⟩⟩⟩

end ScopedCss
