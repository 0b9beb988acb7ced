/-
What stands at the front of a text: the gap of white space and comments, and the lexeme after it.

Each `take` function gives the longest front part of its kind. A lexeme is never empty
(`text_ne_nil_of_read`), so reading lexemes one after the other comes to an end.
-/
import ScopedCss.Text.Blank
import ScopedCss.Error
import ScopedCss.Token.Basic

namespace ScopedCss.Lexeme

/-! ### Character classes -/

/-- The white space of a style source. -/
def isSpace (c : Char) : Bool :=
  c = ' ' || c = '\t' || c = '\n' || c = '\r' || c = '\x0c'

def isQuote (c : Char) : Bool := c = Text.quotationMark || c = Text.apostrophe

/-- Letters, all characters beyond ASCII and the underscore. -/
def isIdentStart (c : Char) : Bool := c.isAlpha || 0x80 ≤ c.toNat || c = '_'

def isIdentPart (c : Char) : Bool := isIdentStart c || c.isDigit || c = '-'

/-- What a backslash can escape outside strings. -/
def isEscapable (c : Char) : Bool := c != '\n' && c != '\r' && c != '\x0c'

def isNamePart (c : Char) : Bool := c.isAlphanum || c = '_'

/-- Whether an escape stands in front. -/
def startsEscape : Text → Bool
  | '\\' :: c :: _ => isEscapable c
  | _ => false

/-- Whether an identifier stands in front. -/
def startsIdent : Text → Bool
  | [] => false
  | c :: t =>
    if c = '-' then
      match t with
      | [] => false
      | d :: _ => isIdentStart d || d = '-' || startsEscape t
    else if c = '\\' then startsEscape (c :: t)
    else isIdentStart c

/-- Whether a digit stands in front. -/
def startsDigit : Text → Bool
  | [] => false
  | c :: _ => c.isDigit

/-- Whether a number without a sign stands in front. -/
def startsUnsigned : Text → Bool
  | '.' :: t => startsDigit t
  | t => startsDigit t

/-- Whether a number stands in front. -/
def startsNumber : Text → Bool
  | [] => false
  | c :: t => if c = '+' || c = '-' then startsUnsigned t else startsUnsigned (c :: t)

/-! ### Front parts -/

/-- What `f` takes, followed by what `g` takes of the remainder. -/
def andThen (f g : Text → Text) (t : Text) : Text := f t ++ g (t.drop (f t).length)

/-- The identifier in front; an escape is two characters of it. -/
def takeIdent : Text → Text
  | [] => []
  | [c] => if isIdentPart c then [c] else []
  | c :: d :: t =>
    if isIdentPart c then c :: takeIdent (d :: t)
    else if c = '\\' && isEscapable d then c :: d :: takeIdent t
    else []

def takeDigits (t : Text) : Text := t.takeWhile Char.isDigit

def takeSign : Text → Text
  | [] => []
  | c :: _ => if c = '+' || c = '-' then [c] else []

/-- A point with digits after it. -/
def takeFraction : Text → Text
  | [] => []
  | c :: t => if c = '.' && startsDigit t then c :: takeDigits t else []

/-- An exponent; without digits it is none. -/
def takeExponent : Text → Text
  | [] => []
  | c :: t =>
    if (c = 'e' || c = 'E') && startsDigit (t.drop (takeSign t).length) then
      c :: andThen takeSign takeDigits t
    else []

/-- The unit of a number: an identifier or a percent sign. -/
def takeUnit (t : Text) : Text :=
  if startsIdent t then takeIdent t
  else match t with
    | [] => []
    | c :: _ => if c = '%' then [c] else []

/-- A number with its unit. -/
def takeNumber : Text → Text :=
  andThen takeSign (andThen takeDigits (andThen takeFraction (andThen takeExponent takeUnit)))

/-- The content of a string up to its closing mark, a line feed or the end. A backslash takes the
next character with it, a line feed too. -/
def takeContent (mark : Char) : Text → Text
  | [] => []
  | [c] => if c = '\n' || c = mark then [] else [c]
  | c :: d :: t =>
    if c = '\n' then []
    else if c = '\\' then c :: d :: takeContent mark t
    else if c = mark then []
    else c :: takeContent mark (d :: t)

/-- The text before the first `*/`, or all of it. -/
def takeRemark : Text → Text
  | [] => []
  | '*' :: '/' :: _ => []
  | c :: t => c :: takeRemark t

/-- Whether a comment opens here. -/
def startsComment : Text → Bool
  | '/' :: '*' :: _ => true
  | _ => false

/-- The comment in front, if it is closed. -/
def takeComment (t : Text) : Text :=
  if startsComment t then
    let remark := takeRemark (t.drop 2)
    if (t.drop 2).drop remark.length = [] then []
    else '/' :: '*' :: remark ++ ['*', '/']
  else []

/-- The gap in front: white space and closed comments, as long as they go on. -/
def takeGap (t : Text) : Text :=
  match t with
  | [] => []
  | c :: r =>
    if isSpace c then c :: takeGap r
    else if h : takeComment (c :: r) = [] then []
    else
      have := List.length_pos_iff.mpr h
      takeComment (c :: r) ++ takeGap ((c :: r).drop (takeComment (c :: r)).length)
termination_by t.length

/-- Whether white space stands in the gap in front, comments aside. -/
def isSpaced (t : Text) : Bool :=
  match t with
  | [] => false
  | c :: r =>
    if isSpace c then true
    else if h : takeComment (c :: r) = [] then false
    else
      have := List.length_pos_iff.mpr h
      isSpaced ((c :: r).drop (takeComment (c :: r)).length)
termination_by t.length

end Lexeme

/-! ### Lexemes -/

/-- What a text begins with once its gap is gone. -/
inductive Lexeme where
  /-- A token of this kind, text and value. -/
  | token (kind : TokenKind) (text value : Text)
  /-- A unit that breaks off, with the part of it that was read. -/
  | broken (fault : LexicalFault) (text : Text)
deriving DecidableEq, Repr

namespace Lexeme

/-- The characters of a lexeme. -/
def text : Lexeme → Text
  | token _ text _ => text
  | broken _ text => text

/-- The string that opens with `mark` before `t`. -/
def readString (mark : Char) (t : Text) : Lexeme :=
  let content := takeContent mark t
  match t.drop content.length with
  | c :: _ =>
    if c = mark then token .string (mark :: content ++ [mark]) content
    else broken .unterminatedString (mark :: content)
  | [] => broken .unterminatedString (mark :: content)

/-- The placeholder whose name is in front of `t`. -/
def readPlaceholder (t : Text) : Lexeme :=
  let name := t.takeWhile isNamePart
  match name, t.drop name.length with
  | _ :: _, '\x7d' :: _ => token .placeholder ('$' :: '\x7b' :: name ++ ['\x7d']) name
  | _, _ => broken .malformedPlaceholder ('$' :: '\x7b' :: name)

/-- The identifier in front, or the url that it opens. A quoted url is a plain function call, so its
name is an identifier. -/
def readIdent (t : Text) : Lexeme :=
  let ident := takeIdent t
  match t.drop ident.length with
  | '(' :: r =>
    if Text.lower ident = "url".toList && !((r.dropWhile isSpace).head?.any isQuote) then
      let content := r.takeWhile (· ≠ ')')
      if r.drop content.length = [] then broken .unterminatedUrl (ident ++ '(' :: r)
      else token .url (ident ++ '(' :: content ++ [')']) (Text.strip content)
    else token .ident ident ident
  | _ => token .ident ident ident

/-- The lexeme in front of a text that has no gap in front. -/
def read : Text → Option Lexeme
  | [] => none
  | c :: t =>
    some <|
      if startsComment (c :: t) then broken .unterminatedComment (c :: t)
      else if isQuote c then readString c t
      else if c = '$' && t.head? = some '\x7b' then readPlaceholder (t.drop 1)
      else if startsNumber (c :: t) then
        token .number (takeNumber (c :: t)) (takeNumber (c :: t))
      else if startsIdent (c :: t) then readIdent (c :: t)
      else token .punct [c] [c]

theorem takeIdent_ne_nil {t : Text} (h : startsIdent t = true) : takeIdent t ≠ [] := by
  match t, h with
  | [c], h =>
    have hc : isIdentPart c = true := by
      by_cases hd : c = '-'
      · simp [startsIdent, hd] at h
      · by_cases hb : c = '\\'
        · simp [startsIdent, hb, startsEscape] at h
        · simp only [startsIdent, hd, hb, if_false] at h
          simp [isIdentPart, h]
    simp [takeIdent, hc]
  | c :: d :: t, h =>
    by_cases hd : c = '-'
    · simp [takeIdent, isIdentPart, hd]
    · by_cases hb : c = '\\'
      · subst hb
        have he : isEscapable d = true := by simpa [startsIdent, startsEscape] using h
        simp only [takeIdent, he]
        split <;> simp
      · simp only [startsIdent, hd, hb, if_false] at h
        simp [takeIdent, isIdentPart, h]

theorem takeDigits_ne_nil {t : Text} (h : startsDigit t = true) : takeDigits t ≠ [] := by
  cases t with
  | nil => simp [startsDigit] at h
  | cons c t => simp only [startsDigit] at h; simp [takeDigits, h]

theorem takeNumber_ne_nil {t : Text} (h : startsNumber t = true) : takeNumber t ≠ [] := by
  cases t with
  | nil => simp [startsNumber] at h
  | cons c t =>
    by_cases hs : c = '+' ∨ c = '-'
    · have : takeSign (c :: t) = [c] := by simp [takeSign, hs]
      simp [takeNumber, andThen, this]
    · have hsign : takeSign (c :: t) = [] := by simp [takeSign, hs]
      have hu : startsUnsigned (c :: t) = true := by simpa [startsNumber, hs] using h
      by_cases hp : c = '.'
      · subst hp
        have hd : startsDigit t = true := by simpa [startsUnsigned] using hu
        simp [takeNumber, andThen, hsign, takeDigits, takeFraction, hd]
      · have hd : startsDigit (c :: t) = true := by
          unfold startsUnsigned at hu
          split at hu
          · simp_all
          · exact hu
        have := takeDigits_ne_nil hd
        simp [takeNumber, andThen, hsign, this]

/-- A lexeme has at least one character. -/
theorem text_ne_nil_of_read {t : Text} {x : Lexeme} (h : read t = some x) : x.text ≠ [] := by
  cases t with
  | nil => simp [read] at h
  | cons c t =>
    simp only [read, Option.some.injEq] at h
    subst h
    split
    · simp [text]
    split
    · simp only [readString]
      split
      · split <;> simp [text]
      · simp [text]
    split
    · simp only [readPlaceholder]
      split <;> simp [text]
    split
    · rename_i hn
      exact takeNumber_ne_nil hn
    split
    · rename_i hi
      have hne := takeIdent_ne_nil hi
      simp only [readIdent]
      split
      · split
        · split <;> simp [text, hne]
        · simpa [text] using hne
      · simpa [text] using hne
    · simp [text]

end ScopedCss.Lexeme
