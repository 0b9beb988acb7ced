/-
Blank characters and stripping. The class is Unicode white space together with the four separators
U+001C to U+001F.
-/
import ScopedCss.Text.Basic

namespace ScopedCss.Text

/-- The first and last code point of each run of blanks. -/
def blankRanges : List (Nat × Nat) :=
  [(0x09, 0x0d), (0x1c, 0x20), (0x85, 0x85), (0xa0, 0xa0), (0x1680, 0x1680), (0x2000, 0x200a),
    (0x2028, 0x2029), (0x202f, 0x202f), (0x205f, 0x205f), (0x3000, 0x3000)]

def isBlank (c : Char) : Bool :=
  blankRanges.any fun r => r.1 ≤ c.toNat && c.toNat ≤ r.2

/-- `t` without the blanks it starts with. -/
def stripLeft (t : Text) : Text := t.dropWhile isBlank

/-- `t` without the blanks it ends with. -/
def stripRight (t : Text) : Text := (t.reverse.dropWhile isBlank).reverse

/-- `t` without the blanks at either end. -/
def strip (t : Text) : Text := stripRight (stripLeft t)

end ScopedCss.Text
