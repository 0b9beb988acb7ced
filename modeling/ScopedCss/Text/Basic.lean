/-
Texts are lists of code points, so an offset, a column or a length counts code points and a cut of
a text is a cut of a list.
-/
namespace ScopedCss

/-- A text, code point by code point. -/
abbrev Text := List Char

namespace Text

/-- The offset that `i` names in a text of `n` code points: below zero it counts from the end, and
it never leaves the text. -/
def offset (n : Nat) (i : Int) : Nat :=
  if i < 0 then (n + i).toNat else min i.toNat n

/-- The part of `t` between two offsets; empty if they cross. -/
def slice (t : Text) (start stop : Int) : Text :=
  (t.drop (offset t.length start)).take (offset t.length stop - offset t.length start)

/-- Texts joined with `sep` between neighbours. -/
def join (sep : Text) (ts : List Text) : Text := List.intercalate sep ts

/-- A natural number in decimal. -/
def ofNat (n : Nat) : Text := Nat.toDigits 10 n

/-- An integer in decimal, with a minus sign below zero. -/
def ofInt (i : Int) : Text := if i < 0 then '-' :: ofNat i.natAbs else ofNat i.natAbs

/-- The lowercase ASCII letter that `c` lowers to, else `c`. Besides A to Z only the Kelvin sign
lowers to an ASCII letter alone, so this decides equality with every ASCII word. -/
def lowerChar (c : Char) : Char := if c = '\u212a' then 'k' else c.toLower

/-- `t` in lowercase, as far as a comparison with an ASCII word can tell. -/
def lower (t : Text) : Text := t.map lowerChar

/-- Whether `s` comes before `t`, or is `t`, in the order of code points. -/
def precedes : Text → Text → Bool
  | [], _ => true
  | _ :: _, [] => false
  | a :: s, b :: t => if a = b then precedes s t else a.toNat < b.toNat

end Text

end ScopedCss
