/-
How a floating-point number is written: its shortest digits, laid out positionally or with an
exponent.
-/
import ScopedCss.Decimal.Shortest
import ScopedCss.Text.Basic

namespace ScopedCss

/-- The decisions of a layout: numbers whose first digit has an exponent from `positionalFrom` up to
but not including `positionalTo` are written positionally, all others with an exponent of at least
`exponentWidth` digits. -/
structure Decimal.Layout where
  positionalFrom : Int
  positionalTo : Int
  exponentWidth : Nat

/-- A text filled up with zeros in front. -/
def Text.padZeros (width : Nat) (t : Text) : Text := List.replicate (width - t.length) '0' ++ t

/-- The digits of a positive decimal, without zeros at the end, and the exponent of the first. -/
def Decimal.scientific (d : Decimal) : Text × Int :=
  let digits := Nat.toDigits 10 d.digits
  ((digits.reverse.dropWhile (· = '0')).reverse, d.exponent + digits.length - 1)

namespace Decimal.Layout

/-- Digits whose first has the exponent `e`, positionally. -/
def positional (digits : Text) (e : Int) : Text :=
  if e < 0 then "0.".toList ++ List.replicate (e.natAbs - 1) '0' ++ digits
  else
    let whole := e.natAbs + 1
    if digits.length ≤ whole then
      digits ++ List.replicate (whole - digits.length) '0' ++ ".0".toList
    else digits.take whole ++ '.' :: digits.drop whole

/-- Digits whose first has the exponent `e`, with that exponent written out. -/
def exponential (l : Layout) (digits : Text) (e : Int) : Text :=
  let fraction := digits.drop 1
  digits.take 1 ++ (if fraction.isEmpty then [] else '.' :: fraction) ++
    'e' :: (if e < 0 then '-' else '+') :: Text.padZeros l.exponentWidth (Text.ofNat e.natAbs)

/-- A positive decimal in this layout. -/
def write (l : Layout) (d : Decimal) : Text :=
  let (digits, e) := d.scientific
  if l.positionalFrom ≤ e && e < l.positionalTo then positional digits e
  else l.exponential digits e

/-- A floating-point number in this layout. -/
def writeFloat (l : Layout) (x : Float) : Text :=
  let bits := x.toBits.toNat
  let fraction : Nat := bits % Binary.leastNormal
  let exponent : Nat := bits / Binary.leastNormal % 0x800
  let sign : Text := if bits / Binary.leastNormal / 0x800 = 0 then [] else ['-']
  if exponent = 0x7ff then
    if fraction = 0 then sign ++ "inf".toList else "nan".toList
  else if exponent = 0 && fraction = 0 then sign ++ "0.0".toList
  else
    let x : Binary :=
      if exponent = 0 then ⟨fraction, Binary.leastExponent⟩
      else ⟨Binary.leastNormal + fraction, Binary.leastExponent + (exponent : Int) - 1⟩
    sign ++ l.write x.shortest

end Decimal.Layout

end ScopedCss
