/-
Bytes in base 32, in lowercase and without padding: the bits of the bytes, high bit first, are
regrouped by five, and the last group is filled up with zeros.
-/
import ScopedCss.Text.Basic

namespace ScopedCss.Base32

/-- The bits of a byte, high bit first. -/
def bitsOfByte (b : UInt8) : List Bool := (List.range 8).map fun i => b.toNat.testBit (7 - i)

def bitsOfBytes (bytes : List UInt8) : List Bool := bytes.flatMap bitsOfByte

/-- The number that bits write, high bit first. -/
def valueOfBits (bits : List Bool) : Nat := bits.foldl (fun n b => 2 * n + b.toNat) 0

/-- The letters and then the digits from two on. -/
def digit (n : Nat) : Char := if n < 26 then Char.ofNat (0x61 + n) else Char.ofNat (0x32 + n - 26)

/-- One digit for five bits. -/
def encodeBits : List Bool → Text
  | a :: b :: c :: d :: e :: bits => digit (valueOfBits [a, b, c, d, e]) :: encodeBits bits
  | [] => []
  | bits => [digit (valueOfBits (bits ++ List.replicate (5 - bits.length) false))]

def encode (bytes : List UInt8) : Text := encodeBits (bitsOfBytes bytes)

end ScopedCss.Base32
