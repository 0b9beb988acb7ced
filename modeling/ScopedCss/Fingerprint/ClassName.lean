/-
Fingerprints of styles and the class names made from them.
-/
import ScopedCss.Digest.Base32
import ScopedCss.Digest.Hex
import ScopedCss.Digest.Sha256
import ScopedCss.Fingerprint.Payload

namespace ScopedCss.Fingerprint

/-- The UTF-8 bytes of a text. -/
def utf8 (t : Text) : List UInt8 := (String.ofList t).toByteArray.data.toList

/-- The digest that identifies a style. -/
def digest (source : Text) (values : Values) (isGlobal : Bool) : List UInt8 :=
  Sha256.digest (utf8 (payload source values isGlobal))

/-- The fingerprint of a style: its digest in hexadecimal. -/
def ofStyle (source : Text) (values : Values) (isGlobal : Bool) : Text :=
  Hex.encode (digest source values isGlobal)

/-- A short class name for a digest: `stem` and the first digits of the digest in base 32. A length
below zero counts digits dropped from the end. -/
def className (digest : List UInt8) (stem : Text) (length : Int) : Text :=
  stem ++ '-' :: Text.slice (Base32.encode digest) 0 length

/-- The class name for a fingerprint, unless that is malformed. -/
def className? (fingerprint stem : Text) (length : Int) : Option Text :=
  (Hex.decode? fingerprint).map (className · stem length)

/-- The stem of class names unless another is asked for. -/
def defaultStem : Text := "stylescope".toList

/-- The number of digits in class names unless another is asked for. -/
def defaultLength : Int := 8

end ScopedCss.Fingerprint
