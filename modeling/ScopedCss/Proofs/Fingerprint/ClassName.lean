/-
Class names keep the leading bits of the digest. A fingerprint is read as the bytes that it writes,
in either case (`Hex.exists_bytes`), and a class name of `n` digits tells the first `5 * n` bits of
those bytes and nothing more (`className?_eq_iff_bits`).
-/
import ScopedCss.Proofs.Digest.Base32
import ScopedCss.Proofs.Fingerprint.Payload

namespace ScopedCss

theorem Text.slice_zero (t : Text) (n : Nat) : slice t 0 n = t.take n := by
  have hzero : offset t.length 0 = 0 := by simp [offset]
  have hstop : offset t.length n = min n t.length := by
    simp [offset, Int.not_lt.2 (Int.natCast_nonneg n)]
  rw [slice, hzero, hstop, List.drop_zero, Nat.sub_zero]
  exact List.take_eq_take_min.symm

namespace Hex

/-- A hexadecimal digit of either case. -/
def IsDigit (c : Char) : Prop := c ∈ "0123456789abcdefABCDEF".toList

instance (c : Char) : Decidable (IsDigit c) := inferInstanceAs (Decidable (c ∈ _))

theorem digitValue?_of_isDigit {c : Char} (h : IsDigit c) :
    isSpace c = false ∧ ∃ v < 16, digitValue? c = some v ∧ Text.hexDigit v = c.toLower := by
  have hall : ∀ c ∈ "0123456789abcdefABCDEF".toList, (!isSpace c &&
      (digitValue? c).any fun v => v < 16 && Text.hexDigit v = c.toLower) = true :=
    List.all_eq_true.1 (by decide)
  obtain ⟨hspace, hvalue⟩ := Bool.and_eq_true_iff.1 (hall c h)
  obtain ⟨v, hv, hwrites⟩ := (Option.any_eq_true ..).1 hvalue
  obtain ⟨hlt, hdigit⟩ := Bool.and_eq_true_iff.1 hwrites
  exact ⟨by simpa using hspace, v, of_decide_eq_true hlt, hv, of_decide_eq_true hdigit⟩

theorem encode_cons {high low : Nat} (hhigh : high < 16) (hlow : low < 16) (bytes : List UInt8) :
    encode ((16 * high + low).toUInt8 :: bytes) =
      Text.hexDigit high :: Text.hexDigit low :: encode bytes := by
  have hvalue : (16 * high + low).toUInt8.toNat = 16 * high + low :=
    UInt8.toNat_ofNat_of_lt (show _ < 256 by omega)
  have hdiv : (16 * high + low) / 16 = high := by omega
  have hmod : (16 * high + low) % 16 = low % 16 := by omega
  simp only [encode, List.flatMap_cons, hvalue, hdiv, Text.hexDigit, hmod, List.cons_append,
    List.nil_append]

/-- Two digits a byte, in either case, are read as the bytes that they write. -/
theorem exists_bytes {n : Nat} {t : Text} (hlength : t.length = 2 * n)
    (hdigits : ∀ c ∈ t, IsDigit c) :
    ∃ bytes, decode? t = some bytes ∧ bytes.length = n ∧ encode bytes = t.map Char.toLower := by
  induction n generalizing t with
  | zero =>
    obtain rfl := List.length_eq_zero_iff.1 hlength
    exact ⟨[], rfl, rfl, rfl⟩
  | succ n ih =>
    obtain ⟨c, t, rfl⟩ := List.exists_cons_of_length_eq_add_one hlength
    obtain ⟨d, t, rfl⟩ := List.exists_cons_of_length_eq_add_one (Nat.succ.inj hlength)
    obtain ⟨hc, hrest⟩ := List.forall_mem_cons.1 hdigits
    obtain ⟨hd, ht⟩ := List.forall_mem_cons.1 hrest
    obtain ⟨hspace, high, hhigh, hcread, hcwrite⟩ := digitValue?_of_isDigit hc
    obtain ⟨-, low, hlow, hdread, hdwrite⟩ := digitValue?_of_isDigit hd
    obtain ⟨bytes, hread, hcount, hwrite⟩ := ih (Nat.succ.inj (Nat.succ.inj hlength)) ht
    refine ⟨(16 * high + low).toUInt8 :: bytes, ?_, congrArg Nat.succ hcount, ?_⟩
    · simp [decode?, hspace, hcread, hdread, hread]
    · rw [encode_cons hhigh hlow, hwrite, hcwrite, hdwrite, List.map_cons, List.map_cons]

end Hex

namespace Fingerprint

/-- A fingerprint as it is written: sixty-four hexadecimal digits. -/
structure IsWritten (fingerprint : Text) : Prop where
  length : fingerprint.length = 64
  digits : ∀ c ∈ fingerprint, Hex.IsDigit c

/-- The thirty-two bytes that a fingerprint writes and is read as. -/
structure Denotes (fingerprint : Text) (bytes : List UInt8) : Prop where
  read : Hex.decode? fingerprint = some bytes
  written : Hex.encode bytes = fingerprint.map Char.toLower
  length : bytes.length = 32

theorem IsWritten.denotes {fingerprint : Text} (h : IsWritten fingerprint) :
    ∃ bytes, Denotes fingerprint bytes := by
  obtain ⟨bytes, hread, hlength, hwritten⟩ := Hex.exists_bytes (n := 32) h.length h.digits
  exact ⟨bytes, hread, hwritten, hlength⟩

theorem Denotes.className? {fingerprint : Text} {bytes : List UInt8}
    (h : Denotes fingerprint bytes) (stem : Text) (n : Nat) :
    className? fingerprint stem n = some (stem ++ '-' :: (Base32.encode bytes).take n) := by
  rw [Fingerprint.className?, h.read, Option.map_some, className, Text.slice_zero]

theorem Denotes.length_digits {fingerprint : Text} {bytes : List UInt8}
    (h : Denotes fingerprint bytes) : (Base32.encode bytes).length = 52 := by
  rw [Base32.length_encode, h.length]

/-- Class names agree exactly if the digits of both do, and so the bits that these stand for. -/
theorem Denotes.className?_eq_iff {f g : Text} {a b : List UInt8} (hf : Denotes f a)
    (hg : Denotes g b) (stem : Text) (n : Nat) :
    Fingerprint.className? f stem n = Fingerprint.className? g stem n ↔
      ∀ i < min (5 * n) 256, Base32.bitAt a i = Base32.bitAt b i := by
  have hbits := Base32.take_encode_eq_iff (hf.length.trans hg.length.symm) n
  rw [hf.length] at hbits
  rw [hf.className?, hg.className?, Option.some.injEq, List.append_right_inj, List.cons.injEq,
    eq_self, true_and, hbits]

theorem Denotes.bits_eq_iff {f g : Text} {a b : List UInt8} (hf : Denotes f a)
    (hg : Denotes g b) :
    (∀ i < 256, Base32.bitAt a i = Base32.bitAt b i) ↔
      f.map Char.toLower = g.map Char.toLower := by
  rw [← hf.written, ← hg.written]
  constructor
  · intro hbits
    refine congrArg Hex.encode (Base32.eq_of_bitAt_eq (hf.length.trans hg.length.symm) ?_)
    rwa [hf.length]
  · intro htext i _
    rw [Hex.encode_inj htext]

/-- A class name of `n` digits is the same for two fingerprints exactly if their first `5 * n` bits
are; one of fifty-two digits tells the whole fingerprint, up to case. -/
theorem className?_eq_iff_bits {f g : Text} (hf : IsWritten f) (hg : IsWritten g) (stem : Text)
    {n : Nat} (hn : n ≤ 52) :
    (∃ digits, className? f stem n = some (stem ++ '-' :: digits) ∧ digits.length = n ∧
      ∀ c ∈ digits, 'a' ≤ c ∧ c ≤ 'z' ∨ '2' ≤ c ∧ c ≤ '7') ∧
    (∃ a b, Denotes f a ∧ Denotes g b ∧
      (className? f stem n = className? g stem n ↔
        ∀ i < min (5 * n) 256, Base32.bitAt a i = Base32.bitAt b i)) ∧
    (className? f stem 52 = className? g stem 52 ↔ f.map Char.toLower = g.map Char.toLower) := by
  obtain ⟨a, ha⟩ := hf.denotes
  obtain ⟨b, hb⟩ := hg.denotes
  refine ⟨⟨_, ha.className? stem n, ?_, fun c hc => ?_⟩,
    ⟨a, b, ha, hb, ha.className?_eq_iff hb stem n⟩, ?_⟩
  · rw [List.length_take, ha.length_digits, Nat.min_eq_left hn]
  · obtain ⟨v, hv, rfl⟩ := Base32.exists_digit_of_mem (List.mem_of_mem_take hc)
    exact Base32.digit_range v hv
  · exact (ha.className?_eq_iff hb stem 52).trans (ha.bits_eq_iff hb)

/-- All bits are ones. -/
def allOnes : Text := List.replicate 64 'F'

/-- All bits but the last are ones. -/
def lastZero : Text := List.replicate 63 'f' ++ ['e']

theorem className?_eq_until_last_bit :
    className? allOnes defaultStem 51 = className? lastZero defaultStem 51 ∧
    className? allOnes defaultStem 52 ≠ className? lastZero defaultStem 52 := by
  have hones : IsWritten allOnes := ⟨rfl, fun c hc => List.eq_of_mem_replicate hc ▸ by decide⟩
  have hzero : IsWritten lastZero := by
    refine ⟨rfl, List.forall_mem_append.2 ⟨fun c hc => ?_, ?_⟩⟩
    · exact List.eq_of_mem_replicate hc ▸ by decide
    · exact List.forall_mem_singleton.2 (by decide)
  constructor
  · obtain ⟨-, ⟨a, b, ha, hb, hiff⟩, -⟩ :=
      className?_eq_iff_bits hones hzero defaultStem (n := 51) (by decide)
    have hreadOnes : Hex.decode? allOnes = some (List.replicate 32 0xff) := by decide +kernel
    have hreadZero : Hex.decode? lastZero = some (List.replicate 31 0xff ++ [0xfe]) := by
      decide +kernel
    obtain rfl := Option.some.inj (hreadOnes.symm.trans ha.read)
    obtain rfl := Option.some.inj (hreadZero.symm.trans hb.read)
    exact hiff.2 (by decide +kernel)
  · obtain ⟨-, -, hiff⟩ := className?_eq_iff_bits hones hzero defaultStem (Nat.le_refl 52)
    exact fun h => absurd (hiff.1 h) (by decide +kernel)

end Fingerprint

end ScopedCss
