/-
Bits and the digits of base 32 that stand for them. There is a digit for every five bits and one for
those left over (`length_encodeBits`). The first `n` digits tell the first `5 * n` bits and nothing
else, wherever that cuts a byte (`take_encode_eq_iff`).
-/
import Mathlib.Algebra.Group.Nat.Defs
import Mathlib.Data.List.GetD
import ScopedCss.Digest.Base32

namespace ScopedCss.Base32

theorem valueOfBits_lt (bits : List Bool) : valueOfBits bits < 2 ^ bits.length := by
  have hfold : ∀ n, bits.foldl (fun n b => 2 * n + b.toNat) n < (n + 1) * 2 ^ bits.length := by
    induction bits with
    | nil => simp
    | cons b bits ih =>
      intro n
      refine Nat.lt_of_lt_of_le (ih _) ?_
      rw [List.length_cons, Nat.pow_succ', ← Nat.mul_assoc]
      refine Nat.mul_le_mul_right _ ?_
      have := b.toNat_le
      change 2 * n + b.toNat + 1 ≤ _
      omega
  simpa [valueOfBits] using hfold 0

theorem foldl_bits_inj {a b : List Bool} (hlength : a.length = b.length) {m n : Nat}
    (h : a.foldl (fun n b => 2 * n + b.toNat) m = b.foldl (fun n b => 2 * n + b.toNat) n) :
    m = n ∧ a = b := by
  induction a generalizing b m n with
  | nil =>
    obtain rfl := List.length_eq_zero_iff.1 hlength.symm
    exact ⟨h, rfl⟩
  | cons x a ih =>
    obtain ⟨y, b, rfl⟩ := List.exists_cons_of_length_eq_add_one hlength.symm
    obtain ⟨hmn, rfl⟩ := ih (Nat.succ.inj hlength) h
    -- the last bit is the parity of the number
    have hxy : m = n ∧ x = y := by
      cases x <;> cases y <;> simp at hmn ⊢ <;> omega
    exact ⟨hxy.1, by rw [hxy.2]⟩

/-- A number of known width has one spelling in bits. -/
theorem valueOfBits_inj {a b : List Bool} (hlength : a.length = b.length)
    (h : valueOfBits a = valueOfBits b) : a = b :=
  (foldl_bits_inj hlength h).2

theorem digit_range : ∀ n < 32,
    'a' ≤ digit n ∧ digit n ≤ 'z' ∨ '2' ≤ digit n ∧ digit n ≤ '7' := by
  decide

theorem digit_inj {m n : Nat} (hm : m < 32) (hn : n < 32) (h : digit m = digit n) : m = n := by
  have hplace : ∀ n < 32, "abcdefghijklmnopqrstuvwxyz234567".toList.idxOf (digit n) = n := by
    decide
  rw [← hplace m hm, h, hplace n hn]

/-- The bits that the first digit stands for, filled up with zeros. -/
def firstGroup (bits : List Bool) : List Bool :=
  bits.take 5 ++ List.replicate (5 - bits.length) false

theorem length_firstGroup (bits : List Bool) : (firstGroup bits).length = 5 := by
  simp only [firstGroup, List.length_append, List.length_take, List.length_replicate]
  omega

theorem valueOfBits_firstGroup_lt (bits : List Bool) : valueOfBits (firstGroup bits) < 32 := by
  have hlt := valueOfBits_lt (firstGroup bits)
  rwa [length_firstGroup] at hlt

theorem encodeBits_of_ne_nil {bits : List Bool} (h : bits ≠ []) :
    encodeBits bits = digit (valueOfBits (firstGroup bits)) :: encodeBits (bits.drop 5) := by
  rcases bits with _ | ⟨a, _ | ⟨b, _ | ⟨c, _ | ⟨d, _ | ⟨e, bits⟩⟩⟩⟩⟩
  · exact absurd rfl h
  · rfl
  · rfl
  · rfl
  · rfl
  · simp [encodeBits, firstGroup]

/-- Bits are taken off in groups of five until none is left. -/
theorem group_induction {P : List Bool → Prop} (nil : P [])
    (group : ∀ bits, bits ≠ [] → P (bits.drop 5) → P bits) (bits : List Bool) : P bits := by
  induction hn : bits.length using Nat.strongRecOn generalizing bits with
  | ind n ih =>
    by_cases hbits : bits = []
    · exact hbits ▸ nil
    · have hpos := List.length_pos_iff.2 hbits
      have hdrop := List.length_drop (i := 5) (l := bits)
      exact group bits hbits (ih _ (by omega) _ rfl)

theorem length_encodeBits (bits : List Bool) :
    (encodeBits bits).length = (bits.length + 4) / 5 := by
  induction bits using group_induction with
  | nil => rfl
  | group bits hbits ih =>
    have hpos := List.length_pos_iff.2 hbits
    rw [encodeBits_of_ne_nil hbits, List.length_cons, ih, List.length_drop]
    omega

theorem exists_digit_of_mem {bits : List Bool} {c : Char} (h : c ∈ encodeBits bits) :
    ∃ n < 32, c = digit n := by
  induction bits using group_induction with
  | nil => cases h
  | group bits hbits ih =>
    rw [encodeBits_of_ne_nil hbits, List.mem_cons] at h
    rcases h with rfl | h
    · exact ⟨_, valueOfBits_firstGroup_lt bits, rfl⟩
    · exact ih h

theorem firstGroup_eq_iff {a b : List Bool} (h : a.length = b.length) :
    digit (valueOfBits (firstGroup a)) = digit (valueOfBits (firstGroup b)) ↔
      a.take 5 = b.take 5 := by
  constructor
  · intro hdigit
    have hvalue := digit_inj (valueOfBits_firstGroup_lt a) (valueOfBits_firstGroup_lt b) hdigit
    have hgroup := valueOfBits_inj (by simp only [length_firstGroup]) hvalue
    rwa [firstGroup, firstGroup, h, List.append_left_inj] at hgroup
  · intro htake
    rw [firstGroup, firstGroup, h, htake]

/-- The first digits tell the bits that they stand for. The filling of the last group tells nothing,
as it is the same for bits of one length. -/
theorem take_encodeBits_eq_iff {a b : List Bool} (h : a.length = b.length) (n : Nat) :
    (encodeBits a).take n = (encodeBits b).take n ↔ a.take (5 * n) = b.take (5 * n) := by
  induction n generalizing a b with
  | zero => simp
  | succ n ih =>
    by_cases ha : a = []
    · subst ha
      obtain rfl := List.length_eq_zero_iff.1 h.symm
      exact iff_of_true rfl rfl
    · have hb : b ≠ [] := List.length_pos_iff.1 (h ▸ List.length_pos_iff.2 ha)
      have hdrop : (a.drop 5).length = (b.drop 5).length := by simp [h]
      have htake : (a.take 5).length = (b.take 5).length := by simp [h]
      rw [encodeBits_of_ne_nil ha, encodeBits_of_ne_nil hb, List.take_succ_cons,
        List.take_succ_cons, List.cons.injEq, firstGroup_eq_iff h, ih hdrop,
        Nat.mul_succ, Nat.add_comm, List.take_add, List.take_add]
      exact ⟨fun heq => by rw [heq.1, heq.2], fun heq => List.append_inj heq htake⟩

/-- The bit at `i` of a list of bytes, from the high bit of the first byte on. -/
def bitAt (bytes : List UInt8) (i : Nat) : Bool :=
  (bytes.getD (i / 8) 0).toNat.testBit (7 - i % 8)

theorem length_bitsOfBytes (bytes : List UInt8) :
    (bitsOfBytes bytes).length = 8 * bytes.length := by
  simp [bitsOfBytes, bitsOfByte, List.length_flatMap, List.map_const', Nat.mul_comm]

theorem getElem?_bitsOfBytes {bytes : List UInt8} {i : Nat} (h : i < 8 * bytes.length) :
    (bitsOfBytes bytes)[i]? = some (bitAt bytes i) := by
  induction bytes generalizing i with
  | nil => simp at h
  | cons b bytes ih =>
    have hbyte : (bitsOfByte b).length = 8 := by simp [bitsOfByte]
    change (bitsOfByte b ++ bitsOfBytes bytes)[i]? = _
    by_cases hi : i < 8
    · rw [List.getElem?_append_left (by omega)]
      simp [bitsOfByte, bitAt, hi, Nat.div_eq_of_lt hi, Nat.mod_eq_of_lt hi]
    · obtain ⟨j, rfl⟩ := Nat.exists_eq_add_of_le (Nat.not_lt.1 hi)
      rw [List.getElem?_append_right (by omega), hbyte, Nat.add_sub_cancel_left]
      rw [List.length_cons] at h
      rw [ih (by omega)]
      simp [bitAt, Nat.add_comm 8 j]

theorem take_bitsOfBytes_eq_iff {a b : List UInt8} (h : a.length = b.length) (n : Nat) :
    (bitsOfBytes a).take n = (bitsOfBytes b).take n ↔
      ∀ i < min n (8 * a.length), bitAt a i = bitAt b i := by
  constructor
  · intro htake i hi
    have hget := congrArg (·[i]?) htake
    simpa only [List.getElem?_take, show i < n by omega, if_true,
      getElem?_bitsOfBytes (show i < 8 * a.length by omega),
      getElem?_bitsOfBytes (show i < 8 * b.length by omega), Option.some.injEq] using hget
  · intro hbits
    refine List.ext_getElem? fun i => ?_
    rw [List.getElem?_take, List.getElem?_take]
    split
    · by_cases hi : i < 8 * a.length
      · rw [getElem?_bitsOfBytes hi, getElem?_bitsOfBytes (h ▸ hi), hbits i (by omega)]
      · rw [List.getElem?_eq_none, List.getElem?_eq_none]
        all_goals rw [length_bitsOfBytes]; omega
    · rfl

/-- The bits of bytes tell the bytes. -/
theorem eq_of_bitAt_eq {a b : List UInt8} (h : a.length = b.length)
    (hbits : ∀ i < 8 * a.length, bitAt a i = bitAt b i) : a = b := by
  refine List.ext_getElem h fun j hja hjb => UInt8.toNat_inj.1 (Nat.eq_of_testBit_eq fun k => ?_)
  by_cases hk : k < 8
  · have hbit := hbits (8 * j + (7 - k)) (by omega)
    have hdiv : (8 * j + (7 - k)) / 8 = j := by omega
    have hmod : 7 - (8 * j + (7 - k)) % 8 = k := by omega
    simpa only [bitAt, hdiv, hmod, List.getD_eq_getElem _ _ hja, List.getD_eq_getElem _ _ hjb]
      using hbit
  · have hhigh : ∀ x : UInt8, x.toNat.testBit k = false := fun x =>
      Nat.testBit_lt_two_pow
        (Nat.lt_of_lt_of_le x.toNat_lt (Nat.pow_le_pow_right (by decide) (Nat.not_lt.1 hk)))
    rw [hhigh, hhigh]

theorem length_encode (bytes : List UInt8) :
    (encode bytes).length = (8 * bytes.length + 4) / 5 := by
  rw [encode, length_encodeBits, length_bitsOfBytes]

theorem take_encode_eq_iff {a b : List UInt8} (h : a.length = b.length) (n : Nat) :
    (encode a).take n = (encode b).take n ↔
      ∀ i < min (5 * n) (8 * a.length), bitAt a i = bitAt b i := by
  have hbits : (bitsOfBytes a).length = (bitsOfBytes b).length := by
    rw [length_bitsOfBytes, length_bitsOfBytes, h]
  rw [encode, encode, take_encodeBits_eq_iff hbits, take_bitsOfBytes_eq_iff h]

end ScopedCss.Base32
