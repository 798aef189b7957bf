import Kkdb.Error
import Mathlib.Data.Nat.Bitwise

namespace Kkdb.Varint

-- The loop of `write_varint_u64`. A u64 has at most ten groups of seven bits.
def writeGroups : Nat → Nat → List UInt8
  | 0, _ => []
  | fuel + 1, val =>
      if val / 128 = 0 then [UInt8.ofNat (val % 128)]
      else UInt8.ofNat (val % 128 + 128) :: writeGroups fuel (val / 128)

def writeVarintU64 (val : UInt64) : List UInt8 := writeGroups 10 val.toNat

-- The loop of `read_varint_u64`, with its three local variables.
def readGroups (val shift consumed : Nat) : List UInt8 → Res (Nat × Nat)
  | [] => .error (corrupt "truncated varint")
  | byte :: rest =>
      if 63 ≤ shift then
        if 1 < byte.toNat then .error (corrupt "varint overflowed 64 bits")
        else .ok (val ||| byte.toNat <<< shift, consumed + 1)
      else if byte.toNat / 128 = 0 then
        .ok (val ||| (byte.toNat % 128) <<< shift, consumed + 1)
      else readGroups (val ||| (byte.toNat % 128) <<< shift) (shift + 7) (consumed + 1) rest

def readVarintU64 (data : List UInt8) : Res (Nat × Nat) := readGroups 0 0 0 data

def zigzagEncode (val : Int64) : UInt64 := ((val <<< 1) ^^^ (val >>> 63)).toUInt64

def zigzagDecode (val : UInt64) : Int64 := (val >>> 1).toInt64 ^^^ -((val &&& 1).toInt64)

theorem or_shift (val group shift : Nat) (h : val < 2 ^ shift) :
    val ||| group <<< shift = val + group * 2 ^ shift := by
  rw [Nat.lor_comm, ← Nat.shiftLeft_add_eq_or_of_lt h, Nat.shiftLeft_eq, Nat.add_comm]

-- Reading back what the writer produced, from any position inside the varint.
-- The accumulated low part stays below `2 ^ shift`, so its bits and the next
-- group's do not overlap and the bitwise or is a sum.
theorem readGroups_writeGroups (fuel val acc shift consumed : Nat) (tail : List UInt8)
    (hshift : shift + 7 * fuel = 70) (hfuel : 0 < fuel) (hval : val * 2 ^ shift < 2 ^ 64)
    (hacc : acc < 2 ^ shift) :
    readGroups acc shift consumed (writeGroups fuel val ++ tail) =
      .ok (acc + val * 2 ^ shift, consumed + (writeGroups fuel val).length) := by
  induction fuel generalizing val acc shift consumed with
  | zero => omega
  | succ fuel ih =>
      have hlow : (UInt8.ofNat (val % 128)).toNat = val % 128 := by
        rw [UInt8.toNat_ofNat']; omega
      have hhigh : (UInt8.ofNat (val % 128 + 128)).toNat = val % 128 + 128 := by
        rw [UInt8.toNat_ofNat']; omega
      by_cases hlast : 63 ≤ shift
      · -- the tenth byte holds the top bit only
        obtain rfl : fuel = 0 := by omega
        obtain rfl : shift = 63 := by omega
        have hv : val < 2 := by omega
        have hz : val / 128 = 0 := by omega
        have hm : val % 128 = val := by omega
        rw [hm] at hlow
        simp only [writeGroups, hz, if_true, List.singleton_append, readGroups, hlow, hm,
          Nat.le_refl, show ¬1 < val by omega, if_false, or_shift acc val 63 hacc,
          List.length_singleton]
      · by_cases hz : val / 128 = 0
        · have hm : val % 128 = val := by omega
          rw [hm] at hlow
          simp only [writeGroups, hz, if_true, List.singleton_append, readGroups, hlow, hm,
            hlast, if_false, or_shift acc val shift hacc, List.length_singleton]
        · have hm : (val % 128 + 128) % 128 = val % 128 := by omega
          have hc : ¬(val % 128 + 128) / 128 = 0 := by omega
          have hpow : 2 ^ (shift + 7) = 128 * 2 ^ shift := by rw [pow_add]; omega
          have hfuel' : 0 < fuel := by
            by_contra h0
            have : shift = 63 := by omega
            omega
          have hsplit : val * 2 ^ shift = val % 128 * 2 ^ shift + val / 128 * 2 ^ (shift + 7) := by
            rw [hpow, ← Nat.mul_assoc, ← Nat.add_mul]
            congr 1
            omega
          have hacc' : acc + val % 128 * 2 ^ shift < 2 ^ (shift + 7) := by
            have hg : val % 128 * 2 ^ shift ≤ 127 * 2 ^ shift :=
              Nat.mul_le_mul_right _ (by omega)
            rw [hpow]
            omega
          have hrest := ih (val / 128) (acc + val % 128 * 2 ^ shift) (shift + 7) (consumed + 1)
            (by omega) hfuel' (by omega) hacc'
          simp only [writeGroups, hz, if_false, List.cons_append, readGroups, hhigh, hlast, hc, hm,
            or_shift acc (val % 128) shift hacc, hrest, List.length_cons]
          rw [hsplit]
          congr 2
          · omega
          · omega

theorem readVarintU64_write (val : UInt64) (tail : List UInt8) :
    readVarintU64 (writeVarintU64 val ++ tail) =
      .ok (val.toNat, (writeVarintU64 val).length) := by
  have hv := val.toNat_lt
  have h := readGroups_writeGroups 10 val.toNat 0 0 0 tail (by omega) (by omega)
    (by simpa using hv) (by simp)
  simpa [readVarintU64, writeVarintU64] using h

theorem writeVarintU64_length_pos (val : UInt64) : 0 < (writeVarintU64 val).length := by
  simp only [writeVarintU64, writeGroups]
  split_ifs <;> simp

theorem writeGroups_length_le (fuel val : Nat) : (writeGroups fuel val).length ≤ fuel := by
  induction fuel generalizing val with
  | zero => simp [writeGroups]
  | succ fuel ih =>
      simp only [writeGroups]
      split_ifs
      · simp
      · simpa using ih (val / 128)

theorem sshiftRight_63 (x : BitVec 64) :
    x.sshiftRight 63 = if x.msb then BitVec.allOnes 64 else 0#64 := by
  apply BitVec.eq_of_getLsbD_eq
  intro i hi
  rw [BitVec.getLsbD_sshiftRight]
  have h64 : ¬64 ≤ i := by omega
  by_cases h0 : i = 0
  · subst h0
    cases hm : x.msb <;> simp [BitVec.msb_eq_getLsbD_last] at hm ⊢ <;> exact hm
  · have hlt : ¬63 + i < 64 := by omega
    cases hm : x.msb <;> simp only [h64, hlt, hi, BitVec.getLsbD_allOnes, if_true, if_false,
      decide_true, decide_false, Bool.not_false, Bool.true_and, Bool.false_eq_true,
      BitVec.getLsbD_zero]

theorem and_one (x : BitVec 64) : x &&& 1#64 = BitVec.ofNat 64 (x.toNat % 2) := by
  apply BitVec.eq_of_toNat_eq
  rw [BitVec.toNat_and, BitVec.toNat_ofNat]
  simp only [BitVec.toNat_ofNat, Nat.one_mod, Nat.and_one_is_mod]
  omega

theorem zigzag_bitvec (x : BitVec 64) :
    ((x <<< 1 ^^^ x.sshiftRight 63) >>> 1) ^^^ -((x <<< 1 ^^^ x.sshiftRight 63) &&& 1#64) = x := by
  have hx := x.isLt
  have hmsb := BitVec.msb_eq_decide x
  rw [sshiftRight_63, and_one]
  by_cases hm : 2 ^ 63 ≤ x.toNat
  · have hneg : -(BitVec.ofNat 64 1) = BitVec.allOnes 64 := by decide
    have hodd : (~~~(x <<< 1)).toNat % 2 = 1 := by
      rw [BitVec.toNat_not, BitVec.toNat_shiftLeft]; omega
    simp only [show x.msb = true by simpa [hmsb] using hm, if_true, BitVec.xor_allOnes, hodd, hneg]
    apply BitVec.eq_of_toNat_eq
    rw [BitVec.toNat_not, BitVec.toNat_ushiftRight, BitVec.toNat_not, BitVec.toNat_shiftLeft,
      Nat.shiftRight_eq_div_pow, Nat.shiftLeft_eq]
    omega
  · have heven : (x <<< 1).toNat % 2 = 0 := by
      rw [BitVec.toNat_shiftLeft]; omega
    simp only [show x.msb = false by simpa [hmsb] using hm, Bool.false_eq_true, if_false,
      BitVec.xor_zero, heven]
    apply BitVec.eq_of_toNat_eq
    rw [show -(BitVec.ofNat 64 0) = 0#64 by decide, BitVec.xor_zero, BitVec.toNat_ushiftRight,
      BitVec.toNat_shiftLeft, Nat.shiftRight_eq_div_pow, Nat.shiftLeft_eq]
    omega

theorem zigzagDecode_encode (val : Int64) : zigzagDecode (zigzagEncode val) = val := by
  apply Int64.toBitVec_inj.mp
  have h := zigzag_bitvec val.toBitVec
  simpa [zigzagDecode, zigzagEncode] using h

end Kkdb.Varint
