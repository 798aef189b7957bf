import Mathlib.Algebra.Group.Nat.Defs
import Mathlib.Data.Nat.Log
import Mathlib.Order.Compare

namespace Lib

-- IEEE 754 binary64 numbers as their bit patterns: the order, and the conversion from 64-bit
-- integers, which rounds to the nearest double and breaks ties to even.
namespace Double

def magnitude (bits : UInt64) : Nat := bits.toNat % 2 ^ 63

def negative (bits : UInt64) : Bool := 2 ^ 63 ≤ bits.toNat

def isNaN (bits : UInt64) : Bool := 2047 * 2 ^ 52 < magnitude bits

-- The patterns of one sign are ordered like the numbers, and the two zeros are equal.
def rank (bits : UInt64) : Int := if negative bits then -(magnitude bits : Int) else magnitude bits

def partialCmp (a b : UInt64) : Option Ordering :=
  if isNaN a ∨ isNaN b then none else some (compare (rank a) (rank b))

def eq (a b : UInt64) : Bool := !isNaN a && !isNaN b && rank a = rank b

def neg (bits : UInt64) : UInt64 := bits ^^^ 0x8000000000000000

-- `n / 2 ^ s` rounded to the nearest integer, ties to the even one.
def roundShift (s n : Nat) : Nat :=
  if 2 ^ s < 2 * (n % 2 ^ s) ∨ 2 * (n % 2 ^ s) = 2 ^ s ∧ n / 2 ^ s % 2 = 1 then n / 2 ^ s + 1
  else n / 2 ^ s

-- The significand of 53 bits of a number with leading bit `e`, rounded if the number is longer.
def significand (e n : Nat) : Nat := if e ≤ 52 then n * 2 ^ (52 - e) else roundShift (e - 52) n

def ofNat (n : Nat) : Nat := if n = 0 then 0 else (1022 + n.log2) * 2 ^ 52 + significand n.log2 n

def ofInt64 (v : Int64) : UInt64 :=
  UInt64.ofNat (if v.toInt < 0 then 2 ^ 63 + ofNat v.toInt.natAbs else ofNat v.toInt.natAbs)

theorem roundShift_mono {s n m : Nat} (h : n ≤ m) : roundShift s n ≤ roundShift s m := by
  have hdiv : n / 2 ^ s ≤ m / 2 ^ s := Nat.div_le_div_right h
  rcases Nat.lt_or_ge (n / 2 ^ s) (m / 2 ^ s) with hlt | hge
  · unfold roundShift
    split_ifs <;> omega
  · have heq : n / 2 ^ s = m / 2 ^ s := Nat.le_antisymm hdiv hge
    have hn := Nat.div_add_mod n (2 ^ s)
    have hm := Nat.div_add_mod m (2 ^ s)
    have hmod : n % 2 ^ s ≤ m % 2 ^ s := by
      rw [heq] at hn
      omega
    unfold roundShift
    rw [heq]
    split_ifs <;> omega

theorem roundShift_bounds {s n : Nat} {lo hi : Nat} (hlo : lo * 2 ^ s ≤ n) (hhi : n < hi * 2 ^ s) :
    lo ≤ roundShift s n ∧ roundShift s n ≤ hi := by
  have hpos : 0 < 2 ^ s := Nat.two_pow_pos s
  have h1 : lo ≤ n / 2 ^ s := (Nat.le_div_iff_mul_le hpos).mpr hlo
  have h2 : n / 2 ^ s < hi := (Nat.div_lt_iff_lt_mul hpos).mpr hhi
  unfold roundShift
  split_ifs <;> omega

theorem significand_bounds {n : Nat} (h : n ≠ 0) :
    2 ^ 52 ≤ significand n.log2 n ∧ significand n.log2 n ≤ 2 ^ 53 := by
  have hlo := Nat.log2_self_le h
  have hhi := Nat.lt_log2_self (n := n)
  unfold significand
  split_ifs with he
  · have hpow : 2 ^ n.log2 * 2 ^ (52 - n.log2) = 2 ^ 52 := by rw [← Nat.pow_add]; congr 1; omega
    have hpow' : 2 ^ (n.log2 + 1) * 2 ^ (52 - n.log2) = 2 ^ 53 := by rw [← Nat.pow_add]; congr 1; omega
    constructor
    · rw [← hpow]
      exact Nat.mul_le_mul_right _ hlo
    · rw [← hpow']
      exact Nat.mul_le_mul_right _ hhi.le
  · have hpow : 2 ^ 52 * 2 ^ (n.log2 - 52) = 2 ^ n.log2 := by rw [← Nat.pow_add]; congr 1; omega
    have hpow' : 2 ^ 53 * 2 ^ (n.log2 - 52) = 2 ^ (n.log2 + 1) := by rw [← Nat.pow_add]; congr 1; omega
    exact roundShift_bounds (by rw [hpow]; exact hlo) (by rw [hpow']; exact hhi)

theorem significand_mono {e n m : Nat} (h : n ≤ m) : significand e n ≤ significand e m := by
  unfold significand
  split_ifs
  · exact Nat.mul_le_mul_right _ h
  · exact roundShift_mono h

theorem log2_mono {n m : Nat} (hn : n ≠ 0) (h : n ≤ m) : n.log2 ≤ m.log2 := by
  have hm : m ≠ 0 := by omega
  by_contra hlt
  have hpow : 2 ^ (m.log2 + 1) ≤ 2 ^ n.log2 := Nat.pow_le_pow_right (by decide) (by omega)
  have := Nat.log2_self_le hn
  have := Nat.lt_log2_self (n := m)
  omega

theorem ofNat_mono {n m : Nat} (h : n ≤ m) : ofNat n ≤ ofNat m := by
  by_cases hn : n = 0
  · rw [hn]
    exact Nat.zero_le _
  · have hm : m ≠ 0 := by omega
    rw [ofNat, if_neg hn, ofNat, if_neg hm]
    rcases Nat.lt_or_ge n.log2 m.log2 with hlt | hge
    -- a rounded-up significand is the least one of the next exponent
    · calc (1022 + n.log2) * 2 ^ 52 + significand n.log2 n
          ≤ (1022 + n.log2) * 2 ^ 52 + 2 * 2 ^ 52 := Nat.add_le_add_left (significand_bounds hn).2 _
        _ = (1022 + n.log2 + 2) * 2 ^ 52 := (Nat.add_mul ..).symm
        _ ≤ (1022 + m.log2 + 1) * 2 ^ 52 := Nat.mul_le_mul_right _ (by omega)
        _ = (1022 + m.log2) * 2 ^ 52 + 2 ^ 52 := Nat.succ_mul ..
        _ ≤ (1022 + m.log2) * 2 ^ 52 + significand m.log2 m :=
            Nat.add_le_add_left (significand_bounds hm).1 _
    · rw [Nat.le_antisymm (log2_mono hn h) hge]
      exact Nat.add_le_add_left (significand_mono h) _

theorem ofNat_pos {n : Nat} (h : n ≠ 0) : 0 < ofNat n := by
  rw [ofNat, if_neg h]
  have := (significand_bounds h).1
  omega

theorem ofNat_le {n : Nat} (h : n ≤ 2 ^ 63) : ofNat n ≤ 1087 * 2 ^ 52 := by
  by_cases hn : n = 0
  · rw [ofNat, if_pos hn]
    exact Nat.zero_le _
  · have hlog : n.log2 ≤ 63 := by
      by_contra hlt
      have := Nat.log2_self_le hn
      have : 2 ^ 64 ≤ 2 ^ n.log2 := Nat.pow_le_pow_right (by decide) (by omega)
      omega
    rw [ofNat, if_neg hn]
    have := (significand_bounds hn).2
    omega

section Converted

variable (v w : Int64)

theorem natAbs_le : v.toInt.natAbs ≤ 2 ^ 63 := by
  have := v.toInt_lt
  have := v.le_toInt
  omega

theorem toNat_ofInt64 : (ofInt64 v).toNat =
    if v.toInt < 0 then 2 ^ 63 + ofNat v.toInt.natAbs else ofNat v.toInt.natAbs := by
  have := ofNat_le (natAbs_le v)
  rw [ofInt64, UInt64.toNat_ofNat']
  split_ifs <;> omega

theorem magnitude_ofInt64 : magnitude (ofInt64 v) = ofNat v.toInt.natAbs := by
  have := ofNat_le (natAbs_le v)
  rw [magnitude, toNat_ofInt64]
  split_ifs <;> omega

theorem negative_ofInt64 : negative (ofInt64 v) = decide (v.toInt < 0) := by
  have := ofNat_le (natAbs_le v)
  rw [negative, toNat_ofInt64]
  split_ifs with h
  · rw [decide_eq_true h, decide_eq_true (by omega)]
  · rw [decide_eq_false h, decide_eq_false (by omega)]

theorem isNaN_ofInt64 : isNaN (ofInt64 v) = false := by
  have := ofNat_le (natAbs_le v)
  rw [isNaN, magnitude_ofInt64]
  exact decide_eq_false (by omega)

theorem rank_ofInt64 : rank (ofInt64 v) =
    if v.toInt < 0 then -(ofNat v.toInt.natAbs : Int) else ofNat v.toInt.natAbs := by
  rw [rank, negative_ofInt64, magnitude_ofInt64]
  simp only [decide_eq_true_eq]

variable {v w}

theorem rank_ofInt64_mono (h : v.toInt ≤ w.toInt) : rank (ofInt64 v) ≤ rank (ofInt64 w) := by
  rw [rank_ofInt64, rank_ofInt64]
  split_ifs with hv hw hw
  · have := ofNat_mono (show w.toInt.natAbs ≤ v.toInt.natAbs by omega)
    omega
  · omega
  · omega
  · have := ofNat_mono (show v.toInt.natAbs ≤ w.toInt.natAbs by omega)
    omega

theorem magnitude_ofInt64_eq_zero : magnitude (ofInt64 v) = 0 ↔ v = 0 := by
  rw [magnitude_ofInt64]
  constructor
  · intro h
    by_contra hv
    have hne : v.toInt.natAbs ≠ 0 := fun h0 => hv (Int64.toInt_inj.mp (Int.natAbs_eq_zero.mp h0))
    have := ofNat_pos hne
    omega
  · rintro rfl
    rfl

end Converted

theorem eq_of_rank_eq {a b : UInt64} (h : rank a = rank b) :
    a = b ∨ magnitude a = 0 ∧ magnitude b = 0 := by
  have ha := a.toNat_lt
  have hb := b.toNat_lt
  unfold rank negative magnitude at h
  rw [← UInt64.toNat_inj]
  unfold magnitude
  simp only [decide_eq_true_eq] at h
  split_ifs at h <;> omega

def zeroSign (bits : UInt64) : Option Bool :=
  if magnitude bits = 0 then some (negative bits) else none

theorem eq_iff_rank_eq {a b : UInt64} :
    a = b ↔ rank a = rank b ∧ ¬∃ s, zeroSign a = some s ∧ zeroSign b = some (!s) := by
  constructor
  · rintro rfl
    refine ⟨rfl, ?_⟩
    rintro ⟨s, hs, hs'⟩
    rw [hs] at hs'
    cases s <;> cases hs'
  · rintro ⟨hrank, hsign⟩
    rcases eq_of_rank_eq hrank with h | ⟨ha, hb⟩
    · exact h
    · have hneg : negative a = negative b := by
        by_contra hne
        refine hsign ⟨negative a, if_pos ha, ?_⟩
        rw [zeroSign, if_pos hb]
        cases hna : negative a <;> cases hnb : negative b <;> simp_all
      rw [← UInt64.toNat_inj]
      have hlt := a.toNat_lt
      have hlt' := b.toNat_lt
      unfold magnitude at ha hb
      unfold negative at hneg
      simp only [decide_eq_decide] at hneg
      omega

theorem rank_eq_zero {a : UInt64} (h : magnitude a = 0) : rank a = 0 := by
  rw [rank, h]
  split_ifs <;> rfl

example : ofInt64 9007199254740993 = ofInt64 9007199254740992 := by decide

end Double

end Lib
