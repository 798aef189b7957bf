import Kkdb.Lib.Codec
import Kkdb.Types.Compare

namespace Kkdb

open Lib

-- `Display` of `f64`. It shows the shortest decimal that reads back as the same number, and all NaNs alike.
structure RealText where
  text : UInt64 → List UInt8
  same : ∀ a b, text a = text b ↔ a = b ∨ Double.isNaN a = true ∧ Double.isNaN b = true

def integerText (v : Int64) : List UInt8 :=
  if v.toInt < 0 then 45 :: decimal v.toInt.natAbs else decimal v.toInt.natAbs

-- `{:02x}`.
def hexText (b : UInt8) : List UInt8 := [Codec.hexDigit (b.toNat / 16), Codec.hexDigit (b.toNat % 16)]

-- `typed_key_into`. The letters are `N`, `I`, `T`, `R` and `B`.
def typedKey (fmt : RealText) : Value → List UInt8
  | .Null => [0x4E]
  | .Integer v => 0x49 :: integerText v
  | .Text v => 0x54 :: textBytes v
  | .Real bits => 0x52 :: fmt.text bits
  | .Blob v => 0x42 :: v.flatMap hexText

section Keys

variable {fmt : RealText} {v w : Value}

theorem decimal_inj {n m : Nat} (h : decimal n = decimal m) : n = m := by
  have hn := takeNumber_decimal n (b := 44) (by decide) []
  have hm := takeNumber_decimal m (b := 44) (by decide) []
  rw [h, hm] at hn
  exact (Prod.mk.inj hn).1.symm

theorem decimal_ne_minus (n : Nat) (rest : List UInt8) : decimal n ≠ 45 :: rest := by
  intro h
  have hcount := count_decimalDigits (b := 45) (by decide) (n + 1) n
  rw [decimal] at h
  rw [h, List.count_cons_self] at hcount
  omega

theorem integerText_inj {a b : Int64} (h : integerText a = integerText b) : a = b := by
  unfold integerText at h
  apply Int64.toInt_inj.mp
  split_ifs at h with ha hb hb
  · have habs := decimal_inj (List.cons.inj h).2
    omega
  · exact absurd h.symm (decimal_ne_minus _ _)
  · exact absurd h (decimal_ne_minus _ _)
  · have habs := decimal_inj h
    omega

theorem hexText_inj {a b : UInt8} (h : hexText a = hexText b) : a = b := by
  have ha := Codec.hexValue_hexDigit (n := a.toNat / 16) (by have := a.toNat_lt; omega)
  have ha' := Codec.hexValue_hexDigit (n := a.toNat % 16) (by omega)
  have hb := Codec.hexValue_hexDigit (n := b.toNat / 16) (by have := b.toNat_lt; omega)
  have hb' := Codec.hexValue_hexDigit (n := b.toNat % 16) (by omega)
  obtain ⟨hhigh, htail⟩ := List.cons.inj h
  rw [hhigh, hb] at ha
  rw [(List.cons.inj htail).1, hb'] at ha'
  apply UInt8.toNat_inj.mp
  omega

theorem flatMap_hexText_inj {a b : List UInt8} (h : a.flatMap hexText = b.flatMap hexText) : a = b := by
  induction a generalizing b with
  | nil =>
      cases b with
      | nil => rfl
      | cons b bs => cases h
  | cons a as ih =>
      cases b with
      | nil => cases h
      | cons b bs =>
          rw [List.flatMap_cons, List.flatMap_cons] at h
          obtain ⟨hhead, htail⟩ := List.append_inj h rfl
          rw [hexText_inj hhead, ih htail]

theorem typedKey_eq_iff : typedKey fmt v = typedKey fmt w ↔
    v = w ∨ v.isNaN = true ∧ w.isNaN = true := by
  cases v <;> cases w
  case Integer.Integer a b =>
    simp only [typedKey, List.cons_inj_right, Value.Integer.injEq, Value.isNaN, Bool.false_eq_true,
      and_self, or_false]
    exact ⟨integerText_inj, fun h => by rw [h]⟩
  case Real.Real a b =>
    simp only [typedKey, List.cons_inj_right, Value.Real.injEq, Value.isNaN]
    exact fmt.same a b
  case Text.Text a b =>
    simp only [typedKey, List.cons_inj_right, Value.Text.injEq, Value.isNaN, Bool.false_eq_true,
      and_self, or_false]
    exact textBytes_inj
  case Blob.Blob a b =>
    simp only [typedKey, List.cons_inj_right, Value.Blob.injEq, Value.isNaN, Bool.false_eq_true,
      and_self, or_false]
    exact ⟨flatMap_hexText_inj, fun h => by rw [h]⟩
  all_goals simp [typedKey, Value.isNaN]

-- Values that `==` and the typed keys do not tell apart alike.
def KeyMismatch (v w : Value) : Prop :=
  (∃ a b, v = .Integer a ∧ w = .Real b ∧ v.eq w = true) ∨
    (∃ a b, v = .Real a ∧ w = .Integer b ∧ v.eq w = true) ∨
    (∃ a b, v = .Real a ∧ w = .Real b ∧ a ≠ b ∧ v.eq w = true) ∨
    v.isNaN = true ∧ w.isNaN = true

variable (fmt) in
theorem typedKey_eq_iff_eq : (typedKey fmt v = typedKey fmt w ↔ v.eq w = true) ↔ ¬KeyMismatch v w := by
  rw [typedKey_eq_iff]
  cases v <;> cases w
  case Real.Real a b =>
    by_cases hab : a = b
    · subst hab
      by_cases hnan : Double.isNaN a = true
      · simp [KeyMismatch, Value.isNaN, Value.eq, Double.eq, hnan]
      · simp [KeyMismatch, Value.isNaN, Value.eq, Double.eq, hnan]
    · by_cases hnan : Double.isNaN a = true ∧ Double.isNaN b = true
      · simp [KeyMismatch, Value.isNaN, Value.eq, Double.eq, hab, hnan]
      · simp [KeyMismatch, Value.isNaN, Value.eq, hab, hnan]
  all_goals simp [KeyMismatch, Value.isNaN, Value.eq]

end Keys

-- Shows 1.0 as `1` and every other number apart from it.
def oneText : RealText where
  text bits :=
    if Double.isNaN bits then [78, 97, 78]
    else if bits = 0x3FF0000000000000 then [49]
    else 98 :: decimal bits.toNat
  same a b := by
    by_cases hab : a = b
    · simp [hab]
    · have hdecimal : decimal a.toNat ≠ decimal b.toNat :=
        fun h => hab (UInt64.toNat_inj.mp (decimal_inj h))
      split_ifs <;> simp_all

end Kkdb
