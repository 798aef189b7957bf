import Mathlib.Algebra.Group.Nat.Defs
import Mathlib.Data.List.DropRight

namespace Kkdb.Binlog

def CHARS : List Char := "ABCDEFGHIJKLMNOPQRSTUVWXYZabcdefghijklmnopqrstuvwxyz0123456789+/".toList

def encodeChar (index : Nat) : Char := CHARS.getD index '='

def encodeChunks : List UInt8 → List Char
  | [] => []
  | [b0] => [encodeChar (b0.toNat >>> 2), encodeChar ((b0.toNat &&& 3) <<< 4), '=', '=']
  | [b0, b1] =>
      [encodeChar (b0.toNat >>> 2), encodeChar (((b0.toNat &&& 3) <<< 4) ||| (b1.toNat >>> 4)),
        encodeChar ((b1.toNat &&& 15) <<< 2), '=']
  | b0 :: b1 :: b2 :: data =>
      encodeChar (b0.toNat >>> 2) :: encodeChar (((b0.toNat &&& 3) <<< 4) ||| (b1.toNat >>> 4)) ::
        encodeChar (((b1.toNat &&& 15) <<< 2) ||| (b2.toNat >>> 6)) :: encodeChar (b2.toNat &&& 63) ::
        encodeChunks data

def base64Encode (data : List UInt8) : String := String.ofList (encodeChunks data)

structure Decoder where
  out : List UInt8
  buf : Nat
  bits : Nat

def Decoder.push (d : Decoder) (val : Nat) : Decoder :=
  let buf := (d.buf <<< 6) ||| val
  let bits := d.bits + 6
  if 8 ≤ bits then
    { out := d.out ++ [UInt8.ofNat (buf >>> (bits - 8))], buf := buf &&& (2 ^ (bits - 8) - 1), bits :=
      bits - 8 }
  else { out := d.out, buf := buf, bits := bits }

-- A character outside of the table fails. Its bytes are not in the table either.
def decodeLoop : List Char → Decoder → Option Decoder
  | [], d => some d
  | b :: bytes, d => do
      let val ← CHARS.idxOf? b
      decodeLoop bytes (d.push val)

def base64Decode (s : String) : Option (List UInt8) := do
  let d ← decodeLoop (s.toList.rdropWhile (· == '=')) { out := [], buf := 0, bits := 0 }
  return d.out

def bodyChars : List UInt8 → List Char
  | [] => []
  | [b0] => [encodeChar (b0.toNat >>> 2), encodeChar ((b0.toNat &&& 3) <<< 4)]
  | [b0, b1] =>
      [encodeChar (b0.toNat >>> 2), encodeChar (((b0.toNat &&& 3) <<< 4) ||| (b1.toNat >>> 4)),
        encodeChar ((b1.toNat &&& 15) <<< 2)]
  | b0 :: b1 :: b2 :: data =>
      encodeChar (b0.toNat >>> 2) :: encodeChar (((b0.toNat &&& 3) <<< 4) ||| (b1.toNat >>> 4)) ::
        encodeChar (((b1.toNat &&& 15) <<< 2) ||| (b2.toNat >>> 6)) :: encodeChar (b2.toNat &&& 63) ::
        bodyChars data

theorem idxOf_encodeChar {index : Nat} (h : index < 64) : CHARS.idxOf? (encodeChar index) = some index := by
  have hall : ∀ i : Fin 64, CHARS.idxOf? (encodeChar i) = some i.val := by decide +kernel
  exact hall ⟨index, h⟩

-- The indices of three bytes, as numbers.
section Indices

theorem first_index (b0 : UInt8) : b0.toNat >>> 2 = b0.toNat / 4 := Nat.shiftRight_eq_div_pow _ 2

theorem second_index (b0 : UInt8) {high : Nat} (h : high < 16) :
    ((b0.toNat &&& 3) <<< 4) ||| high = b0.toNat % 4 * 16 + high := by
  have hand : b0.toNat &&& 3 = b0.toNat % 4 := Nat.and_two_pow_sub_one_eq_mod b0.toNat 2
  rw [hand, ← Nat.shiftLeft_add_eq_or_of_lt (by simpa using h), Nat.shiftLeft_eq]

theorem third_index (b1 : UInt8) {high : Nat} (h : high < 4) :
    ((b1.toNat &&& 15) <<< 2) ||| high = b1.toNat % 16 * 4 + high := by
  have hand : b1.toNat &&& 15 = b1.toNat % 16 := Nat.and_two_pow_sub_one_eq_mod b1.toNat 4
  rw [hand, ← Nat.shiftLeft_add_eq_or_of_lt (by simpa using h), Nat.shiftLeft_eq]

theorem fourth_index (b2 : UInt8) : b2.toNat &&& 63 = b2.toNat % 64 :=
  Nat.and_two_pow_sub_one_eq_mod b2.toNat 6

end Indices

theorem Decoder.push_eq (d : Decoder) {val : Nat} (h : val < 64) :
    d.push val =
      if 8 ≤ d.bits + 6 then
        { out := d.out ++ [UInt8.ofNat ((d.buf * 64 + val) / 2 ^ (d.bits - 2))],
          buf := (d.buf * 64 + val) % 2 ^ (d.bits - 2), bits := d.bits - 2 }
      else { out := d.out, buf := d.buf * 64 + val, bits := d.bits + 6 } := by
  have hbuf : d.buf <<< 6 ||| val = d.buf * 64 + val := by
    rw [← Nat.shiftLeft_add_eq_or_of_lt (by simpa using h), Nat.shiftLeft_eq]
  have hbits : d.bits + 6 - 8 = d.bits - 2 := by omega
  simp only [push, hbuf, hbits, Nat.shiftRight_eq_div_pow, Nat.and_two_pow_sub_one_eq_mod]

theorem ofNat_eq {n : Nat} {b : UInt8} (h : n = b.toNat) : UInt8.ofNat n = b := by
  rw [h, UInt8.ofNat_toNat]

theorem decodeLoop_encodeChar {index : Nat} (h : index < 64) (bytes : List Char) (d : Decoder) :
    decodeLoop (encodeChar index :: bytes) d = decodeLoop bytes (d.push index) := by
  rw [decodeLoop, idxOf_encodeChar h]
  rfl

theorem push_two (out : List UInt8) (b0 : UInt8) {high : Nat} (h : high < 16) :
    (Decoder.push { out := out, buf := 0, bits := 0 } (b0.toNat / 4)).push (b0.toNat % 4 * 16 + high) =
      { out := out ++ [b0], buf := high, bits := 4 } := by
  have h0 := b0.toNat_lt
  have hbyte : UInt8.ofNat ((b0.toNat / 4 * 64 + (b0.toNat % 4 * 16 + high)) / 16) = b0 := ofNat_eq (by omega)
  rw [Decoder.push_eq _ (by omega), Decoder.push_eq _ (by omega)]
  simp [hbyte]
  omega

theorem push_third (out : List UInt8) (b1 : UInt8) {high : Nat} (h : high < 4) :
    Decoder.push { out := out, buf := b1.toNat / 16, bits := 4 } (b1.toNat % 16 * 4 + high) =
      { out := out ++ [b1], buf := high, bits := 2 } := by
  have h1 := b1.toNat_lt
  have hbyte : UInt8.ofNat ((b1.toNat / 16 * 64 + (b1.toNat % 16 * 4 + high)) / 4) = b1 := ofNat_eq (by omega)
  rw [Decoder.push_eq _ (by omega)]
  simp [hbyte]
  omega

theorem push_fourth (out : List UInt8) (b2 : UInt8) :
    Decoder.push { out := out, buf := b2.toNat / 64, bits := 2 } (b2.toNat % 64) =
      { out := out ++ [b2], buf := 0, bits := 0 } := by
  have hbyte : UInt8.ofNat (b2.toNat / 64 * 64 + b2.toNat % 64) = b2 := ofNat_eq (by omega)
  rw [Decoder.push_eq _ (by omega)]
  simp [hbyte]
  omega

theorem decodeLoop_bodyChars (data out : List UInt8) :
    (decodeLoop (bodyChars data) { out := out, buf := 0, bits := 0 }).map Decoder.out = some (out ++ data) := by
  induction data using bodyChars.induct generalizing out with
  | case1 => simp [bodyChars, decodeLoop]
  | case2 b0 =>
      have h0 := b0.toNat_lt
      have hsecond := second_index b0 (show 0 < 16 by decide)
      rw [Nat.or_zero] at hsecond
      rw [bodyChars, first_index, hsecond, decodeLoop_encodeChar (by omega), decodeLoop_encodeChar (by omega),
        push_two _ _ (by omega)]
      rfl
  | case3 b0 b1 =>
      have h0 := b0.toNat_lt
      have h1 := b1.toNat_lt
      have hsecond : ((b0.toNat &&& 3) <<< 4) ||| (b1.toNat >>> 4) = b0.toNat % 4 * 16 + b1.toNat / 16 := by
        rw [Nat.shiftRight_eq_div_pow, second_index b0 (by omega)]
      have hthird := third_index b1 (show 0 < 4 by decide)
      rw [Nat.or_zero] at hthird
      rw [bodyChars, first_index, hsecond, hthird, decodeLoop_encodeChar (by omega),
        decodeLoop_encodeChar (by omega), decodeLoop_encodeChar (by omega), push_two _ _ (by omega),
        push_third _ _ (by omega)]
      simp [decodeLoop]
  | case4 b0 b1 b2 data ih =>
      have h0 := b0.toNat_lt
      have h1 := b1.toNat_lt
      have h2 := b2.toNat_lt
      have hsecond : ((b0.toNat &&& 3) <<< 4) ||| (b1.toNat >>> 4) = b0.toNat % 4 * 16 + b1.toNat / 16 := by
        rw [Nat.shiftRight_eq_div_pow, second_index b0 (by omega)]
      have hthird : ((b1.toNat &&& 15) <<< 2) ||| (b2.toNat >>> 6) = b1.toNat % 16 * 4 + b2.toNat / 64 := by
        rw [Nat.shiftRight_eq_div_pow, third_index b1 (by omega)]
      rw [bodyChars, first_index, hsecond, hthird, fourth_index, decodeLoop_encodeChar (by omega),
        decodeLoop_encodeChar (by omega), decodeLoop_encodeChar (by omega), decodeLoop_encodeChar (by omega),
        push_two _ _ (by omega), push_third _ _ (by omega), push_fourth, ih]
      simp

theorem decodeLoop_pad {bytes : List Char} (h : '=' ∈ bytes) (d : Decoder) : decodeLoop bytes d = none := by
  induction bytes generalizing d with
  | nil => cases h
  | cons b bytes ih =>
      rw [decodeLoop]
      rcases List.mem_cons.mp h with rfl | hmem
      · have hnone : CHARS.idxOf? '=' = none := by decide +kernel
        rw [hnone]
        rfl
      · cases CHARS.idxOf? b with
        | none => rfl
        | some val => exact ih hmem (d.push val)

theorem encodeChunks_eq (data : List UInt8) :
    ∃ n, encodeChunks data = bodyChars data ++ List.replicate n '=' := by
  induction data using encodeChunks.induct with
  | case1 => exact ⟨0, rfl⟩
  | case2 b0 => exact ⟨2, rfl⟩
  | case3 b0 b1 => exact ⟨1, rfl⟩
  | case4 b0 b1 b2 data ih =>
      obtain ⟨n, hn⟩ := ih
      exact ⟨n, by simp [encodeChunks, bodyChars, hn]⟩

-- The padding is what `trim_end_matches` takes off.
theorem rdropWhile_encodeChunks (data : List UInt8) :
    (encodeChunks data).rdropWhile (· == '=') = bodyChars data := by
  have hbody : '=' ∉ bodyChars data := by
    intro hpad
    have hloop := decodeLoop_bodyChars data []
    rw [decodeLoop_pad hpad] at hloop
    cases hloop
  have hself : (bodyChars data).rdropWhile (· == '=') = bodyChars data := by
    rw [List.rdropWhile_eq_self_iff]
    intro hne heq
    rw [beq_iff_eq] at heq
    exact hbody (heq ▸ List.getLast_mem hne)
  obtain ⟨n, hn⟩ := encodeChunks_eq data
  rw [hn]
  clear hn
  induction n with
  | zero => simpa using hself
  | succ n ih =>
      rw [List.replicate_succ', ← List.append_assoc, List.rdropWhile_concat_pos _ _ _ (by simp), ih]

theorem base64Decode_encode (data : List UInt8) : base64Decode (base64Encode data) = some data := by
  have hloop := decodeLoop_bodyChars data []
  rw [List.nil_append, Option.map_eq_some_iff] at hloop
  obtain ⟨d, hd, hout⟩ := hloop
  rw [base64Decode, base64Encode, String.toList_ofList, rdropWhile_encodeChunks, hd]
  exact congrArg some hout

end Kkdb.Binlog
