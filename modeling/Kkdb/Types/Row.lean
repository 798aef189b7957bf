import Kkdb.Types.Varint
import Kkdb.Lib.Bytes

namespace Kkdb

open Lib Varint

-- A `Real` is kept as its 64-bit pattern: the storage layer only moves its bytes.
inductive Value where
  | Null
  | Integer (v : Int64)
  | Real (bits : UInt64)
  | Text (v : String)
  | Blob (v : List UInt8)
  deriving DecidableEq

abbrev Row := List Value

def MAX_VALUE_LEN : Nat := 256 * 1024 * 1024

def MAX_COLUMNS : Nat := 4096

def hexDigit (n : Nat) : Char := "0123456789abcdef".toList.getD n '0'

def hexByte (b : UInt8) : String :=
  "0x" ++ String.ofList [hexDigit (b.toNat / 16), hexDigit (b.toNat % 16)]

def textBytes (v : String) : List UInt8 := v.toUTF8.data.toList

def fromUtf8 (bytes : List UInt8) : Option String := String.fromUTF8? ⟨bytes.toArray⟩

namespace Value

def serialize : Value → List UInt8
  | Null => [0x00]
  | Integer v => 0x01 :: writeVarintU64 (zigzagEncode v)
  | Real bits => 0x02 :: leBytes 8 bits.toNat
  | Text v => 0x03 :: (writeVarintU64 (UInt64.ofNat (textBytes v).length) ++ textBytes v)
  | Blob v => 0x04 :: (writeVarintU64 (UInt64.ofNat v.length) ++ v)

-- The length-prefixed tail that `Text` and `Blob` share: the payload bytes and
-- the offset one past them.
def deserializeBytes (kind : String) (data : List UInt8) : Res (List UInt8 × Nat) := do
  let (len, consumed) ← readVarintU64 (data.drop 1)
  if MAX_VALUE_LEN < len then
    throw (corrupt s!"{kind} value length {len} exceeds maximum")
  let start := 1 + consumed
  let stop := start + len
  if data.length < stop then
    throw (corrupt s!"truncated {kind} data")
  return ((data.drop start).take len, stop)

def deserialize (data : List UInt8) : Res (Value × Nat) :=
  match data with
  | [] => .error (corrupt "empty value data")
  | tag :: rest =>
      if tag = 0x00 then .ok (Null, 1)
      else if tag = 0x01 then do
        let (v, consumed) ← readVarintU64 rest
        return (Integer (zigzagDecode (UInt64.ofNat v)), 1 + consumed)
      else if tag = 0x02 then
        if data.length < 9 then .error (corrupt "truncated real")
        else .ok (Real (UInt64.ofNat (leNat (rest.take 8))), 9)
      else if tag = 0x03 then do
        let (bytes, stop) ← deserializeBytes "text" data
        match fromUtf8 bytes with
        | some s => return (Text s, stop)
        | none => throw (corrupt "invalid utf-8 in text value")
      else if tag = 0x04 then do
        let (bytes, stop) ← deserializeBytes "blob" data
        return (Blob bytes, stop)
      else .error (corrupt ("unknown value tag: " ++ hexByte tag))

-- The values the reader accepts: it refuses a text or a blob above its limit.
def Readable : Value → Prop
  | Text v => (textBytes v).length ≤ MAX_VALUE_LEN
  | Blob v => v.length ≤ MAX_VALUE_LEN
  | _ => True

instance (v : Value) : Decidable v.Readable := by
  unfold Readable
  split <;> infer_instance

end Value

def serializeRow (row : Row) : List UInt8 :=
  writeVarintU64 (UInt64.ofNat row.length) ++ row.flatMap Value.serialize

-- The column loop of `deserialize_row`; `&data[offset..]` panics past the end.
def deserializeColumns (data : List UInt8) : Nat → Nat → Res Row
  | 0, _ => .ok []
  | count + 1, offset =>
      if data.length < offset then .error .Panic
      else do
        let (val, consumed) ← Value.deserialize (data.drop offset)
        let rest ← deserializeColumns data count (offset + consumed)
        return val :: rest

def deserializeRow (data : List UInt8) : Res Row :=
  if data.isEmpty then .error (corrupt "row data too short")
  else do
    let (colCount, offset) ← readVarintU64 data
    if MAX_COLUMNS < colCount then
      throw (corrupt s!"row column count {colCount} exceeds maximum {MAX_COLUMNS}")
    deserializeColumns data colCount offset

def Row.Readable (row : Row) : Prop :=
  row.length ≤ MAX_COLUMNS ∧ ∀ v ∈ row, v.Readable

instance (row : Row) : Decidable row.Readable :=
  inferInstanceAs (Decidable (row.length ≤ MAX_COLUMNS ∧ ∀ v ∈ row, v.Readable))

theorem fromUtf8_textBytes (v : String) : fromUtf8 (textBytes v) = some v := by
  have hv : (⟨(textBytes v).toArray⟩ : ByteArray) = v.toUTF8 := by
    simp [textBytes]
  rw [fromUtf8, hv]
  simp [String.fromUTF8?, v.isValidUTF8]
  rfl

theorem textBytes_inj {a b : String} : textBytes a = textBytes b ↔ a = b := by
  constructor
  · intro h
    have hstr := congrArg fromUtf8 h
    rw [fromUtf8_textBytes, fromUtf8_textBytes] at hstr
    exact Option.some.inj hstr
  · rintro rfl
    rfl

theorem toNat_ofNat_of_le {len : Nat} (h : len ≤ MAX_VALUE_LEN) :
    (UInt64.ofNat len).toNat = len := by
  rw [UInt64.toNat_ofNat']
  unfold MAX_VALUE_LEN at h
  omega

theorem Value.deserializeBytes_append (kind : String) (tag : UInt8) (bytes tail : List UInt8)
    (h : bytes.length ≤ MAX_VALUE_LEN) :
    deserializeBytes kind
      ((tag :: (writeVarintU64 (UInt64.ofNat bytes.length) ++ bytes)) ++ tail) =
      .ok (bytes, (tag :: (writeVarintU64 (UInt64.ofNat bytes.length) ++ bytes)).length) := by
  have hread := readVarintU64_write (UInt64.ofNat bytes.length) (bytes ++ tail)
  rw [toNat_ofNat_of_le h] at hread
  simp only [deserializeBytes, List.cons_append, List.append_assoc, List.drop_succ_cons,
    List.drop_zero, hread, bind, Except.bind]
  rw [if_neg (by omega), if_neg (by simp only [List.length_cons, List.length_append]; omega)]
  simp only [pure, Except.pure, Nat.add_comm 1, List.drop_succ_cons, List.drop_left,
    List.take_left', List.length_cons, List.length_append]
  congr 2
  omega

theorem Value.deserialize_serialize (v : Value) (tail : List UInt8) (hv : v.Readable) :
    Value.deserialize (v.serialize ++ tail) = .ok (v, v.serialize.length) := by
  cases v with
  | Null => rfl
  | Integer v =>
      have hread := readVarintU64_write (zigzagEncode v) tail
      simp only [serialize, List.cons_append, deserialize, hread, bind, Except.bind, pure,
        Except.pure, UInt64.ofNat_toNat, zigzagDecode_encode, List.length_cons]
      simp [Nat.add_comm]
  | Real bits =>
      have htake : (leBytes 8 bits.toNat ++ tail).take 8 = leBytes 8 bits.toNat := by
        rw [List.take_left' (by simp)]
      have hlen : ¬(leBytes 8 bits.toNat ++ tail).length + 1 < 9 := by simp
      simp only [serialize, List.cons_append, deserialize, List.length_cons, hlen, if_false, htake,
        leNat_leBytes_of_lt (show bits.toNat < 256 ^ 8 from bits.toNat_lt), UInt64.ofNat_toNat,
        length_leBytes]
      simp
  | Text v =>
      have hb := deserializeBytes_append "text" 0x03 (textBytes v) tail hv
      simp only [List.cons_append] at hb
      simp only [serialize, List.cons_append, deserialize, hb, bind, Except.bind,
        fromUtf8_textBytes, pure, Except.pure]
      simp
  | Blob v =>
      have hb := deserializeBytes_append "blob" 0x04 v tail hv
      simp only [List.cons_append] at hb
      simp only [serialize, List.cons_append, deserialize, hb, bind, Except.bind, pure, Except.pure]
      simp

-- Each column starts where the previous one stopped, so the loop invariant is
-- that the bytes before the offset are the ones already consumed.
theorem deserializeColumns_append (front : List UInt8) (row : Row) (tail : List UInt8)
    (hrow : ∀ v ∈ row, v.Readable) :
    deserializeColumns (front ++ (row.flatMap Value.serialize ++ tail)) row.length front.length =
      .ok row := by
  induction row generalizing front with
  | nil => rfl
  | cons v row ih =>
      have hv := Value.deserialize_serialize v (row.flatMap Value.serialize ++ tail)
        (hrow v List.mem_cons_self)
      have hrest := ih (front ++ v.serialize) (fun w hw => hrow w (List.mem_cons_of_mem _ hw))
      simp only [List.append_assoc, List.length_append] at hrest
      simp only [List.length_cons, deserializeColumns, List.flatMap_cons, List.append_assoc,
        List.drop_left, hv, hrest, bind, Except.bind, pure, Except.pure]
      rw [if_neg (by simp)]

theorem deserializeRow_serializeRow (row : Row) (hrow : row.Readable) :
    deserializeRow (serializeRow row) = .ok row := by
  have hlen : (UInt64.ofNat row.length).toNat = row.length := by
    have h := hrow.1
    rw [UInt64.toNat_ofNat']
    unfold MAX_COLUMNS at h
    omega
  have hpos := writeVarintU64_length_pos (UInt64.ofNat row.length)
  have hread := readVarintU64_write (UInt64.ofNat row.length) (row.flatMap Value.serialize)
  rw [hlen] at hread
  have hcols := deserializeColumns_append (writeVarintU64 (UInt64.ofNat row.length)) row [] hrow.2
  rw [List.append_nil] at hcols
  have hne : (serializeRow row).isEmpty = false := by
    rw [List.isEmpty_eq_false_iff, ← List.length_pos_iff]
    simp only [serializeRow, List.length_append]
    omega
  rw [deserializeRow, hne]
  simp only [serializeRow, Bool.false_eq_true, if_false, hread, bind, Except.bind]
  rw [if_neg (by have := hrow.1; omega)]
  exact hcols

end Kkdb
