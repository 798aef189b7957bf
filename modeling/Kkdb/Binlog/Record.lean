import Kkdb.Binlog

namespace Kkdb

open Lib Varint

section Rows

theorem Value.length_serialize_pos (v : Value) : 0 < v.serialize.length := by
  cases v <;> simp [Value.serialize]

theorem length_le_flatMap_serialize (row : Row) : row.length ≤ (row.flatMap Value.serialize).length := by
  induction row with
  | nil => simp
  | cons v row ih =>
      have hpos := v.length_serialize_pos
      simp only [List.flatMap_cons, List.length_append, List.length_cons]
      omega

theorem Value.deserializeBytes_long (kind : String) (tag : UInt8) (bytes tail : List UInt8)
    (h : ¬bytes.length ≤ MAX_VALUE_LEN) (hlen : bytes.length < 2 ^ 64) :
    ∃ e, deserializeBytes kind ((tag :: (writeVarintU64 (UInt64.ofNat bytes.length) ++ bytes)) ++ tail) =
      .error (.Err e) := by
  have hread := readVarintU64_write (UInt64.ofNat bytes.length) (bytes ++ tail)
  rw [UInt64.toNat_ofNat', Nat.mod_eq_of_lt hlen] at hread
  simp only [deserializeBytes, List.cons_append, List.append_assoc, List.drop_succ_cons, List.drop_zero, hread,
    bind, Except.bind]
  rw [if_pos (by omega)]
  exact ⟨_, rfl⟩

theorem Value.deserialize_unreadable (v : Value) (tail : List UInt8) (h : ¬v.Readable)
    (hlen : v.serialize.length < 2 ^ 64) : ∃ e, Value.deserialize (v.serialize ++ tail) = .error (.Err e) := by
  cases v with
  | Text s =>
      have hbytes : (textBytes s).length < 2 ^ 64 := by
        simp only [serialize, List.length_cons, List.length_append] at hlen
        omega
      obtain ⟨e, he⟩ := deserializeBytes_long "text" 0x03 (textBytes s) tail h hbytes
      refine ⟨e, ?_⟩
      simp only [List.cons_append, List.append_assoc] at he
      simp [serialize, deserialize, he, bind, Except.bind]
  | Blob b =>
      have hbytes : b.length < 2 ^ 64 := by
        simp only [serialize, List.length_cons, List.length_append] at hlen
        omega
      obtain ⟨e, he⟩ := deserializeBytes_long "blob" 0x04 b tail h hbytes
      refine ⟨e, ?_⟩
      simp only [List.cons_append, List.append_assoc] at he
      simp [serialize, deserialize, he, bind, Except.bind]
  | Null => exact absurd trivial h
  | Integer v => exact absurd trivial h
  | Real bits => exact absurd trivial h

-- The loop over the columns stops at the first value that is refused.
theorem deserializeColumns_unreadable (front : List UInt8) (row : Row) (h : ∃ v ∈ row, ¬v.Readable)
    (hlen : (row.flatMap Value.serialize).length < 2 ^ 64) :
    ∃ e, deserializeColumns (front ++ row.flatMap Value.serialize) row.length front.length =
      .error (.Err e) := by
  induction row generalizing front with
  | nil =>
      obtain ⟨v, hv, -⟩ := h
      cases hv
  | cons v row ih =>
      rw [List.flatMap_cons, List.length_append] at hlen
      simp only [List.length_cons, deserializeColumns, List.flatMap_cons, List.drop_left, bind, Except.bind]
      rw [if_neg (by simp)]
      by_cases hv : v.Readable
      · have hrest : ∃ w ∈ row, ¬w.Readable := by
          obtain ⟨w, hw, hno⟩ := h
          rcases List.mem_cons.mp hw with rfl | hmem
          · exact absurd hv hno
          · exact ⟨w, hmem, hno⟩
        obtain ⟨e, he⟩ := ih (front ++ v.serialize) hrest (by omega)
        rw [List.append_assoc, List.length_append] at he
        exact ⟨e, by simp only [Value.deserialize_serialize v _ hv, he]⟩
      · obtain ⟨e, he⟩ := v.deserialize_unreadable (row.flatMap Value.serialize) hv (by omega)
        exact ⟨e, by simp only [he]⟩

theorem deserializeRow_unreadable {row : Row} (h : ¬row.Readable) (hlen : (serializeRow row).length < 2 ^ 64) :
    ∃ e, deserializeRow (serializeRow row) = .error (.Err e) := by
  have hle := length_le_flatMap_serialize row
  rw [serializeRow, List.length_append] at hlen
  have hpos := writeVarintU64_length_pos (UInt64.ofNat row.length)
  have hread := readVarintU64_write (UInt64.ofNat row.length) (row.flatMap Value.serialize)
  rw [UInt64.toNat_ofNat', Nat.mod_eq_of_lt (by omega)] at hread
  have hne : (serializeRow row).isEmpty = false := by
    rw [List.isEmpty_eq_false_iff, ← List.length_pos_iff, serializeRow, List.length_append]
    omega
  rw [deserializeRow, hne]
  simp only [serializeRow, Bool.false_eq_true, if_false, hread, bind, Except.bind]
  by_cases hcount : row.length ≤ MAX_COLUMNS
  · rw [if_neg (by omega)]
    have hvalue : ∃ v ∈ row, ¬v.Readable := by
      by_contra hall
      push Not at hall
      exact h ⟨hcount, hall⟩
    exact deserializeColumns_unreadable _ row hvalue (by omega)
  · rw [if_pos (by omega)]
    exact ⟨_, rfl⟩

end Rows

namespace Binlog

section Reading

variable {α β : Type} {read : List UInt8 → OptionT Res (α × Nat)} {data piece rest : List UInt8}
  {off : Nat} {a : α}

theorem lift_some_bind (a : α) (f : α → OptionT Res β) : (lift (some a) >>= f) = f a := rfl

theorem lift_none_bind (f : α → OptionT Res β) : (lift (none : Option α) >>= f) = lift none := rfl

theorem run_lift (x : Option α) : (lift x).run = .ok x := rfl

structure At (data : List UInt8) (off : Nat) (rest : List UInt8) : Prop where
  le : off ≤ data.length
  drop : data.drop off = rest

theorem At.next (h : At data off (piece ++ rest)) : At data (off + piece.length) rest := by
  have hlen := congrArg List.length h.drop
  rw [List.length_drop, List.length_append] at hlen
  have hle := h.le
  refine ⟨by omega, ?_⟩
  rw [← List.drop_drop, h.drop, List.drop_left]

theorem At.head {tag : UInt8} (h : At data off (tag :: rest)) : data[off]? = some tag := by
  rw [← List.head?_drop, h.drop, List.head?_cons]

theorem At.readAt_eq (h : At data off (piece ++ rest)) (hlen : data.length < 2 ^ 64)
    (hread : read (piece ++ rest) = lift (some (a, piece.length))) :
    readAt read data off = lift (some (a, off + piece.length)) := by
  have hle := h.le
  have hnext := h.next.le
  rw [readAt, sliceFrom, if_neg (by omega), lift_some_bind, h.drop, hread, lift_some_bind]
  simp only [advance]
  rw [if_neg (by omega), lift_some_bind]
  rfl

theorem At.readAt_none (h : At data off rest) (hread : read rest = lift none) : readAt read data off =
    lift none := by
  have hle := h.le
  rw [readAt, sliceFrom, if_neg (by omega), lift_some_bind, h.drop, hread, lift_none_bind]

end Reading

section Pieces

variable {data rest : List UInt8} {off : Nat}

theorem readVarint_write (v : UInt64) (rest : List UInt8) :
    readVarint (writeVarintU64 v ++ rest) = lift (some (v.toNat, (writeVarintU64 v).length)) := by
  rw [readVarint, readVarintU64_write, okOrNone]

theorem readBytes_write {bytes : List UInt8} (h : (writeBytes bytes).length < 2 ^ 64) (rest : List UInt8) :
    readBytes (writeBytes bytes ++ rest) = lift (some (bytes, (writeBytes bytes).length)) := by
  have hread := readVarint_write (UInt64.ofNat bytes.length) (bytes ++ rest)
  rw [writeBytes, List.length_append] at h
  rw [UInt64.toNat_ofNat', Nat.mod_eq_of_lt (by omega)] at hread
  rw [readBytes, writeBytes, List.append_assoc, hread, lift_some_bind]
  simp only [List.length_append]
  rw [if_neg (by omega), if_neg (by omega), List.drop_left, List.take_left]
  rfl

theorem readString_write {s : String} (h : (writeString s).length < 2 ^ 64) (rest : List UInt8) :
    readString (writeString s ++ rest) = lift (some (s, (writeString s).length)) := by
  rw [writeString] at h ⊢
  rw [readString, readParsed, readBytes_write h, lift_some_bind]
  simp only [fromUtf8_textBytes]
  rfl

theorem readRow_write {row : Row} (h : row.Readable) (hlen : (writeRow row).length < 2 ^ 64)
    (rest : List UInt8) :
    readRow (writeRow row ++ rest) = lift (some (row, (writeRow row).length)) := by
  rw [writeRow] at hlen ⊢
  rw [readRow, readParsed, readBytes_write hlen, lift_some_bind]
  simp only [deserializeRow_serializeRow row h]
  rfl

theorem readRow_unreadable {row : Row} (h : ¬row.Readable) (hlen : (writeRow row).length < 2 ^ 64)
    (rest : List UInt8) : readRow (writeRow row ++ rest) = lift none := by
  rw [writeRow] at hlen ⊢
  have hrow : (serializeRow row).length < 2 ^ 64 := by
    rw [writeBytes, List.length_append] at hlen
    omega
  obtain ⟨e, he⟩ := deserializeRow_unreadable h hrow
  rw [readRow, readParsed, readBytes_write hlen, lift_some_bind]
  simp only [he]
  rfl

variable (hlen : data.length < 2 ^ 64)

include hlen

theorem At.fits {piece : List UInt8} (h : At data off (piece ++ rest)) : piece.length < 2 ^ 64 := by
  have hnext := h.next.le
  omega

theorem At.varint {v : UInt64} (h : At data off (writeVarintU64 v ++ rest)) :
    readAt readVarint data off = lift (some (v.toNat, off + (writeVarintU64 v).length)) :=
  h.readAt_eq hlen (readVarint_write v rest)

theorem At.string {s : String} (h : At data off (writeString s ++ rest)) :
    readAt readString data off = lift (some (s, off + (writeString s).length)) :=
  h.readAt_eq hlen (readString_write (h.fits hlen) rest)

theorem At.row {row : Row} (h : At data off (writeRow row ++ rest)) (hrow : row.Readable) :
    readAt readRow data off = lift (some (row, off + (writeRow row).length)) :=
  h.readAt_eq hlen (readRow_write hrow (h.fits hlen) rest)

theorem At.noRow {row : Row} (h : At data off (writeRow row ++ rest)) (hrow : ¬row.Readable) :
    readAt readRow data off = lift none :=
  h.readAt_none (readRow_unreadable hrow (h.fits hlen) rest)

theorem At.step {tag : UInt8} (h : At data off (tag :: rest)) :
    advance off 1 = lift (some (off + 1)) ∧ At data (off + 1) rest := by
  have hsplit : At data off ([tag] ++ rest) := h
  have hnext := hsplit.next
  have hle := hnext.le
  rw [List.length_singleton] at hle hnext
  rw [advance, if_neg (by omega)]
  exact ⟨rfl, hnext⟩

end Pieces

namespace LogRecord

def rows : LogRecord → List Row
  | Insert _ _ _ row => [row]
  | Update _ _ _ oldRow newRow => [oldRow, newRow]
  | Delete _ _ _ (some row) => [row]
  | _ => []

def Readable (record : LogRecord) : Prop := ∀ row ∈ record.rows, row.Readable

section Located

variable {data rest : List UInt8} {pos off : Nat} {record : LogRecord}

theorem return_eq {stop : Nat} (h : off = stop) :
    (return (record, off) : OptionT Res (LogRecord × Nat)) = lift (some (record, stop)) := by
  rw [h]
  rfl

theorem deserialize_at {tag : UInt8} (hlen : data.length < 2 ^ 64) (h : At data pos (tag :: rest)) :
    deserialize data pos = deserializeBody tag data (pos + 1) := by
  rw [deserialize, h.head, lift_some_bind, (h.step hlen).1, lift_some_bind]

theorem deserialize_located (hrecord : record.Readable) (hlen : data.length < 2 ^ 64)
    (h : At data pos (record.serialize ++ rest)) :
    deserialize data pos = lift (some (record, pos + record.serialize.length)) := by
  unfold Readable at hrecord
  cases record with
  | Begin txid | Prepare txid | Commit txid | Rollback txid =>
      have hbody := (h.step hlen).2
      rw [deserialize_at hlen h]
      simp only [deserializeBody, reduceIte, hbody.varint hlen, lift_some_bind, UInt64.ofNat_toNat]
      exact return_eq (by simp only [serialize, List.length_cons]; omega)
  | Insert txid tableName rowid row =>
      simp only [serialize, List.cons_append, List.append_assoc] at h
      have htxid := (h.step hlen).2
      have hrow := htxid.next.next.next.row hlen (hrecord row (by simp [rows]))
      rw [deserialize_at hlen h]
      simp only [deserializeBody, reduceIte, htxid.varint hlen, htxid.next.string hlen,
        htxid.next.next.varint hlen,
        hrow, lift_some_bind, UInt64.ofNat_toNat, zigzagDecode_encode]
      exact return_eq (by simp only [serialize, List.length_cons, List.length_append]; omega)
  | Update txid tableName rowid oldRow newRow =>
      simp only [serialize, List.cons_append, List.append_assoc] at h
      have htxid := (h.step hlen).2
      have hold := htxid.next.next.next.row hlen (hrecord oldRow (by simp [rows]))
      have hnew := htxid.next.next.next.next.row hlen (hrecord newRow (by simp [rows]))
      rw [deserialize_at hlen h]
      simp only [deserializeBody, reduceIte, htxid.varint hlen, htxid.next.string hlen,
        htxid.next.next.varint hlen,
        hold, hnew, lift_some_bind, UInt64.ofNat_toNat, zigzagDecode_encode]
      exact return_eq (by simp only [serialize, List.length_cons, List.length_append]; omega)
  | Delete txid tableName rowid row =>
      simp only [serialize, List.cons_append, List.append_assoc] at h
      have htxid := (h.step hlen).2
      cases row with
      | none =>
          have hflag := htxid.next.next.next
          rw [deserialize_at hlen h]
          simp only [deserializeBody, reduceIte, htxid.varint hlen, htxid.next.string hlen,
            htxid.next.next.varint hlen, hflag.head, (hflag.step hlen).1, lift_some_bind, UInt64.ofNat_toNat,
            zigzagDecode_encode]
          exact return_eq (by simp only [serialize, List.length_cons, List.length_append, List.length_nil]; omega)
      | some row =>
          have hflag := htxid.next.next.next
          have hrow := (hflag.step hlen).2.row hlen (hrecord row (by simp [rows]))
          rw [deserialize_at hlen h]
          simp only [deserializeBody, reduceIte, htxid.varint hlen, htxid.next.string hlen,
            htxid.next.next.varint hlen, hflag.head, (hflag.step hlen).1, hrow, lift_some_bind,
              UInt64.ofNat_toNat,
            zigzagDecode_encode]
          exact return_eq (by simp only [serialize, List.length_cons, List.length_append]; omega)
  | Sql sql userId raftIndex =>
      simp only [serialize, List.cons_append, List.append_assoc] at h
      have hindex := (h.step hlen).2
      rw [deserialize_at hlen h]
      simp only [deserializeBody, reduceIte, hindex.varint hlen, hindex.next.string hlen,
        hindex.next.next.string hlen, lift_some_bind, UInt64.ofNat_toNat]
      exact return_eq (by simp only [serialize, List.length_cons, List.length_append]; omega)

theorem deserialize_unreadable (hrecord : ¬record.Readable) (hlen : data.length < 2 ^ 64)
    (h : At data pos (record.serialize ++ rest)) : deserialize data pos = lift none := by
  unfold Readable at hrecord
  cases record with
  | Begin txid | Prepare txid | Commit txid | Rollback txid => exact absurd (by simp [rows]) hrecord
  | Sql sql userId raftIndex => exact absurd (by simp [rows]) hrecord
  | Insert txid tableName rowid row =>
      simp only [rows, List.mem_singleton, forall_eq] at hrecord
      simp only [serialize, List.cons_append, List.append_assoc] at h
      have htxid := (h.step hlen).2
      have hrow := htxid.next.next.next.noRow hlen hrecord
      rw [deserialize_at hlen h]
      simp only [deserializeBody, reduceIte, htxid.varint hlen, htxid.next.string hlen,
        htxid.next.next.varint hlen,
        hrow, lift_some_bind, lift_none_bind]
      rfl
  | Update txid tableName rowid oldRow newRow =>
      simp only [serialize, List.cons_append, List.append_assoc] at h
      have htxid := (h.step hlen).2
      rw [deserialize_at hlen h]
      by_cases hold : oldRow.Readable
      · have hnew : ¬newRow.Readable := fun hnew => hrecord (by simp [rows, hold, hnew])
        have hfirst := htxid.next.next.next.row hlen hold
        have hrow := htxid.next.next.next.next.noRow hlen hnew
        simp only [deserializeBody, reduceIte, htxid.varint hlen, htxid.next.string hlen,
          htxid.next.next.varint hlen, hfirst, hrow, lift_some_bind, lift_none_bind]
        rfl
      · have hrow := htxid.next.next.next.noRow hlen hold
        simp only [deserializeBody, reduceIte, htxid.varint hlen, htxid.next.string hlen,
          htxid.next.next.varint hlen, hrow, lift_some_bind, lift_none_bind]
        rfl
  | Delete txid tableName rowid row =>
      cases row with
      | none => exact absurd (by simp [rows]) hrecord
      | some row =>
          simp only [rows, List.mem_singleton, forall_eq] at hrecord
          simp only [serialize, List.cons_append, List.append_assoc] at h
          have htxid := (h.step hlen).2
          have hflag := htxid.next.next.next
          have hrow := (hflag.step hlen).2.noRow hlen hrecord
          rw [deserialize_at hlen h]
          simp only [deserializeBody, reduceIte, htxid.varint hlen, htxid.next.string hlen,
            htxid.next.next.varint hlen, hflag.head, (hflag.step hlen).1, hrow, lift_some_bind, lift_none_bind]
          rfl

end Located

theorem at_serialize (record : LogRecord) : At record.serialize 0 (record.serialize ++ []) :=
  ⟨Nat.zero_le _, by rw [List.drop_zero, List.append_nil]⟩

theorem deserialize_payload {record : LogRecord} (h : record.Readable)
    (hlen : record.serialize.length < 2 ^ 64) :
    (deserialize record.serialize 0).run = .ok (some (record, record.serialize.length)) := by
  rw [deserialize_located h hlen record.at_serialize, Nat.zero_add, run_lift]

theorem deserialize_refused {record : LogRecord} (h : ¬record.Readable)
    (hlen : record.serialize.length < 2 ^ 64) :
    (deserialize record.serialize 0).run = .ok none := by
  rw [deserialize_unreadable h hlen record.at_serialize, run_lift]

end LogRecord

end Binlog

end Kkdb
