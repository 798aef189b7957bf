import Kkdb.Types.Row
import Kkdb.Lib.State

namespace Kkdb

open Lib Varint

def NoFault {α : Type} (x : Res α) : Prop := ∀ f, x = .error f → ∃ e, f = .Err e

section NoFault

variable {α β : Type} {x : Res α} {f : α → Res β}

theorem NoFault.ok (a : α) : NoFault (.ok a : Res α) := fun _ h => nomatch h

theorem NoFault.err (e : KkdbError) : NoFault (.error (.Err e) : Res α) := by
  intro f h
  exact ⟨e, (Except.error.inj h).symm⟩

theorem NoFault.corrupt (msg : String) : NoFault (.error (corrupt msg) : Res α) := .err _

theorem NoFault.bind (hx : NoFault x) (hf : ∀ a, x = .ok a → NoFault (f a)) : NoFault (x >>= f) := by
  cases x with
  | ok a => exact hf a rfl
  | error e =>
      intro e' h
      obtain rfl := Except.error.inj h
      exact hx e rfl

theorem NoFault.check {p : Prop} [Decidable p] {msg : String} (hx : ¬p → NoFault x) :
    NoFault (do
      if p then
        throw (Kkdb.corrupt msg)
      x) := by
  by_cases hp : p
  · rw [if_pos hp]
    exact .corrupt msg
  · rw [if_neg hp]
    exact hx hp

theorem ok_of_check {p : Prop} [Decidable p] {e : Fault} {b : α}
    (h : (do
      if p then
        throw e
      x) = .ok b) : ¬p ∧ x = .ok b := by
  by_cases hp : p
  · rw [if_pos hp] at h
    cases h
  · rw [if_neg hp] at h
    exact ⟨hp, h⟩

end NoFault

section Varints

variable {val shift consumed v c : Nat} {data : List UInt8}

theorem readGroups_noFault : NoFault (readGroups val shift consumed data) := by
  induction data generalizing val shift consumed with
  | nil => exact .corrupt _
  | cons byte rest ih =>
      rw [readGroups]
      split_ifs
      · exact .corrupt _
      · exact .ok _
      · exact .ok _
      · exact ih

theorem readGroups_consumed (h : readGroups val shift consumed data = .ok (v, c)) :
    consumed < c ∧ c ≤ consumed + data.length := by
  induction data generalizing val shift consumed with
  | nil => cases h
  | cons byte rest ih =>
      have hstop : ∀ w : Nat, (.ok (w, consumed + 1) : Res (Nat × Nat)) = .ok (v, c) →
          consumed < c ∧ c ≤ consumed + (byte :: rest).length := by
        intro w hw
        obtain ⟨-, rfl⟩ := Prod.mk.inj (Except.ok.inj hw)
        rw [List.length_cons]
        omega
      rw [readGroups] at h
      split_ifs at h
      · exact hstop _ h
      · exact hstop _ h
      · obtain ⟨hlo, hhi⟩ := ih h
        rw [List.length_cons]
        omega

theorem readVarintU64_consumed (h : readVarintU64 data = .ok (v, c)) : 0 < c ∧ c ≤ data.length := by
  have := readGroups_consumed h
  omega

end Varints

namespace Value

variable {kind : String} {data bytes : List UInt8} {v : Value} {c stop : Nat}

theorem deserializeBytes_noFault : NoFault (deserializeBytes kind data) := by
  refine NoFault.bind readGroups_noFault fun r _ => ?_
  exact NoFault.check fun _ => NoFault.check fun _ => .ok _

theorem deserialize_noFault (data : List UInt8) : NoFault (deserialize data) := by
  cases data with
  | nil => exact .corrupt _
  | cons tag rest =>
      rw [deserialize]
      split_ifs
      · exact .ok _
      · exact NoFault.bind readGroups_noFault fun r _ => .ok _
      · exact .corrupt _
      · exact .ok _
      · refine NoFault.bind deserializeBytes_noFault fun r _ => ?_
        obtain ⟨bytes, stop⟩ := r
        dsimp only
        cases fromUtf8 bytes with
        | none => exact .corrupt _
        | some s => exact .ok _
      · exact NoFault.bind deserializeBytes_noFault fun r _ => .ok _
      · exact .corrupt _

theorem deserializeBytes_spec (h : deserializeBytes kind data = .ok (bytes, stop)) :
    bytes.length ≤ MAX_VALUE_LEN ∧ stop ≤ data.length := by
  obtain ⟨⟨len, consumed⟩, -, hrest⟩ := ok_of_bind h
  obtain ⟨hlong, hrest⟩ := ok_of_check hrest
  obtain ⟨hshort, hrest⟩ := ok_of_check hrest
  obtain ⟨rfl, rfl⟩ := Prod.mk.inj (Except.ok.inj hrest)
  rw [List.length_take]
  omega

theorem textBytes_of_fromUtf8 {s : String} (h : fromUtf8 bytes = some s) : textBytes s = bytes := by
  unfold fromUtf8 String.fromUTF8? at h
  split_ifs at h
  obtain rfl := Option.some.inj h
  rfl

-- What is read is within the bytes and within the limits of the reader.
theorem deserialize_spec (h : deserialize data = .ok (v, c)) : v.Readable ∧ c ≤ data.length := by
  cases data with
  | nil => cases h
  | cons tag rest =>
      rw [deserialize] at h
      split_ifs at h with h0 h1 h2 hshort h3 h4
      · obtain ⟨rfl, rfl⟩ := Prod.mk.inj (Except.ok.inj h)
        exact ⟨trivial, by simp⟩
      · obtain ⟨r, hr, hrest⟩ := ok_of_bind h
        obtain ⟨rfl, rfl⟩ := Prod.mk.inj (Except.ok.inj hrest)
        have := (readVarintU64_consumed hr).2
        exact ⟨trivial, by rw [List.length_cons]; omega⟩
      · obtain ⟨rfl, rfl⟩ := Prod.mk.inj (Except.ok.inj h)
        exact ⟨trivial, by omega⟩
      · obtain ⟨⟨bytes, stop⟩, hr, hrest⟩ := ok_of_bind h
        obtain ⟨hlen, hstop⟩ := deserializeBytes_spec hr
        dsimp only at hrest
        cases hs : fromUtf8 bytes with
        | none =>
            rw [hs] at hrest
            cases hrest
        | some s =>
            rw [hs] at hrest
            obtain ⟨rfl, rfl⟩ := Prod.mk.inj (Except.ok.inj hrest)
            exact ⟨by rw [Readable, textBytes_of_fromUtf8 hs]; exact hlen, hstop⟩
      · obtain ⟨⟨bytes, stop⟩, hr, hrest⟩ := ok_of_bind h
        obtain ⟨hlen, hstop⟩ := deserializeBytes_spec hr
        obtain ⟨rfl, rfl⟩ := Prod.mk.inj (Except.ok.inj hrest)
        exact ⟨hlen, hstop⟩

theorem deserialize_serialize_iff (v : Value) (tail : List UInt8) :
    deserialize (v.serialize ++ tail) = .ok (v, v.serialize.length) ↔ v.Readable :=
  ⟨fun h => (deserialize_spec h).1, deserialize_serialize v tail⟩

end Value

section Rows

variable {data : List UInt8} {row : Row} {count offset : Nat}

-- The buffer is cleared, and every write goes behind what it holds.
def serializeRowInto (row : Row) (buf : List UInt8) : List UInt8 :=
  row.foldl (fun buf val => buf ++ val.serialize)
    (buf.take 0 ++ writeVarintU64 (UInt64.ofNat row.length))

theorem serializeRowInto_eq (row : Row) (buf : List UInt8) : serializeRowInto row buf = serializeRow row := by
  have hfold : ∀ (row : Row) (acc : List UInt8),
      row.foldl (fun buf val => buf ++ val.serialize) acc = acc ++ row.flatMap Value.serialize := by
    intro row
    induction row with
    | nil => exact fun acc => (List.append_nil acc).symm
    | cons val row ih =>
        intro acc
        rw [List.foldl_cons, ih, List.flatMap_cons, List.append_assoc]
  rw [serializeRowInto, hfold, List.take_zero, List.nil_append, serializeRow]

-- Every column starts within the bytes, so the slices of the loop are in range.
theorem deserializeColumns_noFault (h : offset ≤ data.length) :
    NoFault (deserializeColumns data count offset) := by
  induction count generalizing offset with
  | zero => exact .ok _
  | succ count ih =>
      rw [deserializeColumns, if_neg (by omega)]
      refine NoFault.bind (Value.deserialize_noFault _) fun r hr => ?_
      have hle := (Value.deserialize_spec hr).2
      rw [List.length_drop] at hle
      exact NoFault.bind (ih (by omega)) fun _ _ => .ok _

theorem deserializeRow_noFault (data : List UInt8) : NoFault (deserializeRow data) := by
  rw [deserializeRow]
  split_ifs
  · exact .corrupt _
  · refine NoFault.bind readGroups_noFault fun r hr => ?_
    exact NoFault.check fun _ => deserializeColumns_noFault (readVarintU64_consumed hr).2

theorem deserializeColumns_spec (h : deserializeColumns data count offset = .ok row) :
    row.length = count ∧ ∀ v ∈ row, v.Readable := by
  induction count generalizing offset row with
  | zero =>
      obtain rfl := Except.ok.inj h
      exact ⟨rfl, fun v hv => nomatch hv⟩
  | succ count ih =>
      rw [deserializeColumns] at h
      split_ifs at h
      obtain ⟨r, hr, hrest⟩ := ok_of_bind h
      obtain ⟨rest, hcols, hpure⟩ := ok_of_bind hrest
      obtain rfl := Except.ok.inj hpure
      obtain ⟨hlen, hall⟩ := ih hcols
      refine ⟨by rw [List.length_cons, hlen], fun v hv => ?_⟩
      rcases List.mem_cons.mp hv with rfl | hmem
      · exact (Value.deserialize_spec hr).1
      · exact hall v hmem

theorem deserializeRow_readable (h : deserializeRow data = .ok row) : row.Readable := by
  rw [deserializeRow] at h
  split_ifs at h
  obtain ⟨⟨colCount, offset⟩, -, hrest⟩ := ok_of_bind h
  obtain ⟨hfew, hcols⟩ := ok_of_check hrest
  obtain ⟨hlen, hall⟩ := deserializeColumns_spec hcols
  exact ⟨by omega, hall⟩

theorem deserializeRow_serializeRow_iff (row : Row) :
    deserializeRow (serializeRow row) = .ok row ↔ row.Readable :=
  ⟨deserializeRow_readable, deserializeRow_serializeRow row⟩

end Rows

end Kkdb
