import Kkdb.BTree.Table
import Kkdb.Types.Decode

namespace Kkdb

open Lib

namespace BTree

section Steps

variable [Lz4Flex] {t : Table} {leaves : List Leaf} {m : Rows} {rowid : Int64} {row : Row}

def TableOp.Placed (op : TableOp) (c : Table × Rows) : Prop :=
  match op with
  | Insert rowid row => Placeable c.1.pager c.1.root rowid row
  | InsertWithBuf rowid row _ => Placeable c.1.pager c.1.root rowid row
  | Delete _ => True
  | Update rowid row => Placeable (left (deleteByRowid c.1.root rowid) c.1.pager) c.1.root rowid row
  | UpdateWithBuf rowid row _ => Placeable (left (deleteByRowid c.1.root rowid) c.1.pager) c.1.root rowid row

instance placedDecidable (op : TableOp) (c : Table × Rows) : Decidable (op.Placed c) :=
  match op with
  | .Insert _ _ => inferInstanceAs (Decidable (Placeable _ _ _ _))
  | .InsertWithBuf _ _ _ => inferInstanceAs (Decidable (Placeable _ _ _ _))
  | .Delete _ => instDecidableTrue
  | .Update _ _ => inferInstanceAs (Decidable (Placeable _ _ _ _))
  | .UpdateWithBuf _ _ _ => inferInstanceAs (Decidable (Placeable _ _ _ _))

def Carrying (c : Table × Rows) : Prop := ∃ leaves, Planted c.1 leaves ∧ Carries leaves c.2

theorem insert_carrying (h : Planted t leaves) (hC : Carries leaves m)
    (hplace : Placeable t.pager t.root rowid row) :
    Carrying (t.after (insertPayload t.root rowid (serializeRow row)),
      if (m rowid).isSome then m else Function.update m rowid (some row)) := by
  cases hm : m rowid with
  | none =>
      obtain ⟨root, s, leaves', hok, hP', hC'⟩ := insert_carries h hC hm hplace
      rw [Table.after_ok hok]
      exact ⟨leaves', hP', hC'⟩
  | some old =>
      have hhas : Has leaves rowid := (hC.has_iff rowid).mpr (by rw [hm]; rfl)
      obtain ⟨H, total, hO, hT⟩ := h
      obtain ⟨hshort, hadmits⟩ := hplace
      rw [hO.total] at hadmits
      obtain ⟨s, hrun, H', total', hT', hO'⟩ := insertPayload_fails hO hT hhas hshort hadmits
      rw [Table.after_error hrun]
      exact ⟨leaves, ⟨H', total', hO', hT'⟩, hC⟩

theorem update_carrying (h : Planted t leaves) (hC : Carries leaves m)
    (hplace : Placeable (left (deleteByRowid t.root rowid) t.pager) t.root rowid row) :
    Carrying (t.after (updateRow t.root rowid row), Function.update m rowid (some row)) := by
  obtain ⟨s, hok, hP⟩ := delete_placed rowid h
  rw [left_ok hok] at hplace
  obtain ⟨root, s', leaves', hok', hP', hC'⟩ :=
    insert_carries (t := ⟨s, t.root⟩) hP (hC.erase rowid) (Function.update_self _ _ _) hplace
  have hrun : updateRow t.root rowid row t.pager = .ok root s' := (bind_ok hok).trans hok'
  rw [Function.update_idem] at hC'
  rw [Table.after_ok hrun]
  exact ⟨leaves', hP', hC'⟩

theorem TableOp.step_carrying {op : TableOp} {c : Table × Rows} (h : Carrying c) (hop : op.Placed c) :
    Carrying (op.step c) := by
  obtain ⟨leaves, hP, hC⟩ := h
  cases op with
  | Insert rowid row => exact insert_carrying hP hC hop
  | InsertWithBuf rowid row buf => exact insert_carrying hP hC hop
  | Delete rowid =>
      obtain ⟨s, hok, hP'⟩ := delete_placed rowid hP
      have hrun : (TableOp.Delete rowid).call c.1.root c.1.pager = .ok c.1.root s := bind_ok hok
      rw [TableOp.step, Table.after_ok hrun]
      exact ⟨_, hP', hC.erase rowid⟩
  | Update rowid row => exact update_carrying hP hC hop
  | UpdateWithBuf rowid row buf => exact update_carrying hP hC hop

theorem run_carrying {base : Nat} {l : Pager.Ledger} {s : Pager} (ops : List TableOp)
    (hs : Pager.Ready base s l) (hwal : s.wal = none) (hroom : s.header.totalPages < MAX_PAGES)
    (hops : Meets TableOp.step TableOp.Placed ops (Table.start s)) :
    Carrying (run TableOp.step ops (Table.start s)) := by
  have hstart : Carrying (Table.start s) := by
    obtain ⟨leaves, hP, hS⟩ := start_holding hs hwal hroom
    exact ⟨leaves, hP, hS.carries⟩
  exact run_invariant Carrying hstart (fun _ _ h hop => TableOp.step_carrying h hop) hops

end Steps

section Find

variable [Lz4Flex] {fuel page root : Nat} {s s' : Pager} {rowid found : Int64} {row : Row}

theorem find_readable (h : find fuel page rowid s = .ok (some (found, row)) s') : row.Readable := by
  induction fuel generalizing page s with
  | zero => cases h
  | succ fuel ih =>
      rw [find] at h
      obtain ⟨pg, s₁, -, h⟩ := ok_of_bind_state h
      split_ifs at h
      · obtain ⟨place, s₂, -, h⟩ := ok_of_bind_state h
        cases place with
        | none => cases h
        | some place =>
            obtain ⟨pg', s₃, -, h⟩ := ok_of_bind_state h
            obtain ⟨payload, s₄, -, h⟩ := ok_of_bind_state h
            obtain ⟨row', s₅, hrow, h⟩ := ok_of_bind_state h
            obtain ⟨-, rfl⟩ := Prod.mk.inj (Option.some.inj (EStateM.Result.ok.inj h).1)
            cases hread : deserializeRow payload with
            | ok read =>
                rw [hread] at hrow
                obtain ⟨rfl, -⟩ := EStateM.Result.ok.inj hrow
                exact deserializeRow_readable hread
            | error e =>
                rw [hread] at hrow
                cases hrow
      · obtain ⟨child, s₂, -, h⟩ := ok_of_bind_state h
        exact ih h
      · cases h

theorem findByRowid_readable (h : findByRowid root rowid s = .ok (some (found, row)) s') : row.Readable := by
  obtain ⟨fuel, s₁, -, h⟩ := ok_of_bind_state h
  exact find_readable h

variable {t : Table} {m : Rows}

-- A row of the table is found exactly when the reader takes it.
theorem find_iff_readable (h : Carrying (t, m)) (hm : m rowid = some row) :
    Returns (findByRowid t.root rowid) t.pager (some (rowid, row)) ↔ row.Readable := by
  constructor
  · rintro ⟨s', hok⟩
    exact findByRowid_readable hok
  · intro hread
    obtain ⟨leaves, ⟨H, total, hO, hT⟩, hC⟩ := h
    obtain ⟨c, hc, rfl⟩ := hC.row rowid row hm
    obtain ⟨row', hm', hpayload⟩ := hC.cell c hc
    simp only at hm hm'
    obtain rfl : row' = row := Option.some.inj (hm'.symm.trans hm)
    have hok := deserializeRow_serializeRow row' hread
    rw [← hpayload] at hok
    obtain ⟨hwhole, hrow⟩ := Cell.whole_of_ok hok
    rw [← hrow]
    exact returns_of_yields (findByRowid_present hO hT hc hwhole) fun _ _ hq => hq.1

end Find

section RoundTrip

variable [Lz4Flex]

-- What the writers of values and rows give is read back, from the bytes and from the table, exactly
-- when the reader's limits admit it; and no bytes make the reader fault.
theorem row_format_readable :
    (∀ row : Row, deserializeRow (serializeRow row) = .ok row ↔ row.Readable) ∧
    (∀ (row : Row) (buf : List UInt8), serializeRowInto row buf = serializeRow row) ∧
    (∀ (v : Value) (tail : List UInt8),
      Value.deserialize (v.serialize ++ tail) = .ok (v, v.serialize.length) ↔ v.Readable) ∧
    (∀ data : List UInt8, NoFault (deserializeRow data)) ∧
    ∀ (base : Nat) (l : Pager.Ledger) (s : Pager) (ops : List TableOp), Pager.Ready base s l → s.wal = none →
      s.header.totalPages < MAX_PAGES → Meets TableOp.step TableOp.Placed ops (Table.start s) →
      ∀ rowid row, (run TableOp.step ops (Table.start s)).2 rowid = some row →
        (Returns (findByRowid (run TableOp.step ops (Table.start s)).1.root rowid)
          (run TableOp.step ops (Table.start s)).1.pager (some (rowid, row)) ↔ row.Readable) := by
  refine ⟨deserializeRow_serializeRow_iff, serializeRowInto_eq, Value.deserialize_serialize_iff,
    deserializeRow_noFault, ?_⟩
  intro base l s ops hs hwal hroom hops rowid row hm
  exact find_iff_readable (run_carrying ops hs hwal hroom hops) hm

end RoundTrip

section Samples

attribute [local instance] Lz4Flex.incompressible

def wideRow : Row := List.replicate 4097 .Null

set_option maxRecDepth 10000 in
theorem wideRow_placed :
    Meets TableOp.step TableOp.Placed [.Insert 1 wideRow] (Table.start (Pager.openMemory Buf.zero)) := by
  decide +kernel

theorem row_format_readable_wide :
    Returns (findByRowid (run TableOp.step [.Insert 1 wideRow]
      (Table.start (Pager.openMemory Buf.zero))).1.root 1)
      (run TableOp.step [.Insert 1 wideRow] (Table.start (Pager.openMemory Buf.zero))).1.pager
        (some (1, wideRow)) ↔ wideRow.Readable :=
  row_format_readable.2.2.2.2 _ _ _ [.Insert 1 wideRow] (Pager.ready_openMemory Buf.zero) rfl (by decide)
    wideRow_placed 1 wideRow rfl

set_option maxRecDepth 10000 in
theorem wideRow_accepted : accepts (Table.created (Pager.openMemory Buf.zero)) 1 wideRow = true := by
  decide +kernel

theorem wideRow_not_readable : ¬wideRow.Readable := by
  intro h
  have hlen : wideRow.length = 4097 := List.length_replicate
  have := h.1
  rw [hlen] at this
  exact absurd this (by decide)

theorem wideRow_not_read_back :
    Meets TableOp.step TableOp.Placed [.Insert 1 wideRow] (Table.start (Pager.openMemory Buf.zero)) ∧
    (∃ root s', insert (Table.created (Pager.openMemory Buf.zero)).root 1 wideRow
      (Table.created (Pager.openMemory Buf.zero)).pager = .ok root s') ∧
    (run TableOp.step [.Insert 1 wideRow] (Table.start (Pager.openMemory Buf.zero))).2 1 = some wideRow ∧
    ¬Returns (findByRowid (run TableOp.step [.Insert 1 wideRow]
      (Table.start (Pager.openMemory Buf.zero))).1.root 1)
      (run TableOp.step [.Insert 1 wideRow] (Table.start (Pager.openMemory Buf.zero))).1.pager
        (some (1, wideRow)) := by
  refine ⟨wideRow_placed, ok_of_accepts wideRow_accepted, rfl, ?_⟩
  rintro ⟨s', hok⟩
  exact wideRow_not_readable (findByRowid_readable hok)

end Samples

end BTree

end Kkdb
