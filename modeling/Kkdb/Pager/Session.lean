import Kkdb.Pager.Reopen

namespace Kkdb

open Lib

namespace Pager

-- A copy of the superblock kept in memory belongs to the slot it was read from, as
-- long as it is of the generation on the disk.
def SameSlot (disk : SuperblockV2) (slot : SuperblockSlot) (sb : SuperblockV2)
    (copySlot : SuperblockSlot) : Prop :=
  sb.generation = disk.generation → copySlot = slot ∧ sb.identity = disk.identity

-- A copy that a rollback may bring back.
structure Carried (disk : SuperblockV2) (slot : SuperblockSlot) (sb : SuperblockV2)
    (copySlot : SuperblockSlot) (total : Nat) : Prop where
  same : SameSlot disk slot sb copySlot
  roots : sb.Rooted
  total : total < 2 ^ 32

-- A pager without a WAL over a file whose newest superblock is `disk`.
structure Session (f : DbFile) (disk : SuperblockV2) (slot : SuperblockSlot) (s : Pager) : Prop where
  file : s.file = some f
  wal : s.wal = none
  lz4 : s.useLz4 = decide (disk.flags % 2 = 1)
  active : SameSlot disk slot s.cow.activeSuperblock s.cow.activeSlot
  bounded : s.Bounded
  snapshot : ∀ snap, s.txnSnapshot = some snap →
    Carried disk slot snap.cowSuperblock snap.cowSlot snap.header.totalPages
  markers : ∀ m ∈ s.savepointStack, Carried disk slot m.cowSuperblock m.cowSlot m.header.totalPages
  target : ∀ tx, s.cow.activeTx = some tx → tx.targetGeneration = saturatingSucc tx.baseGeneration

section Steps

variable {f : DbFile} {disk : SuperblockV2} {slot : SuperblockSlot} {s s' : Pager}

theorem Kept.snapshot (h : Kept s s') {snap' : TxnSnapshot} (hsnap : s'.txnSnapshot = some snap') :
    ∃ snap, s.txnSnapshot = some snap ∧ snap'.header = snap.header ∧
      snap'.cowSuperblock = snap.cowSuperblock ∧ snap'.cowSlot = snap.cowSlot := by
  have hmap := congrArg Held.snapshot h.held
  simp only [Pager.held, hsnap, Option.map_some] at hmap
  obtain ⟨snap, hs, heq⟩ := Option.map_eq_some_iff.mp hmap.symm
  exact ⟨snap, hs, (congrArg TxnSnapshot.header heq).symm,
    (congrArg TxnSnapshot.cowSuperblock heq).symm, (congrArg TxnSnapshot.cowSlot heq).symm⟩

theorem Kept.generations (h : Kept s s') {tx' : CowTxnState} (htx : s'.cow.activeTx = some tx') :
    ∃ tx, s.cow.activeTx = some tx ∧ tx'.baseGeneration = tx.baseGeneration ∧
      tx'.targetGeneration = tx.targetGeneration := by
  have hmap := congrArg Held.generations h.held
  simp only [Pager.held, htx, Option.map_some] at hmap
  obtain ⟨tx, hs, heq⟩ := Option.map_eq_some_iff.mp hmap.symm
  exact ⟨tx, hs, (congrArg Prod.fst heq).symm, (congrArg Prod.snd heq).symm⟩

theorem Session.kept (hs : Session f disk slot s) (h : Kept s s') : Session f disk slot s' where
  file := (congrArg Held.file h.held).trans hs.file
  wal := (congrArg Held.wal h.held).trans hs.wal
  lz4 := (congrArg Held.useLz4 h.held).trans hs.lz4
  active := fun hgen => by
    have hid : s'.cow.activeSuperblock.identity = s.cow.activeSuperblock.identity :=
      congrArg Held.identity h.held
    obtain ⟨hslot, hsame⟩ := hs.active ((congrArg Identity.generation hid).symm.trans hgen)
    exact ⟨(congrArg Held.activeSlot h.held).trans hslot, hid.trans hsame⟩
  bounded := h.bounded hs.bounded
  snapshot := fun snap' hsnap' => by
    obtain ⟨snap, hsnap, hheader, hsb, hslot⟩ := h.snapshot hsnap'
    rw [hheader, hsb, hslot]
    exact hs.snapshot snap hsnap
  markers := by
    rw [show s'.savepointStack = s.savepointStack from congrArg Held.savepointStack h.held]
    exact hs.markers
  target := fun tx' htx' => by
    obtain ⟨tx, htx, hbase, htarget⟩ := h.generations htx'
    rw [hbase, htarget]
    exact hs.target tx htx

theorem Session.restack (hs : Session f disk slot s) {stack : List SavepointMarker}
    (hstack : ∀ m ∈ stack, Carried disk slot m.cowSuperblock m.cowSlot m.header.totalPages) :
    Session f disk slot { s with savepointStack := stack } :=
  ⟨hs.file, hs.wal, hs.lz4, hs.active,
    ⟨hs.bounded.total, hs.bounded.roots, hs.bounded.freed, hs.bounded.tracked⟩, hs.snapshot, hstack,
    hs.target⟩

theorem Session.carried (hs : Session f disk slot s) :
    Carried disk slot s.cow.activeSuperblock s.cow.activeSlot s.header.totalPages :=
  ⟨hs.active, hs.bounded.roots, hs.bounded.total⟩

theorem Session.start (hs : Session f disk slot s) : Session f disk slot s.startTransaction where
  file := hs.file
  wal := hs.wal
  lz4 := hs.lz4
  active := hs.active
  bounded := by
    refine ⟨hs.bounded.total, hs.bounded.roots, fun tx p htx hp => ?_, hs.bounded.tracked⟩
    obtain rfl := Option.some.inj htx
    cases hp
  snapshot := fun snap hsnap => by
    obtain rfl := Option.some.inj hsnap
    exact hs.carried
  markers := hs.markers
  target := fun tx htx => by
    obtain rfl := Option.some.inj htx
    rfl

theorem Session.push (hs : Session f disk slot s) (name : String) :
    Session f disk slot (s.pushSavepoint name) := by
  refine hs.restack fun m hm => ?_
  rcases List.mem_append.mp hm with h | h
  · exact hs.markers m (List.mem_of_mem_filter h)
  · obtain rfl := List.mem_singleton.mp h
    exact hs.carried

theorem Session.restore (hs : Session f disk slot s) {m : SavepointMarker}
    (hm : Carried disk slot m.cowSuperblock m.cowSlot m.header.totalPages) :
    Session f disk slot (restoreMarker m s) where
  file := hs.file
  wal := hs.wal
  lz4 := hs.lz4
  active := hm.same
  bounded := ⟨hm.total, hm.roots, hs.bounded.freed,
    fun p hp => hs.bounded.tracked p (List.mem_of_mem_filter hp)⟩
  snapshot := fun snap hsnap => by
    obtain ⟨snap₀, -, rfl⟩ := Option.map_eq_some_iff.mp hsnap
    exact hm
  markers := hs.markers
  target := hs.target

theorem Session.rollback (hs : Session f disk slot s) :
    Session f disk slot (left rollbackTransaction s) := by
  have hstack : Session f disk slot { s with savepointStack := [], wal := s.wal.map Wal.rollback } := by
    rw [hs.wal]
    exact ⟨hs.file, rfl, hs.lz4, hs.active,
      ⟨hs.bounded.total, hs.bounded.roots, hs.bounded.freed, hs.bounded.tracked⟩, hs.snapshot,
      fun m hm => (nomatch hm), hs.target⟩
  cases hsnap : s.txnSnapshot with
  | none =>
      rw [left_ok (rollbackTransaction_idle hsnap)]
      exact ⟨hstack.file, hstack.wal, hstack.lz4, hstack.active,
        ⟨hstack.bounded.total, hstack.bounded.roots, fun tx p htx => (nomatch htx),
          hstack.bounded.tracked⟩, hstack.snapshot, hstack.markers, fun tx htx => (nomatch htx)⟩
  | some snap =>
      rw [left_ok (rollbackTransaction_eq hsnap)]
      have hcarried := hs.snapshot snap hsnap
      exact ⟨hstack.file, hstack.wal, hstack.lz4, hcarried.same,
        ⟨hcarried.total, hcarried.roots, fun tx p htx => (nomatch htx), fun p hp => (nomatch hp)⟩,
        fun snap hsnap => (nomatch hsnap), hstack.markers, fun tx htx => (nomatch htx)⟩

theorem left_savepoint_idle (h : s.cow.activeTx = none) (name : String) :
    left (savepoint name) s = s.startTransaction.pushSavepoint name := by
  have hin : s.inTransaction = false := by rw [inTransaction, h]; rfl
  have hrun : savepoint name s = .ok () (s.startTransaction.pushSavepoint name) := by
    unfold savepoint
    rw [get_bind, if_pos hin, bind_ok (beginTransaction_eq h)]
    rfl
  exact left_ok hrun

variable [Lz4Flex]

theorem TxnOp.step_kept (op : TxnOp) (hop : op.IsPageOp) (hs : s.Bounded) : Kept s (op.step s) := by
  cases op with
  | GetPage p => exact (getPage_rebuffered p s).kept
  | Write p g => exact writePage_kept p g s
  | AllocatePage => exact allocatePage_kept s
  | FreePage p => exact freePage_kept p s hs.total
  | Savepoint name => exact hop.elim
  | ReleaseSavepoint name => exact hop.elim
  | RollbackToSavepoint name => exact hop.elim

theorem Session.step (hs : Session f disk slot s) (op : TxnOp) :
    Session f disk slot (op.step s) := by
  cases op with
  | GetPage p => exact hs.kept (TxnOp.step_kept _ trivial hs.bounded)
  | Write p g => exact hs.kept (TxnOp.step_kept _ trivial hs.bounded)
  | AllocatePage => exact hs.kept (TxnOp.step_kept _ trivial hs.bounded)
  | FreePage p => exact hs.kept (TxnOp.step_kept _ trivial hs.bounded)
  | Savepoint name =>
      rw [TxnOp.step]
      cases htx : s.cow.activeTx with
      | none =>
          rw [left_savepoint_idle htx]
          exact hs.start.push name
      | some tx =>
          rw [left_ok (savepoint_eq (by rw [htx]; rfl) name)]
          exact hs.push name
  | ReleaseSavepoint name =>
      obtain ⟨count, h⟩ := releaseSavepoint_eq s name
      rw [TxnOp.step, h]
      exact hs.restack (fun m hm => hs.markers m (List.mem_of_mem_take hm))
  | RollbackToSavepoint name =>
      rw [TxnOp.step]
      cases hfind : s.findMarker name with
      | none =>
          rw [rollbackToSavepoint_none hfind]
          exact hs
      | some m =>
          obtain ⟨count, hmem, h⟩ := rollbackToSavepoint_eq hfind
          rw [left_ok h]
          exact (hs.restack (fun m hm => hs.markers m (List.mem_of_mem_take hm))).restore
            (hs.markers m hmem)

theorem TxnOp.step_generations (op : TxnOp) (hs : s.Bounded) (h : s.cow.activeTx.isSome = true) :
    (op.step s).held.generations = s.held.generations := by
  cases op with
  | GetPage p => exact congrArg Held.generations (TxnOp.step_kept (.GetPage p) trivial hs).held
  | Write p g => exact congrArg Held.generations (TxnOp.step_kept (.Write p g) trivial hs).held
  | AllocatePage => exact congrArg Held.generations (TxnOp.step_kept .AllocatePage trivial hs).held
  | FreePage p => exact congrArg Held.generations (TxnOp.step_kept (.FreePage p) trivial hs).held
  | Savepoint name =>
      rw [TxnOp.step, left_ok (savepoint_eq h name)]
      rfl
  | ReleaseSavepoint name =>
      obtain ⟨count, h⟩ := releaseSavepoint_eq s name
      rw [TxnOp.step, h]
      rfl
  | RollbackToSavepoint name =>
      rw [TxnOp.step]
      cases hfind : s.findMarker name with
      | none => rw [rollbackToSavepoint_none hfind]
      | some m =>
          obtain ⟨count, -, h⟩ := rollbackToSavepoint_eq hfind
          rw [left_ok h]
          rfl

end Steps

structure Rested (f : DbFile) (disk : SuperblockV2) (s : Pager) : Prop where
  session : Session f disk s.cow.activeSlot s
  slot : ActiveSlot f disk s.cow.activeSlot
  identity : s.cow.activeSuperblock.identity = disk.identity
  idle : s.cow.activeTx = none

theorem ActiveSlot.valid {f : DbFile} {sb : SuperblockV2} {slot : SuperblockSlot}
    (h : ActiveSlot f sb slot) : sb.Valid := by
  have hread := h.active
  unfold readSuperblockV2 at hread
  cases hpage : f.readPage slot.pageNum with
  | none => rw [hpage] at hread; cases hread
  | some data =>
      rw [hpage] at hread
      exact SuperblockV2.valid_of_deserialize hread

theorem rested_opened {f : DbFile} {sb : SuperblockV2} {slot : SuperblockSlot}
    (h : ActiveSlot f sb slot) (max : Nat) :
    Rested f sb { fromSuperblock f sb slot with maxBufferPages := max } where
  session := {
    file := rfl
    wal := rfl
    lz4 := rfl
    active := fun _ => ⟨rfl, rfl⟩
    bounded := ⟨h.valid.pageCount, ⟨h.valid.schemaRoot, h.valid.freeRoot, h.valid.pendingFreeRoot⟩,
      fun _ _ htx => (nomatch htx), fun _ hp => (nomatch hp)⟩
    snapshot := fun _ hsnap => (nomatch hsnap)
    markers := fun _ hm => (nomatch hm)
    target := fun _ htx => (nomatch htx) }
  slot := h
  identity := rfl
  idle := rfl

end Pager

end Kkdb
