import Kkdb.Pager.Crash

namespace Kkdb

open Lib

def PagerFailpoint.afterSuperblock : PagerFailpoint → Bool
  | .AfterSuperblockWrite | .AfterSuperblockSync => true
  | _ => false

namespace Pager

-- The calls of a session whose transaction is never committed. Dropping the VM is a
-- last flush.
inductive DraftOp where
  | Txn (op : TxnOp)
  | SetFailpoint (fp : Option PagerFailpoint)
  | Flush (nanos : Nat)
  | CommitTransaction
  | RollbackTransaction

theorem walCommit_none {s : Pager} (h : s.wal = none) : s.walCommit = s := by
  rw [walCommit, h, Option.map_none, ← h]

theorem bumpTxid_kept (s : Pager) : Kept s s.bumpTxid :=
  ⟨rfl, fun h => ⟨h.total, h.roots, h.freed, h.tracked⟩⟩

theorem autoCheckpoint_none {s : Pager} (nanos : Nat) (h : s.wal = none) :
    s.autoCheckpoint nanos = s := by
  rw [autoCheckpoint, h]

section Draft

variable [Lz4Flex] {begun f g : DbFile} {disk now : SuperblockV2} {slot : SuperblockSlot} {s s' : Pager}

def DraftOp.step : DraftOp → Pager → Pager
  | .Txn op => op.step
  | .SetFailpoint fp => setFailpoint fp
  | .Flush nanos => left (flush nanos)
  | .CommitTransaction => left commitTransaction
  | .RollbackTransaction => left rollbackTransaction

-- The dirty pages that existed at BEGIN would be written as they were then.
def Unrevealing (begun : DbFile) (disk : SuperblockV2) (s : Pager) : Prop :=
  ∀ p, 2 < p → p ≤ disk.pageCount → Written s.dirtyPages s p →
    s.slotRead p = diskRead s.useLz4 begun p

-- A flush or a failing commit writes no changed page and publishes no new one.
def DraftOp.Discreet (begun : DbFile) (disk : SuperblockV2) : DraftOp → Pager → Prop
  | .Txn (.RollbackToSavepoint name), s => ∀ m, s.findMarker name = some m →
      m.cowSuperblock.generation = s.cow.activeSuperblock.generation
  | .Txn _, _ => True
  | .SetFailpoint _, _ => True
  | .Flush _, s => Unrevealing begun disk s ∧
      (s.cow.activeTx = none → s.header.totalPages = disk.pageCount)
  | .CommitTransaction, s => Unrevealing begun disk s ∧ ∃ fp, s.failpoint = some fp ∧
      (fp.afterSuperblock = true → s.header.totalPages = disk.pageCount)
  | .RollbackTransaction, _ => True

structure Intact (begun : DbFile) (disk now : SuperblockV2) (slot : SuperblockSlot) (f : DbFile) :
    Prop where
  magic : (f.slot 1).slice 0 16 = COW_MAGIC
  active : readSuperblockV2 f slot.pageNum = .ok now
  count : now.pageCount = disk.pageCount
  uuid : now.dbUuid = disk.dbUuid
  flags : now.flags = disk.flags
  three : 3 ≤ disk.pageCount
  fits : disk.pageCount * PAGE_SIZE ≤ f.len
  other : ∀ o, readSuperblockV2 f slot.inactive.pageNum = .ok o →
    o.dbUuid.toList = disk.dbUuid.toList ∧
      (o.generation < now.generation ∨ o.pageCount = disk.pageCount ∧ o.flags = disk.flags)
  pages : ∀ p, 2 < p → p ≤ disk.pageCount →
    diskRead (disk.flags % 2 = 1) f p = diskRead (disk.flags % 2 = 1) begun p

theorem Intact.two_le (h : Intact begun disk now slot f) : 2 * PAGE_SIZE ≤ f.len :=
  Nat.le_trans (Nat.mul_le_mul_right _ (Nat.le_of_succ_le h.three)) h.fits

theorem Intact.opens (h : Intact begun disk now slot f) : ∃ r, openCowV2 f = .ok r ∧
    r.header.totalPages = disk.pageCount ∧
    ∀ p, 2 < p → p ≤ disk.pageCount → r.peek p = diskRead (disk.flags % 2 = 1) begun p := by
  have hfits : superblockFitsFile now f.len = true := by
    simp only [superblockFitsFile, decide_eq_true_eq, h.count]
    exact ⟨h.three, h.fits⟩
  have hshow : ∀ (sb : SuperblockV2) (σ : SuperblockSlot), sb.pageCount = disk.pageCount →
      sb.flags = disk.flags → (fromSuperblock f sb σ).header.totalPages = disk.pageCount ∧
      ∀ p, 2 < p → p ≤ disk.pageCount →
        (fromSuperblock f sb σ).peek p = diskRead (disk.flags % 2 = 1) begun p := by
    intro sb σ hcount hflags
    refine ⟨hcount, fun p hp hle => ?_⟩
    rw [peek_fromSuperblock, if_pos ⟨by omega, by rw [hcount]; exact hle⟩, hflags, h.pages p hp hle]
  cases hread : readSuperblockV2 f slot.inactive.pageNum with
  | error e => exact ⟨_, openCowV2_lone h.magic h.active hfits hread, hshow now slot h.count h.flags⟩
  | ok o =>
      obtain ⟨huuid, hother⟩ := h.other o hread
      have hopen := openCowV2_pair h.magic h.active hfits hread (by rw [huuid, h.uuid])
      split_ifs at hopen with hwins
      · rcases hother with hold | ⟨hcount, hflags⟩
        · -- an older superblock in the other slot does not win
          exfalso
          have hw := hwins.2
          cases slot with
          | A => exact absurd hold (Nat.not_lt_of_lt hw)
          | B => exact absurd hold (Nat.not_lt_of_le hw)
        · exact ⟨_, hopen, hshow o slot.inactive hcount hflags⟩
      · exact ⟨_, hopen, hshow now slot h.count h.flags⟩

theorem Intact.wrote (h : Intact begun disk now slot f) {nums : List Nat}
    (hlz : s.useLz4 = decide (disk.flags % 2 = 1)) (hg : Wrote nums s f g)
    (hone : ¬Written nums s 1) (htwo : ¬Written nums s 2)
    (hsame : ∀ p, 2 < p → p ≤ disk.pageCount → Written nums s p →
      s.slotRead p = diskRead s.useLz4 begun p) : Intact begun disk now slot g := by
  have hread : ∀ σ : SuperblockSlot, readSuperblockV2 g σ.pageNum = readSuperblockV2 f σ.pageNum := by
    intro σ
    have hf : σ.pageNum * PAGE_SIZE ≤ f.len := pageNum_fits σ h.two_le
    refine readSuperblockV2_congr ?_ hf (Nat.le_trans hf hg.len_le)
    cases σ with
    | A => exact hg.kept 1 (by omega) hone
    | B => exact hg.kept 2 (by omega) htwo
  refine ⟨by rw [hg.kept 1 (by omega) hone]; exact h.magic, by rw [hread]; exact h.active, h.count,
    h.uuid, h.flags, h.three, Nat.le_trans h.fits hg.len_le,
    fun o ho => h.other o (by rw [← hread]; exact ho), fun p hp hle => ?_⟩
  have hlen : p * PAGE_SIZE ≤ f.len := Nat.le_trans (Nat.mul_le_mul_right _ hle) h.fits
  rw [← hlz, hg.read (by omega) (Nat.le_trans hlen hg.len_le)]
  split_ifs with hw
  · exact hsame p hp hle hw
  · rw [← diskRead_of_le _ hlen, hlz]
    exact h.pages p hp hle

-- A superblock with the page count of BEGIN in the other slot does no harm.
theorem Intact.superblock {sb : SuperblockV2} (h : Intact begun disk now slot f) (hv : sb.Valid)
    (hcount : sb.pageCount = disk.pageCount) (huuid : sb.dbUuid = disk.dbUuid)
    (hflags : sb.flags = disk.flags) :
    Intact begun disk now slot (f.writePage slot.inactive.pageNum sb.serialize) := by
  have htwo := h.two_le
  refine ⟨magic_written sb h.magic, by rw [readSuperblockV2_kept sb slot htwo]; exact h.active,
    h.count, h.uuid, h.flags, h.three, by rw [len_superblock sb _ htwo]; exact h.fits,
    fun o ho => ?_, fun p hp hle => by rw [diskRead_superblock _ _ _ _ hp htwo]; exact h.pages p hp hle⟩
  rw [readSuperblockV2_written hv] at ho
  obtain rfl := Except.ok.inj ho
  rw [SuperblockV2.stamp_dbUuid, SuperblockV2.stamp_pageCount, SuperblockV2.stamp_flags]
  exact ⟨by rw [huuid], .inr ⟨hcount, hflags⟩⟩

theorem Intact.switch {sb : SuperblockV2} (h : Intact begun disk now slot f) (hv : sb.Valid)
    (hcount : sb.pageCount = disk.pageCount) (huuid : sb.dbUuid = disk.dbUuid)
    (hflags : sb.flags = disk.flags) :
    Intact begun disk sb.stamp slot.inactive (f.writePage slot.inactive.pageNum sb.serialize) := by
  have htwo := h.two_le
  refine ⟨magic_written sb h.magic, readSuperblockV2_written hv,
    by rw [SuperblockV2.stamp_pageCount, hcount], by rw [SuperblockV2.stamp_dbUuid, huuid],
    by rw [SuperblockV2.stamp_flags, hflags], h.three,
    by rw [len_superblock sb _ htwo]; exact h.fits, fun o ho => ?_,
    fun p hp hle => by rw [diskRead_superblock _ _ _ _ hp htwo]; exact h.pages p hp hle⟩
  rw [inactive_inactive, readSuperblockV2_kept sb slot htwo, h.active] at ho
  obtain rfl := Except.ok.inj ho
  exact ⟨by rw [h.uuid], .inr ⟨h.count, h.flags⟩⟩

-- The state of the session: its file shows the pages of BEGIN, and its superblock is
-- the active one of the file, also after a rollback.
structure Drafting (begun : DbFile) (disk : SuperblockV2) (f : DbFile) (now : SuperblockV2)
    (slot : SuperblockSlot) (s : Pager) : Prop where
  session : Session f now slot s
  intact : Intact begun disk now slot f
  generation : s.cow.activeSuperblock.generation = now.generation
  snapshot : ∀ snap, s.txnSnapshot = some snap → snap.cowSuperblock.generation = now.generation
  idle : s.cow.activeTx = none → s.txnSnapshot = none ∧ s.savepointStack = []

theorem Drafting.kept (h : Drafting begun disk f now slot s) (hk : Kept s s') :
    Drafting begun disk f now slot s' where
  session := h.session.kept hk
  intact := h.intact
  generation := (congrArg (fun k => k.identity.generation) hk.held).trans h.generation
  snapshot := fun snap' hsnap' => by
    obtain ⟨snap, hsnap, -, hsb, -⟩ := hk.snapshot hsnap'
    rw [hsb]
    exact h.snapshot snap hsnap
  idle := fun htx' => by
    have htx : s.cow.activeTx = none := by
      have hmap := congrArg Held.generations hk.held
      simp only [Pager.held, htx', Option.map_none] at hmap
      exact Option.map_eq_none_iff.mp hmap.symm
    obtain ⟨hsnap, hstack⟩ := h.idle htx
    refine ⟨?_, (congrArg Held.savepointStack hk.held).trans hstack⟩
    have hmap := congrArg Held.snapshot hk.held
    simp only [Pager.held, hsnap, Option.map_none] at hmap
    exact Option.map_eq_none_iff.mp hmap

theorem Drafting.active (h : Drafting begun disk f now slot s) :
    s.cow.activeSlot = slot ∧ s.cow.activeSuperblock.identity = now.identity :=
  h.session.active h.generation

theorem Drafting.txn (h : Drafting begun disk f now slot s) (op : TxnOp)
    (hop : DraftOp.Discreet begun disk (.Txn op) s) : Drafting begun disk f now slot (op.step s) := by
  have hsession := h.session.step op
  have hpage : op.IsPageOp → Drafting begun disk f now slot (op.step s) := fun hp =>
    h.kept (op.step_kept hp h.session.bounded)
  cases op with
  | GetPage p => exact hpage trivial
  | Write p data => exact hpage trivial
  | AllocatePage => exact hpage trivial
  | FreePage p => exact hpage trivial
  | Savepoint name =>
      rw [TxnOp.step] at hsession ⊢
      cases htx : s.cow.activeTx with
      | none =>
          rw [left_savepoint_idle htx] at hsession ⊢
          refine ⟨hsession, h.intact, h.generation, fun snap hsnap => ?_, fun htx' => (by cases htx')⟩
          obtain rfl := Option.some.inj hsnap
          exact h.generation
      | some tx =>
          rw [left_ok (savepoint_eq (by rw [htx]; rfl) name)] at hsession ⊢
          refine ⟨hsession, h.intact, h.generation, h.snapshot, fun htx' => ?_⟩
          have hnone : s.cow.activeTx = none := htx'
          rw [htx] at hnone
          cases hnone
  | ReleaseSavepoint name =>
      obtain ⟨count, hrun⟩ := releaseSavepoint_eq s name
      rw [TxnOp.step, hrun] at hsession ⊢
      refine ⟨hsession, h.intact, h.generation, h.snapshot, fun htx' => ?_⟩
      obtain ⟨hsnap, hstack⟩ := h.idle htx'
      refine ⟨hsnap, ?_⟩
      show s.savepointStack.take count = []
      rw [hstack, List.take_nil]
  | RollbackToSavepoint name =>
      rw [TxnOp.step] at hsession ⊢
      cases hfind : s.findMarker name with
      | none =>
          rw [rollbackToSavepoint_none hfind]
          exact h
      | some m =>
          obtain ⟨count, hmem, hrun⟩ := rollbackToSavepoint_eq hfind
          rw [left_ok hrun] at hsession ⊢
          have hgen : m.cowSuperblock.generation = now.generation := (hop m hfind).trans h.generation
          refine ⟨hsession, h.intact, hgen, fun snap hsnap => ?_, fun htx' => ?_⟩
          · obtain ⟨snap₀, -, rfl⟩ := Option.map_eq_some_iff.mp hsnap
            exact hgen
          · obtain ⟨-, hstack⟩ := h.idle htx'
            rw [hstack] at hmem
            cases hmem

theorem Drafting.dataPages (h : Drafting begun disk f now slot s)
    (hone : (s.page 1).dirty = false) (htwo : (s.page 2).dirty = false)
    (hun : Unrevealing begun disk s) : ∃ g pages, s.dataPages s.dirtyPages.length =
      { s with file := some g, pages := pages, dirtyPages := [] } ∧
      Drafting begun disk g now slot { s with file := some g, pages := pages, dirtyPages := [] } := by
  obtain ⟨g, pages, hrun, hg⟩ := foldl_writeDirtyPage (s := { s with dirtyPages := [] }) (f := f)
    s.dirtyPages h.session.wal h.session.file h.session.bounded.tracked
  have hwrote : Wrote s.dirtyPages s f g := ⟨hg.slot, hg.kept, hg.len⟩
  have hw := h.session.wal
  refine ⟨g, pages, ?_, ⟨⟨rfl, hw, h.session.lz4, h.session.active, ⟨h.session.bounded.total,
    h.session.bounded.roots, h.session.bounded.freed, fun p hp => (nomatch hp)⟩, h.session.snapshot,
    h.session.markers, h.session.target⟩, ?_, h.generation, h.snapshot, h.idle⟩⟩
  · rw [Pager.dataPages, List.take_length, hrun]
  · refine h.intact.wrote ?_ hwrote (fun hw => ?_) (fun hw => ?_) hun
    · rw [h.session.lz4, h.intact.flags]
    · rw [Written, hone] at hw
      exact Bool.noConfusion hw.2.2
    · rw [Written, htwo] at hw
      exact Bool.noConfusion hw.2.2

theorem Drafting.next (h : Drafting begun disk f now slot s) {generation : Nat}
    (hgen : generation ≤ U64_MAX) (htotal : s.header.totalPages = disk.pageCount) :
    (s.nextSuperblock generation).Valid ∧
      (s.nextSuperblock generation).pageCount = disk.pageCount ∧
      (s.nextSuperblock generation).dbUuid = disk.dbUuid ∧
      (s.nextSuperblock generation).flags = disk.flags := by
  obtain ⟨-, hid⟩ := h.active
  have hnow : now.Valid := by
    have hread := h.intact.active
    unfold readSuperblockV2 at hread
    cases hpage : f.readPage slot.pageNum with
    | none => rw [hpage] at hread; cases hread
    | some data =>
        rw [hpage] at hread
        exact SuperblockV2.valid_of_deserialize hread
  exact ⟨SuperblockV2.Valid.of_identity hid hnow h.session.bounded.roots hgen h.session.bounded.total,
    htotal, (congrArg Identity.dbUuid hid).trans h.intact.uuid,
    (congrArg Identity.flags hid).trans h.intact.flags⟩

theorem Drafting.refile (h : Drafting begun disk f now slot s) (hg : Intact begun disk now slot g) :
    Drafting begun disk g now slot { s with file := some g } :=
  ⟨⟨rfl, h.session.wal, h.session.lz4, h.session.active,
    ⟨h.session.bounded.total, h.session.bounded.roots, h.session.bounded.freed,
      h.session.bounded.tracked⟩, h.session.snapshot, h.session.markers, h.session.target⟩,
    hg, h.generation, h.snapshot, h.idle⟩

theorem Drafting.persist_fails (h : Drafting begun disk f now slot s) {generation : Nat}
    (hgen : generation ≤ U64_MAX) {fp : PagerFailpoint} (hfp : s.failpoint = some fp)
    (htotal : fp.afterSuperblock = true → s.header.totalPages = disk.pageCount)
    (hun : Unrevealing begun disk s) :
    ∃ e s' g, persist s.cow.activeSlot.inactive (s.nextSuperblock generation) s = .error e s' ∧
      Drafting begun disk g now slot s' := by
  by_cases hclean : (s.page 1).dirty = false ∧ (s.page 2).dirty = false
  swap
  · obtain ⟨e, he⟩ := persist_reserved s.cow.activeSlot.inactive (s.nextSuperblock generation) hclean
    exact ⟨e, s, f, he, h⟩
  obtain ⟨g, pages, hdata, hd⟩ := h.dataPages hclean.1 hclean.2 hun
  have hwritten : s.dataWritten = { s with file := some g, pages := pages, dirtyPages := [] } := by
    rw [dataWritten, hdata]
    exact walCommit_none h.session.wal
  have hpersist := persist_clean s.cow.activeSlot.inactive (s.nextSuperblock generation)
    hclean.1 hclean.2
  rw [hfp] at hpersist
  have hsuper : fp.afterSuperblock = true → ∃ g', Drafting begun disk g' now slot
      (s.dataWritten.writeV2Superblock s.cow.activeSlot.inactive (s.nextSuperblock generation)) := by
    intro hafter
    obtain ⟨hv, hcount, huuid, hflags⟩ := h.next hgen (htotal hafter)
    rw [hwritten, h.active.1]
    exact ⟨_, hd.refile (hd.intact.superblock hv hcount huuid hflags)⟩
  cases fp with
  | AfterDataPagesWrite =>
      obtain ⟨e, he⟩ := hpersist
      exact ⟨e, _, g, he, by rw [hwritten]; exact hd⟩
  | AfterDataPagesSync =>
      obtain ⟨e, he⟩ := hpersist
      exact ⟨e, _, g, he, by rw [hwritten]; exact hd⟩
  | AfterSuperblockWrite =>
      obtain ⟨e, he⟩ := hpersist
      obtain ⟨g', hg'⟩ := hsuper rfl
      exact ⟨e, _, g', he, hg'⟩
  | AfterSuperblockSync =>
      obtain ⟨e, he⟩ := hpersist
      obtain ⟨g', hg'⟩ := hsuper rfl
      exact ⟨e, _, g', he, hg'⟩

theorem Drafting.commit (h : Drafting begun disk f now slot s)
    (hop : DraftOp.Discreet begun disk .CommitTransaction s) :
    ∃ g, Drafting begun disk g now slot (left commitTransaction s) := by
  obtain ⟨hun, fp, hfp, htotal⟩ := hop
  by_cases hacc : ∃ tx, Accepted s tx
  · obtain ⟨tx, ha⟩ := hacc
    have hgen : tx.targetGeneration ≤ U64_MAX := by
      rw [h.session.target tx ha.active]
      exact Nat.min_le_right _ _
    obtain ⟨e, s', g, he, hd⟩ := h.persist_fails hgen hfp htotal hun
    refine ⟨g, ?_⟩
    rw [left, commitTransaction_eq ha.active ha.base, bind_error he]
    exact hd
  · rw [commitTransaction_refused (fun tx ha => hacc ⟨tx, ha⟩)]
    exact ⟨f, h⟩

theorem Drafting.flush_idle (h : Drafting begun disk f now slot s) (nanos : Nat)
    (htx : s.cow.activeTx = none) (htotal : s.header.totalPages = disk.pageCount)
    (hun : Unrevealing begun disk s) :
    ∃ g now' slot', Drafting begun disk g now' slot' (left (flush nanos) s) := by
  have hgen : saturatingSucc s.cow.activeSuperblock.generation ≤ U64_MAX := Nat.min_le_right _ _
  have hrun := Pager.flush_idle nanos htx
  cases hfp : s.failpoint with
  | some fp =>
      obtain ⟨e, s', g, he, hd⟩ := h.persist_fails hgen hfp (fun _ => htotal) hun
      refine ⟨g, now, slot, ?_⟩
      rw [left, hrun, bind_error he]
      exact hd
  | none =>
      by_cases hclean : (s.page 1).dirty = false ∧ (s.page 2).dirty = false
      swap
      · obtain ⟨e, he⟩ := persist_reserved s.cow.activeSlot.inactive
          (s.nextSuperblock (saturatingSucc s.cow.activeSuperblock.generation)) hclean
        refine ⟨f, now, slot, ?_⟩
        rw [left, hrun, bind_error he]
        exact h
      obtain ⟨g, pages, hdata, hd⟩ := h.dataPages hclean.1 hclean.2 hun
      have hwritten : s.dataWritten = { s with file := some g, pages := pages, dirtyPages := [] } := by
        rw [dataWritten, hdata]
        exact walCommit_none h.session.wal
      have hpersist := persist_clean s.cow.activeSlot.inactive
        (s.nextSuperblock (saturatingSucc s.cow.activeSuperblock.generation)) hclean.1 hclean.2
      rw [hfp] at hpersist
      dsimp only at hpersist
      obtain ⟨hv, hcount, huuid, hflags⟩ := h.next hgen htotal
      obtain ⟨hslot, hid⟩ := h.active
      obtain ⟨hsnap, hstack⟩ := h.idle htx
      generalize hsb : s.nextSuperblock (saturatingSucc s.cow.activeSuperblock.generation) = sb
        at hrun hpersist hv hcount huuid hflags
      have hroots : sb.Rooted := by
        have hr := h.session.bounded.roots
        rw [← hsb]
        exact ⟨hr.schemaRoot, hr.freeRoot, hr.pendingFreeRoot⟩
      have hdraft : Drafting begun disk (g.writePage slot.inactive.pageNum sb.serialize) sb.stamp
          slot.inactive ((s.dataWritten.writeV2Superblock s.cow.activeSlot.inactive sb).activate
            s.cow.activeSlot.inactive sb) := by
        rw [hwritten, hslot]
        refine ⟨⟨rfl, h.session.wal, ?_, fun _ => ⟨rfl, ?_⟩, ⟨h.session.bounded.total, hroots,
          h.session.bounded.freed, fun p hp => (by cases hp)⟩, fun snap hs' => ?_, fun m hm => ?_,
          h.session.target⟩, hd.intact.switch hv hcount huuid hflags, ?_, fun snap hs' => ?_,
          fun _ => ⟨hsnap, hstack⟩⟩
        · rw [SuperblockV2.stamp_flags, hflags, ← h.intact.flags]
          exact h.session.lz4
        · rw [SuperblockV2.stamp_identity]
          rfl
        · exact absurd (hsnap.symm.trans hs') (fun hno => (by cases hno))
        · rw [show _ = s.savepointStack from rfl, hstack] at hm
          cases hm
        · rw [SuperblockV2.stamp_generation]
          rfl
        · exact absurd (hsnap.symm.trans hs') (fun hno => (by cases hno))
      have hend := (hdraft.kept (rotateFree_kept _)).kept (bumpTxid_kept _)
      refine ⟨g.writePage slot.inactive.pageNum sb.serialize, sb.stamp, slot.inactive, ?_⟩
      rw [left, hrun, bind_ok hpersist]
      show Drafting begun disk (g.writePage slot.inactive.pageNum sb.serialize) sb.stamp slot.inactive
        (autoCheckpoint nanos _)
      rw [autoCheckpoint_none nanos hend.session.wal]
      exact hend

theorem Drafting.flush (h : Drafting begun disk f now slot s) (nanos : Nat)
    (hop : DraftOp.Discreet begun disk (.Flush nanos) s) :
    ∃ g now' slot', Drafting begun disk g now' slot' (left (flush nanos) s) := by
  obtain ⟨hun, htotal⟩ := hop
  cases htx : s.cow.activeTx with
  | none => exact h.flush_idle nanos htx (htotal htx) hun
  | some tx =>
      have hrun := flush_active (s := s) nanos (by rw [htx]; rfl)
      by_cases hclean : (s.page 1).dirty = false ∧ (s.page 2).dirty = false
      · obtain ⟨g, pages, hdata, hd⟩ := h.dataPages hclean.1 hclean.2 hun
        refine ⟨g, now, slot, ?_⟩
        rw [left, hrun, writeV2DataPages_clean hclean.1 hclean.2, hdata]
        exact hd
      · obtain ⟨e, he⟩ := writeV2DataPages_reserved hclean
        refine ⟨f, now, slot, ?_⟩
        rw [left, hrun, he]
        exact h

theorem Drafting.rollback (h : Drafting begun disk f now slot s) :
    Drafting begun disk f now slot (left rollbackTransaction s) := by
  have hsession := h.session.rollback
  cases hsnap : s.txnSnapshot with
  | none =>
      rw [left_ok (rollbackTransaction_idle hsnap)] at hsession ⊢
      refine ⟨hsession, h.intact, h.generation, fun snap hs' => ?_, fun _ => ⟨hsnap, rfl⟩⟩
      exact absurd (hsnap.symm.trans hs') (fun hno => (nomatch hno))
  | some snap =>
      rw [left_ok (rollbackTransaction_eq hsnap)] at hsession ⊢
      exact ⟨hsession, h.intact, h.snapshot snap hsnap, fun snap hs' => (nomatch hs'),
        fun _ => ⟨rfl, rfl⟩⟩

theorem drafting_step {op : DraftOp} (h : ∃ f now slot, Drafting begun disk f now slot s)
    (hop : op.Discreet begun disk s) : ∃ f now slot, Drafting begun disk f now slot (op.step s) := by
  obtain ⟨f, now, slot, h⟩ := h
  cases op with
  | Txn op => exact ⟨f, now, slot, h.txn op hop⟩
  | SetFailpoint fp =>
      exact ⟨f, now, slot, ⟨⟨h.session.file, h.session.wal, h.session.lz4, h.session.active,
        ⟨h.session.bounded.total, h.session.bounded.roots, h.session.bounded.freed,
          h.session.bounded.tracked⟩, h.session.snapshot, h.session.markers, h.session.target⟩,
        h.intact, h.generation, h.snapshot, h.idle⟩⟩
  | Flush nanos => exact h.flush nanos hop
  | CommitTransaction =>
      obtain ⟨g, hg⟩ := h.commit hop
      exact ⟨g, now, slot, hg⟩
  | RollbackTransaction => exact ⟨f, now, slot, h.rollback⟩

theorem Rested.drafting (h : Rested f disk s) : Drafting f disk f disk s.cow.activeSlot
    (left beginTransaction s) := by
  have hgen : s.cow.activeSuperblock.generation = disk.generation :=
    congrArg Identity.generation h.identity
  rw [left_ok (beginTransaction_eq h.idle)]
  refine ⟨h.session.start, ⟨h.slot.magic, h.slot.active, rfl, rfl, rfl, h.slot.count, h.slot.fits,
    fun o ho => ?_, fun _ _ _ => rfl⟩, hgen, fun snap hsnap => ?_, fun htx => (nomatch htx)⟩
  · obtain ⟨huuid, hold⟩ := h.slot.older o ho
    exact ⟨huuid, .inl hold⟩
  · obtain rfl := Option.some.inj hsnap
    exact hgen

-- Whatever an uncommitted transaction does, the file shows the pages of BEGIN as
-- long as no flush and no failing commit writes over one of them.
theorem openCowV2_shows_begin (f : DbFile) (disk : SuperblockV2) (B : Pager) (ops : List DraftOp)
    (hB : Rested f disk B) (htotal : B.header.totalPages = disk.pageCount)
    (hclean : ∀ p, 2 < p → p ≤ disk.pageCount → B.peek p = diskRead B.useLz4 f p)
    (hops : Meets DraftOp.step (DraftOp.Discreet f disk) ops (left beginTransaction B)) :
    ∃ g r, (run DraftOp.step ops (left beginTransaction B)).file = some g ∧ openCowV2 g = .ok r ∧
      r.header.totalPages = B.header.totalPages ∧
      ∀ p, 2 < p → p ≤ B.header.totalPages → r.peek p = B.peek p := by
  obtain ⟨g, now, slot, h⟩ := run_invariant
    (fun s => ∃ g now slot, Drafting f disk g now slot s) ⟨f, disk, _, hB.drafting⟩
    (fun _ _ h hop => drafting_step h hop) hops
  obtain ⟨r, hopen, hr, hpages⟩ := h.intact.opens
  refine ⟨g, r, h.session.file, hopen, hr.trans htotal.symm, fun p hp hle => ?_⟩
  rw [htotal] at hle
  rw [hpages p hp hle, hclean p hp hle, hB.session.lz4]

end Draft

section Examples

attribute [local instance] Lz4Flex.incompressible

def newDatabase : Pager :=
  { fromSuperblock (createdFile Buf.zero) (createdSuperblock Buf.zero).stamp .A with maxBufferPages := 256 }

-- Pages allocated by the transaction may be flushed, and its commit may fail.
def draftRun : List DraftOp :=
  [.Txn .AllocatePage, .Txn (.Write 4 (setLink 7)), .Flush 0, .SetFailpoint (some .AfterDataPagesSync),
    .CommitTransaction, .RollbackTransaction, .SetFailpoint none, .Flush 0]

theorem openCowV2_shows_begin_draftRun :
    ∃ g r, (run DraftOp.step draftRun (left beginTransaction newDatabase)).file = some g ∧
      openCowV2 g = .ok r ∧ r.header.totalPages = newDatabase.header.totalPages ∧
      ∀ p, 2 < p → p ≤ newDatabase.header.totalPages → r.peek p = newDatabase.peek p := by
  have hthree : ∀ p, 2 < p → p ≤ 3 → p = 3 := fun p h h' => by omega
  have hquiet : ∀ s : Pager, (s.page 3).dirty = false →
      Unrevealing (createdFile Buf.zero) (createdSuperblock Buf.zero).stamp s := by
    intro s hs p hp hle hw
    rw [hthree p hp hle, Written, hs] at hw
    exact Bool.noConfusion hw.2.2
  refine openCowV2_shows_begin (createdFile Buf.zero) (createdSuperblock Buf.zero).stamp newDatabase
    draftRun (rested_opened (activeSlot_created Buf.zero) 256) rfl (fun p hp hle => ?_) ?_
  · obtain rfl := hthree p hp hle
    rfl
  · refine ⟨trivial, trivial, ⟨hquiet _ rfl, fun h => (by cases h)⟩, trivial,
      ⟨hquiet _ rfl, _, rfl, fun h => (by cases h)⟩, trivial, trivial, ⟨hquiet _ rfl, fun _ => rfl⟩, trivial⟩

-- A flush inside the transaction, and then a rollback: the new page is on the disk.
theorem openCowV2_shows_flushed :
    (newDatabase.peek 3).map (·.u32 0) = some 13 ∧
      linkOnDisk (run DraftOp.step [.Txn (.Write 3 (setLink 7)), .Flush 0, .RollbackTransaction]
        (left beginTransaction newDatabase)).file 3 = some 7 := by
  decide +kernel

end Examples

end Pager

end Kkdb
