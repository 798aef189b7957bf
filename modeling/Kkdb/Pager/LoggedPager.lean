import Kkdb.Pager.Buffer
import Kkdb.Pager.LoggedSlots
import Kkdb.Pager.Open

namespace Kkdb

open Lib

namespace Pager

-- The storage of the pager is this one, and its dirty pages can be logged.
structure Behind (l : LoggedFile) (s : Pager) : Prop where
  wal : s.wal = some l.history.wal
  file : s.file = some l.db
  lz4 : s.useLz4 = true
  some : 0 < s.header.totalPages
  total : s.header.totalPages < 2 ^ 32
  dirty : ∀ p ∈ s.dirtyPages, p < 2 ^ 32

-- Calls on the log and the file lead from the one storage to that of the pager.
def Logs (l : LoggedFile) (s : Pager) : Prop :=
  ∃ ops, (∀ op ∈ ops, LoggedFile.Counted op) ∧ Behind (run LoggedFile.step ops l) s

structure Unlogged (s s' : Pager) : Prop where
  wal : s'.wal = s.wal
  file : s'.file = s.file
  header : s'.header = s.header
  lz4 : s'.useLz4 = s.useLz4
  dirty : ∀ p ∈ s'.dirtyPages, p ∈ s.dirtyPages ∨ p ≤ s.header.totalPages

variable {l : LoggedFile} {s s' : Pager} {p : Nat}

theorem Unlogged.refl (s : Pager) : Unlogged s s := ⟨rfl, rfl, rfl, rfl, fun _ hp => .inl hp⟩

theorem Unlogged.trans {s'' : Pager} (h : Unlogged s s') (h' : Unlogged s' s'') : Unlogged s s'' := by
  refine ⟨h'.wal.trans h.wal, h'.file.trans h.file, h'.header.trans h.header, h'.lz4.trans h.lz4,
    fun p hp => ?_⟩
  rcases h'.dirty p hp with hold | hle
  · exact h.dirty p hold
  · exact .inr (h.header ▸ hle)

theorem Rebuffered.unlogged (h : Rebuffered s s') : Unlogged s s' := by
  obtain ⟨_, _, _, _, rfl⟩ := h
  exact ⟨rfl, rfl, rfl, rfl, fun _ hp => .inl hp⟩

theorem Behind.unlogged (h : Behind l s) (hq : Unlogged s s') : Behind l s' := by
  refine ⟨hq.wal.trans h.wal, hq.file.trans h.file, hq.lz4.trans h.lz4, ?_, ?_, fun p hp => ?_⟩
  · rw [hq.header]
    exact h.some
  · rw [hq.header]
    exact h.total
  · rcases hq.dirty p hp with hold | hle
    · exact h.dirty p hold
    · exact hle.trans_lt h.total

theorem Logs.unlogged (h : Logs l s) (hq : Unlogged s s') : Logs l s' := by
  obtain ⟨ops, hcounted, hbehind⟩ := h
  exact ⟨ops, hcounted, hbehind.unlogged hq⟩

theorem Logs.snoc (h : Logs l s) {s' : Pager} (hstep : ∀ l', Behind l' s → ∃ op, LoggedFile.Counted op ∧
    Behind (LoggedFile.step op l') s') : Logs l s' := by
  obtain ⟨ops, hcounted, hbehind⟩ := h
  obtain ⟨op, hop, hnext⟩ := hstep _ hbehind
  refine ⟨ops ++ [op], fun op' hop' => ?_, ?_⟩
  · rcases List.mem_append.mp hop' with hold | hnew
    · exact hcounted op' hold
    · exact List.mem_singleton.mp hnew ▸ hop
  · rw [run_append]
    exact hnext

theorem counted_of_ne {op : LoggedOp} (h : ∀ count, op ≠ .Commit count) : LoggedFile.Counted op :=
  fun count heq => absurd heq (h count)

theorem unlogged_markDirty (hle : p ≤ s.header.totalPages) : Unlogged s ((s.snapshotPage p).markDirty p) := by
  have hsnap : Unlogged s (s.snapshotPage p) := by
    unfold snapshotPage
    cases s.txnSnapshot with
    | none => exact Unlogged.refl s
    | some snap =>
        dsimp only
        split_ifs
        · exact Unlogged.refl s
        · exact ⟨rfl, rfl, rfl, rfl, fun _ hp => .inl hp⟩
  refine hsnap.trans ⟨rfl, rfl, rfl, rfl, fun q hq => ?_⟩
  simp only [markDirty] at hq
  split_ifs at hq
  · exact .inl hq
  · rcases List.mem_append.mp hq with hq | hq
    · exact .inl hq
    · rw [List.mem_singleton.mp hq, hsnap.header]
      exact .inr hle

theorem logs_walCommit (h : Logs l s) : Logs l s.walCommit := by
  refine h.snoc fun l' hl => ⟨.Commit (UInt32.ofNat s.header.totalPages), ?_, ?_⟩
  · rintro count ⟨⟩
    rw [UInt32.lt_iff_toNat_lt, UInt32.toNat_ofNat_of_lt' hl.total]
    exact hl.some
  · refine ⟨?_, hl.file, hl.lz4, hl.some, hl.total, hl.dirty⟩
    rw [walCommit, hl.wal]
    show some (l'.history.wal.commit s.header.totalPages) =
      some (l'.history.wal.commit (UInt32.ofNat s.header.totalPages).toNat)
    rw [UInt32.toNat_ofNat_of_lt' hl.total]

theorem logs_failpoint (fp : PagerFailpoint) (h : Logs l s) : Logs l (left (maybeFailpoint fp) s) := by
  rcases maybeFailpoint_cases fp s with hrun | ⟨e, hrun⟩
  · rw [left_ok hrun]
    exact h
  · rw [left_error hrun]
    exact h

theorem logs_writeV2Superblock (slot : SuperblockSlot) (sb : SuperblockV2) (h : Logs l s) :
    Logs l (s.writeV2Superblock slot sb) := by
  refine h.snoc fun l' hl => ⟨.WriteSuperblock slot sb, counted_of_ne fun _ => nofun, ?_⟩
  rw [writeV2Superblock, hl.file]
  exact ⟨hl.wal, rfl, hl.lz4, hl.some, hl.total, hl.dirty⟩

theorem unlogged_rotateFree (s : Pager) : Unlogged s s.rotateFree := by
  obtain ⟨c, hrotate, _⟩ := rotateFree_rest s
  rw [hrotate]
  exact ⟨rfl, rfl, rfl, rfl, fun _ hp => .inl hp⟩

theorem logs_runCheckpoint (nanos : Nat) (h : Logs l s) : Logs l (s.runCheckpoint nanos) := by
  refine h.snoc fun l' hl => ⟨.Checkpoint nanos, counted_of_ne fun _ => nofun, ?_⟩
  rw [runCheckpoint, hl.wal, hl.file]
  exact ⟨rfl, rfl, hl.lz4, hl.some, hl.total, hl.dirty⟩

theorem logs_autoCheckpoint (nanos : Nat) (h : Logs l s) : Logs l (s.autoCheckpoint nanos) := by
  unfold autoCheckpoint
  cases s.wal with
  | none => exact h
  | some w =>
      dsimp only
      split_ifs
      · exact logs_runCheckpoint nanos h
      · exact h

theorem unlogged_startTransaction (s : Pager) : Unlogged s s.startTransaction :=
  ⟨rfl, rfl, rfl, rfl, fun _ hp => .inl hp⟩

theorem logs_beginTransaction (h : Logs l s) : Logs l (left beginTransaction s) := by
  cases hact : s.cow.activeTx with
  | some tx =>
      obtain ⟨e, hrun⟩ := beginTransaction_active (s := s) (by rw [inTransaction, hact]; rfl)
      rw [left_error hrun]
      exact h
  | none =>
      rw [left_ok (beginTransaction_eq hact)]
      exact h.unlogged (unlogged_startTransaction s)

section Calls

variable [Lz4Flex]

theorem unlogged_getPageMut (p : Nat) (s : Pager) : Unlogged s (left (getPageMut p) s) := by
  unfold left getPageMut
  split_ifs with hrange
  · exact Unlogged.refl s
  · exact Unlogged.refl s
  · have htouch := (touch_rebuffered s p).unlogged
    exact htouch.trans (unlogged_markDirty (by rw [htouch.header]; omega))
  · dsimp only
    cases s.evictLruIfNeeded.loadPageFromDisk p with
    | error e => exact (evictLruIfNeeded_rebuffered s).unlogged
    | ok data =>
        have hload := (load_rebuffered s p data).unlogged
        exact hload.trans (unlogged_markDirty (by rw [hload.header]; omega))

theorem unlogged_writePage (p : Nat) (f : PageData → PageData) (s : Pager) :
    Unlogged s (left (writePage p f) s) :=
  left_bind Unlogged (fun _ _ _ => Unlogged.trans) (unlogged_getPageMut p s)
    fun _ _ _ => ⟨rfl, rfl, rfl, rfl, fun _ hp => .inl hp⟩

theorem logs_writeDirtyPage (h : Logs l s) (hp : p < 2 ^ 32) : Logs l (s.writeDirtyPage p) := by
  unfold writeDirtyPage
  split_ifs
  · exact h
  · exact h
  · refine h.snoc fun l' hl =>
      ⟨.WritePage (UInt32.ofNat p) (s.page p).data, counted_of_ne fun _ => nofun, ?_⟩
    have hnum : (UInt32.ofNat p).toNat = p := UInt32.toNat_ofNat_of_lt' hp
    rw [storePage, hl.wal]
    refine ⟨?_, hl.file, hl.lz4, hl.some, hl.total, hl.dirty⟩
    show _ = some (l'.history.wal.writePage (UInt32.ofNat p).toNat (s.page p).data)
    rw [hnum]
    rfl

theorem logs_writeDirtyPages (pages : List Nat) (h : Logs l s) (hpages : ∀ p ∈ pages, p < 2 ^ 32) :
    Logs l (pages.foldl writeDirtyPage s) := by
  induction pages generalizing s with
  | nil => exact h
  | cons p pages ih =>
      exact ih (logs_writeDirtyPage h (hpages p List.mem_cons_self))
        fun q hq => hpages q (List.mem_cons_of_mem _ hq)

theorem logs_writeV2DataPages (h : Logs l s) : Logs l (left writeV2DataPages s) := by
  unfold left writeV2DataPages
  split_ifs
  · exact h
  · have hdirty : ∀ p ∈ s.dirtyPages, p < 2 ^ 32 := by
      obtain ⟨_, _, hbehind⟩ := h
      exact hbehind.dirty
    exact logs_writeDirtyPages _ (h.unlogged ⟨rfl, rfl, rfl, rfl, fun _ hp => (nomatch hp)⟩) hdirty

theorem logs_persist (slot : SuperblockSlot) (sb : SuperblockV2) (h : Logs l s) :
    Logs l (left (persist slot sb) s) := by
  refine left_bind_inv (Logs l) (logs_writeV2DataPages h) fun _ s₁ h₁ => ?_
  refine left_bind_inv (Logs l) (logs_walCommit h₁) fun _ s₂ h₂ => ?_
  refine left_bind_inv (Logs l) (logs_failpoint _ h₂) fun _ s₃ h₃ => ?_
  refine left_bind_inv (Logs l) (logs_failpoint _ h₃) fun _ s₄ h₄ => ?_
  refine left_bind_inv (Logs l) (logs_writeV2Superblock slot sb h₄) fun _ s₅ h₅ => ?_
  refine left_bind_inv (Logs l) (logs_failpoint _ h₅) fun _ s₆ h₆ => ?_
  refine left_bind_inv (Logs l) (logs_failpoint _ h₆) fun _ s₇ h₇ => ?_
  exact h₇.unlogged ⟨rfl, rfl, rfl, rfl, fun _ hp => .inl hp⟩

theorem unlogged_linkFreedPages (s : Pager) : Unlogged s (left linkFreedPages s) := by
  unfold linkFreedPages
  rw [left_get_bind]
  split
  · refine left_bind Unlogged (fun _ _ _ => Unlogged.trans)
      ⟨rfl, rfl, rfl, rfl, fun _ hp => .inl hp⟩ fun _ s' _ => ?_
    exact unlogged_writePage _ _ s'
  · exact Unlogged.refl s

theorem logs_commitTransaction (h : Logs l s) : Logs l (left commitTransaction s) := by
  cases hact : s.cow.activeTx with
  | none =>
      rw [left_ok (commitTransaction_none hact)]
      exact h
  | some tx =>
      by_cases hgen : tx.baseGeneration = s.cow.activeSuperblock.generation
      · rw [left, commitTransaction_eq hact hgen, ← left]
        refine left_bind_inv (Logs l) (logs_persist _ _ h) fun _ s₁ h₁ => ?_
        refine left_bind_inv (Logs l) (h₁.unlogged (unlogged_linkFreedPages s₁)) fun _ s₂ h₂ => ?_
        refine left_bind_inv (Logs l) (h₂.unlogged (unlogged_rotateFree s₂)) fun _ s₃ h₃ => ?_
        exact h₃.unlogged ⟨rfl, rfl, rfl, rfl, fun _ hp => .inl hp⟩
      · obtain ⟨e, hrun⟩ := commitTransaction_stale hact hgen
        rw [left_error hrun]
        exact h

theorem logs_flush (nanos : Nat) (h : Logs l s) : Logs l (left (flush nanos) s) := by
  cases hact : s.cow.activeTx with
  | some tx =>
      rw [left, flush_active nanos (by rw [hact]; rfl), ← left]
      exact logs_writeV2DataPages h
  | none =>
      rw [left, flush_idle nanos hact, ← left]
      refine left_bind_inv (Logs l) (logs_persist _ _ h) fun _ s₁ h₁ => ?_
      have hrotate := h₁.unlogged (unlogged_rotateFree s₁)
      exact logs_autoCheckpoint nanos (hrotate.unlogged ⟨rfl, rfl, rfl, rfl, fun _ hp => .inl hp⟩)

-- What a call on the pager does to the storage is done by calls on the log and the file.
theorem logs_step (op : BufferOp) (h : Logs l s) : Logs l (op.step s) := by
  cases op with
  | GetPage p => exact h.unlogged (getPage_rebuffered p s).unlogged
  | Write p f => exact h.unlogged (unlogged_writePage p f s)
  | BeginTransaction => exact logs_beginTransaction h
  | CommitTransaction => exact logs_commitTransaction h
  | Flush nanos => exact logs_flush nanos h
  | WalCheckpoint nanos =>
      have hleft : left (walCheckpoint nanos) s = s.runCheckpoint nanos := by
        unfold left walCheckpoint runCheckpoint
        cases s.wal <;> cases s.file <;> rfl
      rw [BufferOp.step, hleft]
      exact logs_runCheckpoint nanos h

theorem Behind.stored_eq (h : Behind l s) (p : Nat) : s.stored p = (l.load p).toOption := by
  rw [stored, readWal, LoggedFile.load, h.wal, h.file, h.lz4, Option.bind_some, Option.bind_some]
  cases l.history.wal.readPage p with
  | some data => rfl
  | none =>
      dsimp only
      cases l.db.readPage p <;> rfl

theorem logs_run (ops : List BufferOp) (h : Logs l s) : Logs l (run BufferOp.step ops s) :=
  run_invariant (Logs l) h (fun op _ hs _ => logs_step op hs) (meets_true ops s)

-- All through a run of the pager the pages behind the buffer are those of a run of
-- calls on the log and the file.
theorem stored_run (ops : List BufferOp) (h : Behind l s) :
    ∃ calls, (∀ op ∈ calls, LoggedFile.Counted op) ∧
      ∀ p, (run BufferOp.step ops s).stored p = ((run LoggedFile.step calls l).load p).toOption := by
  obtain ⟨calls, hcounted, hbehind⟩ := logs_run ops ⟨[], fun _ hop => (nomatch hop), h⟩
  exact ⟨calls, hcounted, hbehind.stored_eq⟩

end Calls

section Example

attribute [local instance] Lz4Flex.literal

theorem stored_run_flushed : ∃ calls, (∀ op ∈ calls, LoggedFile.Counted op) ∧
    ∀ p, (run BufferOp.step [.Write 3 (setLink 7), .Flush 0] { walPager with useLz4 := true }).stored p =
      ((run LoggedFile.step calls (.start Buf.zero 0 (createdFile Buf.zero))).load p).toOption :=
  stored_run _ ⟨rfl, rfl, rfl, by decide, by decide, fun _ hp => absurd hp List.not_mem_nil⟩

end Example

end Pager

end Kkdb
