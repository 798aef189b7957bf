import Kkdb.Pager.Savepoint

namespace Kkdb

open Lib

-- The fields of a superblock that no page call changes.
structure Identity where
  formatVersion : Nat
  pageSize : Nat
  flags : Nat
  generation : Nat
  dbUuid : Buf 16

def SuperblockV2.identity (sb : SuperblockV2) : Identity where
  formatVersion := sb.formatVersion
  pageSize := sb.pageSize
  flags := sb.flags
  generation := sb.generation
  dbUuid := sb.dbUuid

theorem SuperblockV2.stamp_identity (sb : SuperblockV2) : sb.stamp.identity = sb.identity := by
  rw [stamp, identity, identity]

structure SuperblockV2.Rooted (sb : SuperblockV2) : Prop where
  schemaRoot : sb.schemaRoot < 2 ^ 32
  freeRoot : sb.freeRoot < 2 ^ 32
  pendingFreeRoot : sb.pendingFreeRoot < 2 ^ 32

namespace Pager

-- What the calls on pages leave as it is, on whatever state they are made.
structure Held where
  file : Option DbFile
  wal : Option Wal
  useLz4 : Bool
  failpoint : Option PagerFailpoint
  failAction : PagerFailAction
  savepointStack : List SavepointMarker
  activeSlot : SuperblockSlot
  identity : Identity
  snapshot : Option TxnSnapshot
  generations : Option (Nat × Nat)

def held (s : Pager) : Held where
  file := s.file
  wal := s.wal
  useLz4 := s.useLz4
  failpoint := s.failpoint
  failAction := s.failAction
  savepointStack := s.savepointStack
  activeSlot := s.cow.activeSlot
  identity := s.cow.activeSuperblock.identity
  snapshot := s.txnSnapshot.map fun snap => { snap with originalPages := fun _ => none }
  generations := s.cow.activeTx.map fun tx => (tx.baseGeneration, tx.targetGeneration)

-- Every page number the pager keeps is one of a page.
structure Bounded (s : Pager) : Prop where
  total : s.header.totalPages < 2 ^ 32
  roots : s.cow.activeSuperblock.Rooted
  freed : ∀ tx p, s.cow.activeTx = some tx → tx.freedRoot = some p → p < 2 ^ 32
  tracked : ∀ p ∈ s.dirtyPages, 0 < p

structure Kept (s s' : Pager) : Prop where
  held : s'.held = s.held
  bounded : s.Bounded → s'.Bounded

theorem Kept.refl (s : Pager) : Kept s s := ⟨rfl, fun h => h⟩

theorem Kept.trans {s s' s'' : Pager} (h : Kept s s') (h' : Kept s' s'') : Kept s s'' :=
  ⟨h'.held.trans h.held, fun hs => h'.bounded (h.bounded hs)⟩

section Buffer

variable {s s' : Pager} {p : Nat}

def Rebuffered (s s' : Pager) : Prop :=
  ∃ pages loaded queue count, s' = s.withBuffer pages loaded queue count

theorem Rebuffered.refl (s : Pager) : Rebuffered s s := ⟨_, _, _, _, rfl⟩

theorem Rebuffered.trans {s'' : Pager} (h : Rebuffered s s') (h' : Rebuffered s' s'') :
    Rebuffered s s'' := by
  obtain ⟨_, _, _, _, rfl⟩ := h
  obtain ⟨_, _, _, _, rfl⟩ := h'
  exact ⟨_, _, _, _, rfl⟩

theorem Rebuffered.kept (h : Rebuffered s s') : Kept s s' := by
  obtain ⟨_, _, _, _, rfl⟩ := h
  exact ⟨rfl, fun h => ⟨h.total, h.roots, h.freed, h.tracked⟩⟩

theorem evictLoop_rebuffered (target queueLen fuel checked passes : Nat) (s : Pager) :
    Rebuffered s (evictLoop target queueLen fuel checked passes s) := by
  induction fuel generalizing s checked passes with
  | zero => exact Rebuffered.refl s
  | succ fuel ih =>
      unfold evictLoop
      by_cases hcount : s.lruLoadedCount ≤ target
      · rw [if_pos hcount]
        exact Rebuffered.refl s
      rw [if_neg hcount]
      cases s.lruQueue with
      | nil => exact Rebuffered.refl s
      | cons pn rest =>
          dsimp only
          split_ifs
          · exact Rebuffered.trans ⟨_, _, _, _, rfl⟩ (ih _ _ _)
          · exact Rebuffered.trans ⟨_, _, _, _, rfl⟩ (ih _ _ _)
          · exact ⟨_, _, _, _, rfl⟩
          · exact Rebuffered.trans ⟨_, _, _, _, rfl⟩ (ih _ _ _)
          · exact Rebuffered.trans ⟨_, _, _, _, rfl⟩ (ih _ _ _)
          · exact Rebuffered.trans ⟨_, _, _, _, rfl⟩ (ih _ _ _)

theorem evictLruIfNeeded_rebuffered (s : Pager) : Rebuffered s s.evictLruIfNeeded := by
  unfold evictLruIfNeeded
  split_ifs
  · exact Rebuffered.refl s
  · exact evictLoop_rebuffered _ _ _ _ _ s

theorem touch_rebuffered (s : Pager) (p : Nat) : Rebuffered s (s.touch p) := by
  unfold touch
  split_ifs
  · exact ⟨_, _, _, _, rfl⟩
  · exact Rebuffered.refl s

theorem load_rebuffered (s : Pager) (p : Nat) (data : PageData) :
    Rebuffered s (s.load p data) := by
  have hinstall : Rebuffered s (s.evictLruIfNeeded.install p data) :=
    (evictLruIfNeeded_rebuffered s).trans ⟨_, _, _, _, rfl⟩
  exact hinstall.trans (touch_rebuffered _ p)

theorem getPage_rebuffered [Lz4Flex] (p : Nat) (s : Pager) : Rebuffered s (left (getPage p) s) := by
  unfold left getPage
  split_ifs
  · exact Rebuffered.refl s
  · exact Rebuffered.refl s
  · exact touch_rebuffered s p
  · cases s.readWal p with
    | some data => exact load_rebuffered s p data
    | none =>
        dsimp only
        cases s.evictLruIfNeeded.loadPageFromDisk p with
        | error e => exact evictLruIfNeeded_rebuffered s
        | ok data => exact load_rebuffered s p data

theorem snapshotPage_kept (s : Pager) (p : Nat) : Kept s (s.snapshotPage p) := by
  unfold snapshotPage
  cases hsnap : s.txnSnapshot with
  | none => exact Kept.refl s
  | some snap =>
      dsimp only
      split_ifs
      · exact Kept.refl s
      · refine ⟨?_, fun h => ⟨h.total, h.roots, h.freed, h.tracked⟩⟩
        simp only [held, hsnap]
        rfl

theorem markDirty_kept (s : Pager) (hp : 0 < p) : Kept s (s.markDirty p) := by
  refine ⟨rfl, fun h => ⟨h.total, h.roots, h.freed, ?_⟩⟩
  intro q hq
  simp only [markDirty] at hq
  split_ifs at hq
  · exact h.tracked q hq
  · rcases List.mem_append.mp hq with hq | hq
    · exact h.tracked q hq
    · rw [List.mem_singleton.mp hq]
      exact hp

theorem mark_kept (s : Pager) (hp : 0 < p) : Kept s ((s.snapshotPage p).markDirty p) :=
  (snapshotPage_kept s p).trans (markDirty_kept _ hp)

theorem getPageMut_kept [Lz4Flex] (p : Nat) (s : Pager) : Kept s (left (getPageMut p) s) := by
  unfold left getPageMut
  split_ifs with hr
  · exact Kept.refl s
  · exact Kept.refl s
  · exact (touch_rebuffered s p).kept.trans (mark_kept _ (by omega))
  · dsimp only
    cases s.evictLruIfNeeded.loadPageFromDisk p with
    | error e => exact (evictLruIfNeeded_rebuffered s).kept
    | ok data => exact (load_rebuffered s p data).kept.trans (mark_kept _ (by omega))

theorem kept_bind {α β : Type} {x : PagerM α} {f : α → PagerM β} (hx : Kept s (left x s))
    (hf : ∀ a s', x s = .ok a s' → Kept s' (left (f a) s')) : Kept s (left (x >>= f) s) :=
  left_bind Kept (fun _ _ _ => Kept.trans) hx hf

theorem held_bind {α β : Type} {x : PagerM α} {f : α → PagerM β}
    (hx : (left x s).held = s.held)
    (hf : ∀ a s', x s = .ok a s' → (left (f a) s').held = s'.held) :
    (left (x >>= f) s).held = s.held :=
  left_bind (fun s s' : Pager => s'.held = s.held) (fun _ _ _ h h' => h'.trans h) hx hf

theorem rotateFree_kept (s : Pager) : Kept s s.rotateFree := by
  unfold rotateFree
  dsimp only
  split_ifs
  · exact ⟨rfl, fun h => ⟨h.total, ⟨h.roots.schemaRoot, h.roots.pendingFreeRoot, Nat.two_pow_pos 32⟩,
      h.freed, h.tracked⟩⟩
  · exact Kept.refl s

theorem setActiveTx_kept {tx tx' : CowTxnState} (htx : s.cow.activeTx = some tx)
    (hgen : (tx'.baseGeneration, tx'.targetGeneration) = (tx.baseGeneration, tx.targetGeneration))
    (hroot : ∀ q, tx'.freedRoot = some q → tx.freedRoot = some q ∨ q < 2 ^ 32) :
    Kept s (s.setActiveTx (some tx')) := by
  refine ⟨?_, fun h => ⟨h.total, h.roots, ?_, h.tracked⟩⟩
  · simp only [held, setActiveTx, htx, Option.map_some, hgen]
  · intro tx₁ q htx₁ hq
    obtain rfl := Option.some.inj htx₁
    rcases hroot q hq with h' | h'
    · exact h.freed tx q htx h'
    · exact h'

end Buffer

section Calls

variable [Lz4Flex] {s : Pager} {p : Nat}

theorem modifyPage_kept {α : Type} (p : Nat) (f : PageData → Res (α × PageData)) (s : Pager) :
    Kept s (left (modifyPage p f) s) := by
  refine kept_bind (getPageMut_kept p s) fun pg s' _ => ?_
  cases f pg.data with
  | error e => exact Kept.refl s'
  | ok r => exact ⟨rfl, fun h => ⟨h.total, h.roots, h.freed, h.tracked⟩⟩

theorem writePage_kept (p : Nat) (f : PageData → PageData) (s : Pager) :
    Kept s (left (writePage p f) s) :=
  modifyPage_kept p _ s

theorem popFree_kept (p : Nat) (s : Pager) : Kept s (left (popFree p) s) := by
  refine kept_bind (getPage_rebuffered p s).kept fun pg s' _ => ?_
  have hroot : Kept s' (s'.setFreeRoot (pg.data.u32 0)) :=
    ⟨rfl, fun h => ⟨h.total, ⟨h.roots.schemaRoot, Buf.u32_lt _ _, h.roots.pendingFreeRoot⟩,
      h.freed, h.tracked⟩⟩
  have hwrite : Kept (s'.setFreeRoot (pg.data.u32 0))
      (left (writePage p (fun _ => Buf.zero) >>= fun _ => pure p) (s'.setFreeRoot (pg.data.u32 0))) :=
    kept_bind (writePage_kept p _ _) fun _ s'' _ => Kept.refl s''
  exact hroot.trans hwrite

theorem allocatePage_kept (s : Pager) : Kept s (left allocatePage s) := by
  have hrot := rotateFree_kept s
  have hrun := allocatePage_eq s
  split_ifs at hrun with hmax hfree
  · rw [left_error hrun]
    exact Kept.refl s
  · rw [left, hrun]
    exact hrot.trans (popFree_kept _ _)
  · rw [left_ok hrun]
    refine hrot.trans ⟨rfl, fun h => ⟨?_, h.roots, h.freed, h.tracked⟩⟩
    have hheader : s.rotateFree.header = s.header := by
      obtain ⟨c, hc, -⟩ := rotateFree_rest s
      rw [hc]
    show s.rotateFree.header.totalPages + 1 < 2 ^ 32
    rw [hheader]
    unfold MAX_PAGES at hmax
    omega

-- Only the bookkeeping before the write depends on the page number.
theorem linkFreed_split (p : Nat) (s : Pager) : ∃ s₁, s₁.held = s.held ∧
    (p < 2 ^ 32 → Kept s s₁) ∧ Kept s₁ (left (linkFreed p) s) := by
  unfold left linkFreed
  rw [get_bind]
  cases htx : s.cow.activeTx with
  | some tx =>
      cases htail : tx.freedTail with
      | some tail =>
          dsimp only
          rw [htail]
          have htx' : Kept s (s.setActiveTx (some { tx with freedTail := some p })) :=
            setActiveTx_kept htx rfl (fun q hq => .inl hq)
          exact ⟨_, htx'.held, fun _ => htx', writePage_kept tail (setLink p) _⟩
      | none =>
          dsimp only
          rw [htail]
          refine ⟨s.setActiveTx (some { tx with freedRoot := some p, freedTail := some p }), ?_,
            fun hp => ?_, Kept.refl _⟩
          · simp only [Pager.held, setActiveTx, htx, Option.map_some]
          · exact setActiveTx_kept htx rfl (fun q hq => .inr (by rw [← Option.some.inj hq]; exact hp))
  | none =>
      refine ⟨s.setPendingFreeRoot p, rfl, fun hp => ?_, writePage_kept _ _ _⟩
      exact ⟨rfl, fun h => ⟨h.total, ⟨h.roots.schemaRoot, h.roots.freeRoot, hp⟩, h.freed, h.tracked⟩⟩

theorem linkFreed_kept (s : Pager) (hp : p < 2 ^ 32) : Kept s (left (linkFreed p) s) := by
  obtain ⟨s₁, -, hbook, hwrite⟩ := linkFreed_split p s
  exact (hbook hp).trans hwrite

theorem freePage_kept (p : Nat) (s : Pager) (hs : s.header.totalPages < 2 ^ 32) :
    Kept s (left (freePage p) s) := by
  have hrun := freePage_eq s p
  split_ifs at hrun with hr
  · rw [left_error hrun]
    exact Kept.refl s
  · rw [left, hrun]
    exact kept_bind (writePage_kept p _ s) fun _ s' _ => linkFreed_kept s' (by omega)

theorem freePage_held (p : Nat) (s : Pager) : (left (freePage p) s).held = s.held := by
  have hrun := freePage_eq s p
  split_ifs at hrun with hr
  · rw [left_error hrun]
  · rw [left, hrun]
    refine held_bind (writePage_kept p _ s).held fun _ s' _ => ?_
    obtain ⟨s₁, hbook, -, hwrite⟩ := linkFreed_split p s'
    exact hwrite.held.trans hbook

end Calls

end Pager

end Kkdb
