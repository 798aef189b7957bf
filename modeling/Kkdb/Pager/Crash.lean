import Kkdb.Pager.Session

namespace Kkdb

open Lib

namespace Pager

theorem maybeFailpoint_hit {fp : PagerFailpoint} {s : Pager} (h : s.failpoint = some fp) :
    ∃ e, maybeFailpoint fp s = .error e s := by
  unfold maybeFailpoint
  rw [get_bind, if_pos h]
  cases s.failAction with
  | Error => exact ⟨_, rfl⟩
  | AbortProcess => exact ⟨_, rfl⟩

theorem maybeFailpoint_miss {fp : PagerFailpoint} {s : Pager} (h : s.failpoint ≠ some fp) :
    maybeFailpoint fp s = .ok () s := by
  unfold maybeFailpoint
  rw [get_bind, if_neg h]
  rfl

theorem failpoint_writeV2Superblock (slot : SuperblockSlot) (sb : SuperblockV2) (s : Pager) :
    (s.writeV2Superblock slot sb).failpoint = s.failpoint := by
  unfold writeV2Superblock
  cases s.file <;> rfl

section Points

variable [Lz4Flex] {s : Pager}

def dataPages (count : Nat) (s : Pager) : Pager :=
  (s.dirtyPages.take count).foldl writeDirtyPage { s with dirtyPages := [] }

theorem foldl_writeDirtyPage_rest (nums : List Nat) (s : Pager) : ∃ file wal pages,
    nums.foldl writeDirtyPage s = { s with file := file, wal := wal, pages := pages } := by
  induction nums generalizing s with
  | nil => exact ⟨_, _, _, rfl⟩
  | cons p nums ih =>
      have hstep : ∃ file wal pages, s.writeDirtyPage p =
          { s with file := file, wal := wal, pages := pages } := by
        unfold writeDirtyPage
        split_ifs
        · exact ⟨_, _, _, rfl⟩
        · exact ⟨_, _, _, rfl⟩
        · unfold storePage
          cases s.wal with
          | none => exact ⟨_, _, _, rfl⟩
          | some w => exact ⟨_, _, _, rfl⟩
      obtain ⟨file, wal, pages, hrun⟩ := hstep
      rw [List.foldl_cons, hrun]
      obtain ⟨file', wal', pages', hrest⟩ := ih { s with file := file, wal := wal, pages := pages }
      exact ⟨file', wal', pages', hrest⟩

theorem dataPages_rest (count : Nat) (s : Pager) : ∃ file wal pages,
    s.dataPages count = { s with file := file, wal := wal, pages := pages, dirtyPages := [] } := by
  obtain ⟨file, wal, pages, h⟩ := foldl_writeDirtyPage_rest (s.dirtyPages.take count)
    { s with dirtyPages := [] }
  exact ⟨file, wal, pages, h⟩

def dataWritten (s : Pager) : Pager := (s.dataPages s.dirtyPages.length).walCommit

theorem failpoint_dataWritten (s : Pager) : s.dataWritten.failpoint = s.failpoint := by
  obtain ⟨_, _, _, h⟩ := dataPages_rest s.dirtyPages.length s
  rw [dataWritten, h]
  rfl

theorem writeV2DataPages_clean (hone : (s.page 1).dirty = false) (htwo : (s.page 2).dirty = false) :
    writeV2DataPages s = .ok () (s.dataPages s.dirtyPages.length) := by
  unfold writeV2DataPages dataPages
  rw [if_neg (by simp [hone, htwo]), List.take_length]

theorem writeV2DataPages_reserved (h : ¬((s.page 1).dirty = false ∧ (s.page 2).dirty = false)) :
    ∃ e, writeV2DataPages s = .error e s := by
  unfold writeV2DataPages
  have hdirty : (s.page 1).dirty = true ∨ (s.page 2).dirty = true := by
    by_contra hno
    exact h ⟨by simpa using fun h' => hno (.inl h'), by simpa using fun h' => hno (.inr h')⟩
  rw [if_pos hdirty]
  exact ⟨_, rfl⟩

theorem persist_clean (slot : SuperblockSlot) (sb : SuperblockV2) (hone : (s.page 1).dirty = false)
    (htwo : (s.page 2).dirty = false) :
    match s.failpoint with
    | none => persist slot sb s = .ok () ((s.dataWritten.writeV2Superblock slot sb).activate slot sb)
    | some .AfterDataPagesWrite | some .AfterDataPagesSync =>
        ∃ e, persist slot sb s = .error e s.dataWritten
    | some .AfterSuperblockWrite | some .AfterSuperblockSync =>
        ∃ e, persist slot sb s = .error e (s.dataWritten.writeV2Superblock slot sb) := by
  have hfp := failpoint_dataWritten s
  have hfp' := (failpoint_writeV2Superblock slot sb s.dataWritten).trans hfp
  have hstart : persist slot sb s = (maybeFailpoint .AfterDataPagesWrite >>= fun _ => do
      maybeFailpoint .AfterDataPagesSync
      modify (writeV2Superblock slot sb)
      maybeFailpoint .AfterSuperblockWrite
      maybeFailpoint .AfterSuperblockSync
      modify fun s => s.activate slot sb) s.dataWritten := by
    unfold persist
    rw [bind_ok (writeV2DataPages_clean hone htwo), modify_bind]
    rfl
  rw [hstart]
  cases hpoint : s.failpoint with
  | none =>
      rw [hpoint] at hfp hfp'
      dsimp only
      rw [bind_ok (maybeFailpoint_none _ hfp), bind_ok (maybeFailpoint_none _ hfp), modify_bind,
        bind_ok (maybeFailpoint_none _ hfp'), bind_ok (maybeFailpoint_none _ hfp')]
      rfl
  | some fp =>
      rw [hpoint] at hfp hfp'
      cases fp with
      | AfterDataPagesWrite =>
          obtain ⟨e, he⟩ := maybeFailpoint_hit hfp
          exact ⟨e, bind_error he⟩
      | AfterDataPagesSync =>
          obtain ⟨e, he⟩ := maybeFailpoint_hit hfp
          refine ⟨e, ?_⟩
          rw [bind_ok (maybeFailpoint_miss (by simp [hfp]))]
          exact bind_error he
      | AfterSuperblockWrite =>
          obtain ⟨e, he⟩ := maybeFailpoint_hit hfp'
          refine ⟨e, ?_⟩
          rw [bind_ok (maybeFailpoint_miss (by simp [hfp])),
            bind_ok (maybeFailpoint_miss (by simp [hfp])), modify_bind]
          exact bind_error he
      | AfterSuperblockSync =>
          obtain ⟨e, he⟩ := maybeFailpoint_hit hfp'
          refine ⟨e, ?_⟩
          rw [bind_ok (maybeFailpoint_miss (by simp [hfp])),
            bind_ok (maybeFailpoint_miss (by simp [hfp])), modify_bind,
            bind_ok (maybeFailpoint_miss (by simp [hfp']))]
          exact bind_error he

theorem persist_reserved (slot : SuperblockSlot) (sb : SuperblockV2)
    (h : ¬((s.page 1).dirty = false ∧ (s.page 2).dirty = false)) :
    ∃ e, persist slot sb s = .error e s := by
  obtain ⟨e, he⟩ := writeV2DataPages_reserved h
  exact ⟨e, bind_error he⟩

end Points

theorem exists_take_separates {l : List Nat} {a b : Nat} (hne : a ≠ b) (ha : a ∈ l) (hb : b ∈ l) :
    ∃ n, a ∈ l.take n ∧ b ∉ l.take n ∨ b ∈ l.take n ∧ a ∉ l.take n := by
  induction l with
  | nil => cases ha
  | cons c l ih =>
      by_cases hac : a = c
      · exact ⟨1, .inl ⟨by simp [hac], by simpa [hac] using fun h => hne (hac.trans h.symm)⟩⟩
      by_cases hbc : b = c
      · exact ⟨1, .inr ⟨by simp [hbc], by simpa [hbc] using fun h => hne (h.trans hbc.symm)⟩⟩
      obtain ⟨n, hn⟩ := ih ((List.mem_cons.mp ha).resolve_left hac) ((List.mem_cons.mp hb).resolve_left hbc)
      refine ⟨n + 1, ?_⟩
      simpa [List.take_succ_cons, hac, hbc] using hn

-- Where the process may stop inside `commit_transaction_v2`.
inductive CrashPoint where
  | DataPages (count : Nat)
  | Superblock

structure Accepted (s : Pager) (tx : CowTxnState) : Prop where
  active : s.cow.activeTx = some tx
  base : tx.baseGeneration = s.cow.activeSuperblock.generation
  one : (s.page 1).dirty = false
  two : (s.page 2).dirty = false

def Shows [Lz4Flex] (s view : Pager) : Prop :=
  s.header.totalPages = view.header.totalPages ∧ ∀ p, 2 < p → s.peek p = view.peek p

theorem fits_page {f : DbFile} {disk : SuperblockV2} {slot : SuperblockSlot} {p : Nat}
    (ha : ActiveSlot f disk slot) (hp : p ≤ disk.pageCount) :
    p * PAGE_SIZE ≤ f.len :=
  Nat.le_trans (Nat.mul_le_mul_right _ hp) ha.fits

section Crash

variable [Lz4Flex] {s : Pager} {f : DbFile} {disk : SuperblockV2} {slot : SuperblockSlot}
  {tx : CowTxnState} {p q n : Nat}

-- What has happened when the process stops at the point; a commit that is turned
-- down has changed nothing.
def crash (point : CrashPoint) (s : Pager) : Pager :=
  match s.cow.activeTx with
  | none => s
  | some tx =>
      if tx.baseGeneration = s.cow.activeSuperblock.generation ∧ (s.page 1).dirty = false ∧
          (s.page 2).dirty = false then
        match point with
        | .DataPages count => s.dataPages count
        | .Superblock => s.dataWritten.writeV2Superblock s.cow.activeSlot.inactive
            (s.nextSuperblock tx.targetGeneration)
      else s

theorem crash_accepted (h : Accepted s tx) (point : CrashPoint) : s.crash point = match point with
    | .DataPages count => s.dataPages count
    | .Superblock => s.dataWritten.writeV2Superblock s.cow.activeSlot.inactive
        (s.nextSuperblock tx.targetGeneration) := by
  simp only [crash, h.active]
  rw [if_pos ⟨h.base, h.one, h.two⟩]

theorem crash_refused (h : ∀ tx, ¬Accepted s tx) (point : CrashPoint) : s.crash point = s := by
  unfold crash
  cases htx : s.cow.activeTx with
  | none => rfl
  | some tx => exact if_neg (fun hc => h tx ⟨htx, hc.1, hc.2.1, hc.2.2⟩)

theorem commitTransaction_refused (h : ∀ tx, ¬Accepted s tx) : left commitTransaction s = s := by
  cases htx : s.cow.activeTx with
  | none => exact left_ok (commitTransaction_none htx)
  | some tx =>
      by_cases hgen : tx.baseGeneration = s.cow.activeSuperblock.generation
      · obtain ⟨e, he⟩ := persist_reserved s.cow.activeSlot.inactive
          (s.nextSuperblock tx.targetGeneration)
          (fun hc => h tx ⟨htx, hgen, hc.1, hc.2⟩)
        rw [left, commitTransaction_eq htx hgen, bind_error he]
      · obtain ⟨e, he⟩ := commitTransaction_stale htx hgen
        exact left_error he

theorem linkFreedPages_held (s : Pager) : (left linkFreedPages s).held = s.held := by
  unfold left linkFreedPages
  rw [get_bind]
  cases s.cow.activeTx.bind (·.freedRoot) with
  | none => rfl
  | some root =>
      cases s.cow.activeTx.bind (·.freedTail) with
      | none => rfl
      | some tail => exact (writePage_kept tail _ (s.setPendingFreeRoot root)).held

-- A page above the superblock slots that the commit writes over what the file shows.
def Changed (f : DbFile) (disk : SuperblockV2) (s : Pager) (p : Nat) : Prop :=
  2 < p ∧ p ≤ disk.pageCount ∧ Written s.dirtyPages s p ∧ s.slotRead p ≠ diskRead s.useLz4 f p

def finalRead (f : DbFile) (s : Pager) (p : Nat) : Option PageData :=
  if Written s.dirtyPages s p then s.slotRead p else (decodeSlot s.useLz4 p (f.slot p)).toOption

def Landed (f : DbFile) (s : Pager) : Prop :=
  ∀ p, 2 < p → p ≤ s.header.totalPages → finalRead f s p = s.peek p

-- The file is opened with the superblock of the commit: it is long enough for all
-- its pages, and the generation is not saturated or slot A decides the tie.
def Published (f : DbFile) (disk : SuperblockV2) (s : Pager) (tx : CowTxnState) : Prop :=
  3 ≤ s.header.totalPages ∧ (s.header.totalPages * PAGE_SIZE ≤ f.len ∨
      ∃ q, 0 < q ∧ Written s.dirtyPages s q ∧ s.header.totalPages ≤ q) ∧
    Wins s.cow.activeSlot disk.generation tx.targetGeneration

-- At most one page changes in place and nothing else differs; a commit that grows
-- the file changes no page in place and has written all the pages it publishes.
def CrashSafe (f : DbFile) (disk : SuperblockV2) (s : Pager) (tx : CowTxnState) : Prop :=
  (s.header.totalPages = disk.pageCount →
    ∀ p, Changed f disk s p → (∀ q, Changed f disk s q → q = p) ∧ Landed f s) ∧
  (s.header.totalPages ≠ disk.pageCount →
    (∀ p, ¬Changed f disk s p) ∧ (Published f disk s tx → Landed f s))

theorem shows_fromSuperblock {g : DbFile} {sb : SuperblockV2} {view : Pager} :
    Shows (fromSuperblock g sb slot) view ↔ sb.pageCount = view.header.totalPages ∧
      ∀ p, 2 < p → p ≤ sb.pageCount → diskRead (sb.flags % 2 = 1) g p = view.peek p := by
  refine and_congr_right fun htotal => ⟨fun h p hp hle => ?_, fun h p hp => ?_⟩
  · rw [← h p hp, peek_fromSuperblock, if_pos ⟨by omega, hle⟩]
  · rw [peek_fromSuperblock]
    split_ifs with hr
    · exact h p hp hr.2
    · rw [peek_of_range (.inr (by rw [← htotal]; show sb.pageCount < p; omega))]

theorem dataPages_wrote (hs : Session f disk slot s) (ha : ActiveSlot f disk slot)
    (h : Accepted s tx) (n : Nat) : ∃ g pages, s.dataPages n =
      { s with file := some g, pages := pages, dirtyPages := [] } ∧
      Wrote (s.dirtyPages.take n) s f g ∧ ActiveSlot g disk slot := by
  obtain ⟨g, pages, hrun, hg⟩ := foldl_writeDirtyPage (s := { s with dirtyPages := [] }) (f := f)
    (s.dirtyPages.take n) hs.wal hs.file
    (fun p hp => hs.bounded.tracked p (List.mem_of_mem_take hp))
  have hwrote : Wrote (s.dirtyPages.take n) s f g := ⟨hg.slot, hg.kept, hg.len⟩
  have hone : ¬Written (s.dirtyPages.take n) s 1 := fun hw => by
    rw [Written, h.one] at hw
    exact Bool.noConfusion hw.2.2
  have htwo : ¬Written (s.dirtyPages.take n) s 2 := fun hw => by
    rw [Written, h.two] at hw
    exact Bool.noConfusion hw.2.2
  exact ⟨g, pages, hrun, hwrote, ha.grown (hwrote.kept 1 (by omega) hone)
    (hwrote.kept 2 (by omega) htwo) hwrote.len_le⟩

def firstRead (f : DbFile) (s : Pager) (n p : Nat) : Option PageData :=
  if Written (s.dirtyPages.take n) s p then s.slotRead p else diskRead s.useLz4 f p

theorem crash_dataPages (hs : Session f disk slot s) (ha : ActiveSlot f disk slot)
    (h : Accepted s tx) (n : Nat) : ∃ g r, (s.crash (.DataPages n)).file = some g ∧
      openCowV2 g = .ok r ∧ ∀ view : Pager, Shows r view ↔
        disk.pageCount = view.header.totalPages ∧
          ∀ p, 2 < p → p ≤ disk.pageCount → firstRead f s n p = view.peek p := by
  obtain ⟨g, pages, hrun, hg, hslot⟩ := dataPages_wrote hs ha h n
  have hcrash : s.crash (.DataPages n) = s.dataPages n := crash_accepted h _
  refine ⟨g, fromSuperblock g disk slot, by rw [hcrash, hrun], openCowV2_active hslot,
    fun view => ?_⟩
  rw [shows_fromSuperblock]
  refine and_congr_right fun _ => forall_congr' fun p => forall_congr' fun hp =>
    forall_congr' fun hle => ?_
  rw [← hs.lz4, hg.read (by omega) (fits_page hslot hle), firstRead,
    diskRead_of_le _ (fits_page ha hle)]

theorem published_iff {g : DbFile} (hg : Wrote s.dirtyPages s f g) (hslot : s.cow.activeSlot = slot) :
    Published f disk s tx ↔ (3 ≤ s.header.totalPages ∧ s.header.totalPages * PAGE_SIZE ≤ g.len) ∧
      Wins slot disk.generation tx.targetGeneration := by
  have hpos : 0 < PAGE_SIZE := by decide
  have hlen : s.header.totalPages * PAGE_SIZE ≤ g.len ↔ s.header.totalPages * PAGE_SIZE ≤ f.len ∨
      ∃ q, 0 < q ∧ Written s.dirtyPages s q ∧ s.header.totalPages ≤ q := by
    rw [hg.len]
    refine or_congr_right (exists_congr fun q => and_congr_right fun _ => and_congr_right fun _ => ?_)
    exact ⟨fun h => Nat.le_of_mul_le_mul_right h hpos, fun h => Nat.mul_le_mul_right _ h⟩
  rw [Published, hlen, hslot]
  exact and_assoc.symm

-- Once it is written the file shows the new pages, or the old number of pages when
-- the new superblock cannot be used.
theorem crash_superblock (hs : Session f disk slot s) (ha : ActiveSlot f disk slot)
    (h : Accepted s tx) (hgen : tx.baseGeneration = disk.generation) : ∃ g r total,
      (s.crash .Superblock).file = some g ∧ openCowV2 g = .ok r ∧
      (Published f disk s tx ∧ total = s.header.totalPages ∨
        ¬Published f disk s tx ∧ total = disk.pageCount) ∧
      ∀ view : Pager, Shows r view ↔ total = view.header.totalPages ∧
        ∀ p, 2 < p → p ≤ total → finalRead f s p = view.peek p := by
  obtain ⟨hslot, hid⟩ := hs.active (h.base.symm.trans hgen)
  obtain ⟨g, pages, hrun, hg, hact⟩ := dataPages_wrote hs ha h s.dirtyPages.length
  rw [List.take_length] at hg
  have hnext : (s.nextSuperblock tx.targetGeneration).Valid := by
    refine SuperblockV2.Valid.of_identity hid ha.valid hs.bounded.roots ?_ hs.bounded.total
    rw [hs.target tx h.active]
    exact Nat.min_le_right _ _
  have hflags : (s.nextSuperblock tx.targetGeneration).flags = disk.flags := congrArg Identity.flags hid
  have huuid : (s.nextSuperblock tx.targetGeneration).dbUuid = disk.dbUuid :=
    congrArg Identity.dbUuid hid
  have hcount : (s.nextSuperblock tx.targetGeneration).pageCount = s.header.totalPages := rfl
  have hnew : (s.nextSuperblock tx.targetGeneration).generation = tx.targetGeneration := rfl
  generalize hsb : s.nextSuperblock tx.targetGeneration = next at hnext hflags huuid hcount hnew
  have hfile : (s.crash .Superblock).file = some (g.writePage slot.inactive.pageNum next.serialize) := by
    rw [show s.crash .Superblock = s.dataWritten.writeV2Superblock s.cow.activeSlot.inactive
      (s.nextSuperblock tx.targetGeneration) from crash_accepted h _, hslot, hsb, dataWritten, hrun]
    rfl
  have htwo := hact.two_le
  have hlen := len_superblock next slot.inactive htwo
  have hfits : superblockFitsFile disk (g.writePage slot.inactive.pageNum next.serialize).len = true := by
    simp only [superblockFitsFile, decide_eq_true_eq, hlen]
    exact ⟨hact.count, hact.fits⟩
  have hopen := openCowV2_pair (magic_written next hact.magic)
    ((readSuperblockV2_kept next slot htwo).trans hact.active) hfits
    (readSuperblockV2_written hnext) (by rw [SuperblockV2.stamp_dbUuid, huuid])
  have hpub : Published f disk s tx ↔ _ := published_iff hg hslot
  have hchoice : Published f disk s tx ↔ superblockFitsFile next.stamp
      (g.writePage slot.inactive.pageNum next.serialize).len = true ∧
      Wins slot disk.generation next.stamp.generation := by
    rw [hpub]
    simp only [superblockFitsFile, decide_eq_true_eq, SuperblockV2.stamp_pageCount,
      SuperblockV2.stamp_generation, hcount, hnew, hlen]
  have hread : ∀ p, 2 < p → p * PAGE_SIZE ≤ g.len →
      diskRead s.useLz4 (g.writePage slot.inactive.pageNum next.serialize) p = finalRead f s p := by
    intro p hp hle
    rw [diskRead_superblock _ _ _ _ hp htwo, hg.read (by omega) hle]
    rfl
  by_cases hp : Published f disk s tx
  · rw [if_pos (hchoice.mp hp)] at hopen
    refine ⟨_, _, s.header.totalPages, hfile, hopen, .inl ⟨hp, rfl⟩, fun view => ?_⟩
    have hfit := (hpub.mp hp).1.2
    rw [shows_fromSuperblock, SuperblockV2.stamp_pageCount, SuperblockV2.stamp_flags, hcount, hflags]
    refine and_congr_right fun _ => forall_congr' fun p => forall_congr' fun hp' =>
      forall_congr' fun hle => ?_
    rw [← hs.lz4, hread p hp' (Nat.le_trans (Nat.mul_le_mul_right _ hle) hfit)]
  · rw [if_neg (fun hc => hp (hchoice.mpr hc))] at hopen
    refine ⟨_, _, disk.pageCount, hfile, hopen, .inr ⟨hp, rfl⟩, fun view => ?_⟩
    rw [shows_fromSuperblock]
    refine and_congr_right fun _ => forall_congr' fun p => forall_congr' fun hp' =>
      forall_congr' fun hle => ?_
    rw [← hs.lz4, hread p hp' (fits_page hact hle)]

theorem firstRead_of_unchanged (hp : 2 < p) (hle : p ≤ disk.pageCount)
    (h : Written (s.dirtyPages.take n) s p → ¬Changed f disk s p) :
    firstRead f s n p = diskRead s.useLz4 f p := by
  unfold firstRead
  split_ifs with hw
  · by_contra hne
    exact h hw ⟨hp, hle, ⟨List.mem_of_mem_take hw.1, hw.2⟩, hne⟩
  · rfl

theorem finalRead_eq_firstRead (hfits : p * PAGE_SIZE ≤ f.len) :
    finalRead f s p = firstRead f s s.dirtyPages.length p := by
  rw [finalRead, firstRead, List.take_length, diskRead_of_le _ hfits]

-- The reading of the old pages after `n` writes is that of the file before them.
def Unaltered (f : DbFile) (disk : SuperblockV2) (s : Pager) (n : Nat) : Prop :=
  ∀ p, 2 < p → p ≤ disk.pageCount → firstRead f s n p = diskRead s.useLz4 f p

theorem shows_before (hs : Session f disk slot s) {total : Nat} {read : Nat → Option PageData}
    (htotal : total = disk.pageCount) :
    (total = (fromSuperblock f disk slot).header.totalPages ∧
      ∀ p, 2 < p → p ≤ total → read p = (fromSuperblock f disk slot).peek p) ↔
    ∀ p, 2 < p → p ≤ disk.pageCount → read p = diskRead s.useLz4 f p := by
  subst htotal
  have hpeek : ∀ p, 2 < p → p ≤ disk.pageCount →
      (fromSuperblock f disk slot).peek p = diskRead s.useLz4 f p := by
    intro p hp hle
    rw [peek_fromSuperblock, if_pos ⟨by omega, hle⟩, hs.lz4]
  constructor
  · rintro ⟨-, h⟩ p hp hle
    rw [h p hp hle, hpeek p hp hle]
  · intro h
    refine ⟨rfl, fun p hp hle => ?_⟩
    rw [h p hp hle, hpeek p hp hle]

-- The reopened file shows the pages before the transaction or those after it.
def Atomic (f : DbFile) (s : Pager) : Prop :=
  ∃ b, openCowV2 f = .ok b ∧ ∀ point, ∃ g r, (s.crash point).file = some g ∧
    openCowV2 g = .ok r ∧ (Shows r b ∨ Shows r s)

theorem atomic_dataPages (hs : Session f disk slot s) (ha : ActiveSlot f disk slot)
    (h : Accepted s tx) (n : Nat) :
    (∃ g r, (s.crash (.DataPages n)).file = some g ∧ openCowV2 g = .ok r ∧
      (Shows r (fromSuperblock f disk slot) ∨ Shows r s)) ↔
    Unaltered f disk s n ∨ (disk.pageCount = s.header.totalPages ∧
      ∀ p, 2 < p → p ≤ disk.pageCount → firstRead f s n p = s.peek p) := by
  obtain ⟨g, r, hfile, hopen, hview⟩ := crash_dataPages hs ha h n
  have hshow := (hview (fromSuperblock f disk slot)).trans (shows_before hs rfl)
  constructor
  · rintro ⟨g', r', hfile', hopen', hr⟩
    obtain rfl := Option.some.inj (hfile.symm.trans hfile')
    obtain rfl := Except.ok.inj (hopen.symm.trans hopen')
    exact hr.imp hshow.mp (hview s).mp
  · intro hr
    exact ⟨g, r, hfile, hopen, hr.imp hshow.mpr (hview s).mpr⟩

theorem not_unaltered (hc : Changed f disk s p) (hw : Written (s.dirtyPages.take n) s p) :
    ¬Unaltered f disk s n := by
  intro h
  have hread := h p hc.1 hc.2.1
  rw [firstRead, if_pos hw] at hread
  exact hc.2.2.2 hread

theorem atomic_superblock (hs : Session f disk slot s) (ha : ActiveSlot f disk slot)
    (h : Accepted s tx) (hgen : tx.baseGeneration = disk.generation) :
    (∃ g r, (s.crash .Superblock).file = some g ∧ openCowV2 g = .ok r ∧
      (Shows r (fromSuperblock f disk slot) ∨ Shows r s)) ↔
    (Published f disk s tx → s.header.totalPages ≠ disk.pageCount → Landed f s) ∧
      (¬Published f disk s tx ∨ s.header.totalPages = disk.pageCount →
        Unaltered f disk s s.dirtyPages.length ∨ (disk.pageCount = s.header.totalPages ∧
          ∀ p, 2 < p → p ≤ disk.pageCount → firstRead f s s.dirtyPages.length p = s.peek p)) := by
  obtain ⟨g, r, total, hfile, hopen, hcase, hview⟩ := crash_superblock hs ha h hgen
  have hiff : (∃ g r, (s.crash .Superblock).file = some g ∧ openCowV2 g = .ok r ∧
      (Shows r (fromSuperblock f disk slot) ∨ Shows r s)) ↔
      (Shows r (fromSuperblock f disk slot) ∨ Shows r s) := by
    constructor
    · rintro ⟨g', r', hfile', hopen', hr⟩
      obtain rfl := Option.some.inj (hfile.symm.trans hfile')
      obtain rfl := Except.ok.inj (hopen.symm.trans hopen')
      exact hr
    · exact fun hr => ⟨g, r, hfile, hopen, hr⟩
  have hold : total = disk.pageCount → ((Shows r (fromSuperblock f disk slot) ∨ Shows r s) ↔
      Unaltered f disk s s.dirtyPages.length ∨ (disk.pageCount = s.header.totalPages ∧
        ∀ p, 2 < p → p ≤ disk.pageCount → firstRead f s s.dirtyPages.length p = s.peek p)) := by
    intro htotal
    have hread : ∀ p, p ≤ disk.pageCount → finalRead f s p = firstRead f s s.dirtyPages.length p :=
      fun p hle => finalRead_eq_firstRead (fits_page ha hle)
    rw [hview, hview, shows_before hs htotal, htotal]
    refine or_congr (forall_congr' fun p => forall_congr' fun _ => forall_congr' fun hle => ?_)
      (and_congr_right fun _ => forall_congr' fun p => forall_congr' fun _ => forall_congr' fun hle => ?_)
    · rw [hread p hle]
    · rw [hread p hle]
  rw [hiff]
  by_cases hsame : s.header.totalPages = disk.pageCount
  · have htotal : total = disk.pageCount := by
      rcases hcase with ⟨-, ht⟩ | ⟨-, ht⟩
      · rw [ht, hsame]
      · exact ht
    rw [hold htotal]
    exact ⟨fun hr => ⟨fun _ hne => absurd hsame hne, fun _ => hr⟩, fun hr => hr.2 (.inr hsame)⟩
  rcases hcase with ⟨hpub, ht⟩ | ⟨hpub, ht⟩
  · have hnot : ¬Shows r (fromSuperblock f disk slot) := by
      rw [hview, ht]
      exact fun hr => hsame hr.1
    have hnew : Shows r s ↔ Landed f s := by
      rw [hview, ht]
      exact ⟨fun hr => hr.2, fun hr => ⟨rfl, hr⟩⟩
    rw [hnew]
    refine ⟨fun hr => ⟨fun _ _ => hr.resolve_left hnot, fun hc => ?_⟩, fun hr => .inr (hr.1 hpub hsame)⟩
    exact absurd hc (by simp [hpub, hsame])
  · rw [hold ht]
    exact ⟨fun hr => ⟨fun hc => absurd hc hpub, fun _ => hr⟩, fun hr => hr.2 (.inl hpub)⟩

theorem atomic_iff_crashSafe (hs : Session f disk slot s) (ha : ActiveSlot f disk slot)
    (h : Accepted s tx) (hgen : tx.baseGeneration = disk.generation) :
    Atomic f s ↔ CrashSafe f disk s tx := by
  have hall : Atomic f s ↔ ∀ point, ∃ g r, (s.crash point).file = some g ∧
      openCowV2 g = .ok r ∧ (Shows r (fromSuperblock f disk slot) ∨ Shows r s) := by
    constructor
    · rintro ⟨b, hb, hr⟩
      obtain rfl := Except.ok.inj ((openCowV2_active ha).symm.trans hb)
      exact hr
    · exact fun hr => ⟨_, openCowV2_active ha, hr⟩
  have hdata := atomic_dataPages hs ha h
  have hsuper := atomic_superblock hs ha h hgen
  have hfull : ∀ p, Written s.dirtyPages s p ↔ Written (s.dirtyPages.take s.dirtyPages.length) s p := by
    rw [List.take_length]
    exact fun p => Iff.rfl
  rw [hall]
  constructor
  · intro hr
    have hpoint := fun n => (hdata n).mp (hr (.DataPages n))
    have hend := hsuper.mp (hr .Superblock)
    refine ⟨fun hsame p hc => ?_, fun hne => ⟨fun p hc => ?_, fun hpub => hend.1 hpub hne⟩⟩
    · -- a second changed page would have to show its old and its new content
      have hnew : ∀ n, Written (s.dirtyPages.take n) s p ∨ (∃ q, Changed f disk s q ∧
          Written (s.dirtyPages.take n) s q) → ∀ q, 2 < q → q ≤ disk.pageCount →
          firstRead f s n q = s.peek q := by
        intro n hw
        have hnot : ¬Unaltered f disk s n := by
          rcases hw with hw | ⟨q, hq, hw⟩
          · exact not_unaltered hc hw
          · exact not_unaltered hq hw
        exact ((hpoint n).resolve_left hnot).2
      have hlast := hnew _ (.inl ((hfull p).mp hc.2.2.1))
      have hland : ∀ q, 2 < q → q ≤ disk.pageCount → finalRead f s q = s.peek q := fun q hq hle => by
        rw [finalRead_eq_firstRead (fits_page ha hle), hlast q hq hle]
      refine ⟨fun q hcq => ?_, fun q hq hle => hland q hq (by rw [← hsame]; exact hle)⟩
      by_contra hqp
      have hclash : ∀ a b n, Changed f disk s a → Changed f disk s b →
          Written (s.dirtyPages.take n) s a → b ∉ s.dirtyPages.take n → False := by
        intro a b n ha' hb hwa hnb
        have hmid := hnew n (.inr ⟨a, ha', hwa⟩) b hb.1 hb.2.1
        rw [firstRead, if_neg (fun hw => hnb hw.1)] at hmid
        have hfin := hland b hb.1 hb.2.1
        rw [finalRead, if_pos hb.2.2.1] at hfin
        exact hb.2.2.2 (hfin.trans hmid.symm)
      obtain ⟨n, hn⟩ := exists_take_separates (Ne.symm hqp) hc.2.2.1.1 hcq.2.2.1.1
      rcases hn with ⟨hin, hout⟩ | ⟨hin, hout⟩
      · exact hclash p q n hc hcq ⟨hin, hc.2.2.1.2⟩ hout
      · exact hclash q p n hcq hc ⟨hin, hcq.2.2.1.2⟩ hout
    · refine not_unaltered hc ((hfull p).mp hc.2.2.1) ((hpoint _).resolve_right fun hn => ?_)
      exact hne hn.1.symm
  · rintro ⟨hsame, hgrow⟩
    -- with no page changed by the first writes, the old pages are still there
    have hkeep : ∀ n, (∀ p, Written (s.dirtyPages.take n) s p → ¬Changed f disk s p) →
        Unaltered f disk s n := fun n hn p hp hle => firstRead_of_unchanged hp hle (hn p)
    have hpoint : ∀ n, Unaltered f disk s n ∨ (disk.pageCount = s.header.totalPages ∧
        ∀ p, 2 < p → p ≤ disk.pageCount → firstRead f s n p = s.peek p) := by
      intro n
      by_cases hex : ∃ p, Written (s.dirtyPages.take n) s p ∧ Changed f disk s p
      · obtain ⟨p, hw, hc⟩ := hex
        right
        by_cases ht : s.header.totalPages = disk.pageCount
        · obtain ⟨honly, hland⟩ := hsame ht p hc
          refine ⟨ht.symm, fun q hq hle => ?_⟩
          rw [← hland q hq (by rw [ht]; exact hle), finalRead_eq_firstRead (fits_page ha hle)]
          by_cases hqp : q = p
          · rw [hqp, firstRead, firstRead, if_pos hw, if_pos ((hfull p).mp hc.2.2.1)]
          · have hun : ∀ m, firstRead f s m q = diskRead s.useLz4 f q := fun m =>
              firstRead_of_unchanged hq hle (fun _ hcq => hqp (honly q hcq))
            rw [hun, hun]
        · exact absurd hc ((hgrow ht).1 p)
      · exact .inl (hkeep n fun p hw hc => hex ⟨p, hw, hc⟩)
    rintro (n | _)
    · exact (hdata n).mpr (hpoint n)
    · exact hsuper.mpr ⟨fun hpub hne => (hgrow hne).2 hpub, fun _ => hpoint _⟩

-- A commit survives a crash at every point exactly when it is turned down or changes
-- the file in one step.
theorem commitTransaction_atomic_iff (f : DbFile) (disk : SuperblockV2) (B : Pager)
    (ops : List TxnOp) (hB : Rested f disk B) :
    Atomic f (run TxnOp.step ops (left beginTransaction B)) ↔
      ∀ tx, Accepted (run TxnOp.step ops (left beginTransaction B)) tx →
        CrashSafe f disk (run TxnOp.step ops (left beginTransaction B)) tx := by
  have hgen : B.cow.activeSuperblock.generation = disk.generation :=
    congrArg Identity.generation hB.identity
  have hbegun : Session f disk B.cow.activeSlot (left beginTransaction B) ∧
      (left beginTransaction B).held.generations =
        some (disk.generation, saturatingSucc disk.generation) := by
    rw [left_ok (beginTransaction_eq hB.idle), ← hgen]
    exact ⟨hB.session.start, rfl⟩
  have hmeets : Meets TxnOp.step (fun _ _ => True) ops (left beginTransaction B) := meets_true _ _
  obtain ⟨hs, htx⟩ := run_invariant (fun s => Session f disk B.cow.activeSlot s ∧
      s.held.generations = some (disk.generation, saturatingSucc disk.generation))
    hbegun (fun op s hs _ => by
      obtain ⟨tx, htx, -⟩ := Option.map_eq_some_iff.mp hs.2
      refine ⟨hs.1.step op, ?_⟩
      rw [op.step_generations hs.1.bounded (by rw [htx]; rfl)]
      exact hs.2) hmeets
  generalize run TxnOp.step ops (left beginTransaction B) = s at hs htx ⊢
  by_cases hacc : ∃ tx, Accepted s tx
  · obtain ⟨tx, h⟩ := hacc
    obtain ⟨tx', htx', heq⟩ := Option.map_eq_some_iff.mp htx
    have hbase : tx.baseGeneration = disk.generation := by
      obtain rfl := Option.some.inj (h.active.symm.trans htx')
      exact congrArg Prod.fst heq
    rw [atomic_iff_crashSafe hs hB.slot h hbase]
    refine ⟨fun hsafe tx' h' => ?_, fun hall => hall tx h⟩
    obtain rfl := Option.some.inj (h.active.symm.trans h'.active)
    exact hsafe
  · refine ⟨fun _ tx h => absurd ⟨tx, h⟩ hacc, fun _ => ?_⟩
    refine ⟨_, openCowV2_active hB.slot, fun point => ⟨f, _, ?_, openCowV2_active hB.slot, .inl ?_⟩⟩
    · rw [crash_refused (fun tx h => hacc ⟨tx, h⟩) point]
      exact hs.file
    · exact ⟨rfl, fun p _ => rfl⟩

end Crash

section Examples

attribute [local instance] Lz4Flex.incompressible

def oneWrite : Pager :=
  run TxnOp.step [.Write 3 (setLink 7)] (left beginTransaction
    { fromSuperblock (createdFile Buf.zero) (createdSuperblock Buf.zero).stamp .A with maxBufferPages := 256 })

theorem commitTransaction_atomic_oneWrite : Atomic (createdFile Buf.zero) oneWrite := by
  refine (commitTransaction_atomic_iff (createdFile Buf.zero) (createdSuperblock Buf.zero).stamp
    _ [.Write 3 (setLink 7)] (rested_opened (activeSlot_created Buf.zero) 256)).mpr fun tx _ => ?_
  have hthree : ∀ p, 2 < p → p ≤ 3 → p = 3 := fun p h h' => by omega
  refine ⟨fun _ p hp => ⟨fun q hq => ?_, fun q hq hle => ?_⟩, fun hne => absurd rfl hne⟩
  · rw [hthree p hp.1 hp.2.1, hthree q hq.1 hq.2.1]
  · obtain rfl := hthree q hq hle
    rfl

def fourPages : Pager :=
  left commitTransaction (run TxnOp.step [.AllocatePage, .Write 4 (setLink 5)] (left beginTransaction
    (fromSuperblock (createdFile Buf.zero) (createdSuperblock Buf.zero).stamp .A)))

def twoWrites : Pager :=
  run TxnOp.step [.Write 3 (setLink 7), .Write 4 (setLink 7)] (left beginTransaction fourPages)

def linkOnDisk (file : Option DbFile) (p : Nat) : Option Nat :=
  file.bind fun f => (openCowV2 f).toOption.bind fun r => (r.peek p).map (·.u32 0)

theorem link_opened {f : DbFile} {r : Pager} {file : Option DbFile} (hfile : file = some f)
    (h : openCowV2 f = .ok r) (p : Nat) : (r.peek p).map (·.u32 0) = linkOnDisk file p := by
  rw [linkOnDisk, hfile, Option.bind_some, h]
  rfl

-- After the write of page 3 the reopened file has the new page 3 and the old page 4.
theorem commitTransaction_mixes_pages : ∃ f, fourPages.file = some f ∧ ¬Atomic f twoWrites := by
  refine ⟨_, rfl, ?_⟩
  rintro ⟨b, hb, hall⟩
  obtain ⟨g, r, hg, hr, h⟩ := hall (.DataPages 1)
  have hthree : (r.peek 3).map (·.u32 0) = some 7 := (link_opened hg hr 3).trans (by decide +kernel)
  have hfour : (r.peek 4).map (·.u32 0) = some 5 := (link_opened hg hr 4).trans (by decide +kernel)
  rcases h with h | h
  · have hold : (b.peek 3).map (·.u32 0) = some 13 :=
      (link_opened (show fourPages.file = some _ from rfl) hb 3).trans (by decide +kernel)
    rw [← h.2 3 (by decide), hthree] at hold
    cases hold
  · have hnew : (twoWrites.peek 4).map (·.u32 0) = some 7 := by decide +kernel
    rw [← h.2 4 (by decide), hfour] at hnew
    cases hnew

end Examples

end Pager

end Kkdb
