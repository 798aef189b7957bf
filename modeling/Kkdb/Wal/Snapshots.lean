import Kkdb.Wal.Checkpoint

namespace Kkdb

open Lib

structure WalSnapshot where
  pageMap : AList (fun _ : Nat => Nat)
  snapshotEnd : Nat

namespace Wal

def snapshot (w : Wal) : WalSnapshot where
  pageMap := w.index.pageMap
  snapshotEnd := w.committedFrames.length

def registerSnapshot (w : Wal) : Nat × WalSnapshot × Wal :=
  (w.nextSnapshotId, w.snapshot,
    { w with
      nextSnapshotId := w.nextSnapshotId + 1
      activeSnapshots := w.activeSnapshots ++
        [{ id := w.nextSnapshotId, visibleFrames := w.snapshot.snapshotEnd }] })

def releaseSnapshot (w : Wal) (snapshotId : Nat) : Bool × Wal :=
  let kept := w.activeSnapshots.filter fun e => e.id != snapshotId
  (kept.length < w.activeSnapshots.length, { w with activeSnapshots := kept })

def readPageSnapshot (w : Wal) (p : Nat) (snap : WalSnapshot) : Option PageData :=
  (snap.pageMap.lookup p).bind fun idx =>
    if idx < snap.snapshotEnd ∧ idx < w.committedFrames.length then
      (w.committedFrames[idx]?).map (·.data)
    else none

inductive ReaderOp where
  | WritePage (page : Nat) (data : PageData)
  | Commit (dbPageCount : Nat)
  | Rollback
  | RegisterSnapshot
  | ReleaseSnapshot (snapshotId : Nat)
  | Checkpoint (nanos : Nat)

-- A reader with what its pages were when it registered.
structure Reader where
  id : Nat
  snap : WalSnapshot
  seen : Nat → Option PageData

structure Readers where
  wal : Wal
  db : DbFile
  readers : List Reader

namespace Readers

def content (w : Wal) (db : DbFile) (snap : WalSnapshot) (p : Nat) : Option PageData :=
  (w.readPageSnapshot p snap).or (db.readPage p)

def step (op : ReaderOp) (s : Readers) : Readers :=
  match op with
  | .WritePage page data => { s with wal := s.wal.writePage page data }
  | .Commit count => { s with wal := s.wal.commit count }
  | .Rollback => { s with wal := s.wal.rollback }
  | .RegisterSnapshot =>
      let (id, snap, w) := s.wal.registerSnapshot
      { s with wal := w, readers := s.readers ++ [{ id, snap, seen := content w s.db snap }] }
  | .ReleaseSnapshot id =>
      { s with
        wal := (s.wal.releaseSnapshot id).2
        readers := s.readers.filter fun r => r.id != id }
  | .Checkpoint nanos =>
      let r := s.wal.checkpoint s.db nanos
      { s with wal := r.1, db := r.2.1 }

def Stable (s : Readers) : Prop :=
  ∀ r ∈ s.readers, ∀ p, 0 < p → content s.wal s.db r.snap p = r.seen p

-- No commit reuses the frame numbers of a reader whose frames a checkpoint took, and a
-- checkpoint under readers gives the database file the pages it has already.
def Steady (op : ReaderOp) (s : Readers) : Prop :=
  match op with
  | .Commit _ => s.wal.uncommitted ≠ [] →
      ∀ e ∈ s.wal.activeSnapshots, e.visibleFrames ≤ s.wal.committedFrames.length
  | .Checkpoint _ => s.wal.activeSnapshots ≠ [] → ¬s.wal.Blocked →
      0 < s.wal.index.dbPageCount ∧ ∀ p, 0 < p → (p ≤ s.wal.index.dbPageCount ↔
        (s.wal.index.pageMap.lookup p).isSome = true ∨ p * PAGE_SIZE ≤ s.db.len)
  | _ => True

-- The frames of a reader are those in front of the log, or they are in the database file
-- and the log is empty.
structure Kept (s : Readers) : Prop where
  indexed : s.wal.Indexed
  tracked : ∀ r ∈ s.readers, { id := r.id, visibleFrames := r.snap.snapshotEnd } ∈ s.wal.activeSnapshots
  live : ∀ r ∈ s.readers, s.wal.committedFrames = [] ∨
    (r.snap.snapshotEnd ≤ s.wal.committedFrames.length ∧
      (r.snap.snapshotEnd = s.wal.committedFrames.length →
        ∀ p, r.snap.pageMap.lookup p = s.wal.index.pageMap.lookup p))
  stable : s.Stable

variable {s : Readers} {r : Reader} {op : ReaderOp}

theorem content_empty {w : Wal} (h : w.committedFrames = []) (db : DbFile) (snap : WalSnapshot)
    (p : Nat) : content w db snap p = db.readPage p := by
  have hnone : w.readPageSnapshot p snap = none := by
    rw [readPageSnapshot, h]
    cases snap.pageMap.lookup p with
    | none => rfl
    | some idx => simp
  rw [content, hnone, Option.none_or]

theorem content_append {w w' : Wal} {new : List WalFrame}
    (hframes : w'.committedFrames = w.committedFrames ++ new) {snap : WalSnapshot}
    (hend : snap.snapshotEnd ≤ w.committedFrames.length) (db : DbFile) (p : Nat) :
    content w' db snap p = content w db snap p := by
  have hsame : w'.readPageSnapshot p snap = w.readPageSnapshot p snap := by
    rw [readPageSnapshot, readPageSnapshot, hframes]
    cases snap.pageMap.lookup p with
    | none => rfl
    | some idx =>
        simp only [Option.bind_some]
        by_cases hidx : idx < snap.snapshotEnd
        · rw [if_pos ⟨hidx, by rw [List.length_append]; omega⟩, if_pos ⟨hidx, by omega⟩,
            List.getElem?_append_left (by omega)]
        · rw [if_neg (fun h => hidx h.1), if_neg (fun h => hidx h.1)]
  rw [content, content, hsame]

theorem Kept.of_eq (h : s.Kept) {w : Wal} (hframes : w.committedFrames = s.wal.committedFrames)
    (hindex : w.index = s.wal.index) (hsnaps : w.activeSnapshots = s.wal.activeSnapshots) :
    ({ s with wal := w } : Readers).Kept := by
  refine ⟨?_, ?_, ?_, fun r hr p hp => ?_⟩
  · intro p idx hidx
    rw [hindex] at hidx
    rw [hframes]
    exact h.indexed p idx hidx
  · intro r hr
    rw [hsnaps]
    exact h.tracked r hr
  · intro r hr
    rw [hframes, hindex]
    exact h.live r hr
  · have hread : content w s.db r.snap p = content s.wal s.db r.snap p := by
      rw [content, content, readPageSnapshot, readPageSnapshot, hframes]
    exact hread.trans (h.stable r hr p hp)

theorem Kept.commit (h : s.Kept) (count : Nat) (hop : Steady (.Commit count) s) :
    (Readers.step (.Commit count) s).Kept := by
  by_cases hne : s.wal.uncommitted = []
  · have hsame : s.wal.commit count = s.wal := by rw [Wal.commit, if_pos hne]
    refine h.of_eq ?_ ?_ ?_
    all_goals rw [hsame]
  have hend : ∀ r ∈ s.readers, r.snap.snapshotEnd ≤ s.wal.committedFrames.length := fun r hr =>
    hop hne _ (h.tracked r hr)
  have hframes : (s.wal.commit count).committedFrames =
    s.wal.committedFrames ++ markCommit s.wal.uncommitted count := committedFrames_commit hne
  have hgrown : s.wal.committedFrames.length < (s.wal.commit count).committedFrames.length := by
    rw [hframes, List.length_append, length_markCommit]
    have := List.length_pos_iff.mpr hne
    omega
  refine ⟨indexed_commit h.indexed count, ?_, ?_, ?_⟩
  · intro r hr
    have hsnaps : (s.wal.commit count).activeSnapshots = s.wal.activeSnapshots := by
      rw [Wal.commit, if_neg hne]
    show _ ∈ (s.wal.commit count).activeSnapshots
    rw [hsnaps]
    exact h.tracked r hr
  · intro r hr
    have hle := hend r hr
    exact .inr ⟨Nat.le_of_lt (Nat.lt_of_le_of_lt hle hgrown), fun heq => absurd heq (by
      show r.snap.snapshotEnd ≠ (s.wal.commit count).committedFrames.length
      omega)⟩
  · intro r hr p hp
    exact (content_append hframes (hend r hr) s.db p).trans (h.stable r hr p hp)

theorem Kept.register (h : s.Kept) : (Readers.step .RegisterSnapshot s).Kept := by
  have hcontent : ∀ snap p, content s.wal.registerSnapshot.2.2 s.db snap p = content s.wal s.db snap p :=
    fun _ _ => rfl
  refine ⟨h.indexed, fun r hr => ?_, fun r hr => ?_, fun r hr p hp => ?_⟩
  · rcases List.mem_append.mp hr with hold | hnew
    · exact List.mem_append_left _ (h.tracked r hold)
    · rw [List.mem_singleton.mp hnew]
      exact List.mem_append_right _ List.mem_cons_self
  · rcases List.mem_append.mp hr with hold | hnew
    · exact h.live r hold
    · rw [List.mem_singleton.mp hnew]
      exact .inr ⟨Nat.le_refl _, fun _ _ => rfl⟩
  · rcases List.mem_append.mp hr with hold | hnew
    · exact (hcontent _ p).trans (h.stable r hold p hp)
    · rw [List.mem_singleton.mp hnew]
      rfl

theorem Kept.release (h : s.Kept) (id : Nat) : (Readers.step (.ReleaseSnapshot id) s).Kept := by
  refine ⟨h.indexed, fun r hr => ?_, fun r hr => h.live r (List.mem_of_mem_filter hr),
    fun r hr p hp => ?_⟩
  · obtain ⟨hmem, hid⟩ := List.mem_filter.mp hr
    exact List.mem_filter.mpr ⟨h.tracked r hmem, hid⟩
  · exact h.stable r (List.mem_of_mem_filter hr) p hp

-- Where readers let a checkpoint through, each of them sees the whole log.
theorem visible_of_unblocked {w : Wal} (h : ¬w.Blocked) {e : SnapshotEntry} (he : e ∈ w.activeSnapshots) :
    w.committedFrames ≠ [] ∧ w.committedFrames.length ≤ e.visibleFrames := by
  have hne : w.activeSnapshots ≠ [] := List.ne_nil_of_mem he
  have hzero : w.safeCheckpointBoundary ≠ 0 := fun hz => h ⟨hz, hne⟩
  have hboundary := w.safeCheckpointBoundary_cases.resolve_right h
  refine ⟨fun hnil => hzero (by rw [hboundary, hnil]; rfl), ?_⟩
  unfold safeCheckpointBoundary at hzero
  cases hmin : (w.activeSnapshots.map (·.visibleFrames)).min? with
  | none =>
      rw [List.min?_eq_none_iff, List.map_eq_nil_iff] at hmin
      exact absurd hmin hne
  | some minVisible =>
      rw [hmin] at hzero
      dsimp only at hzero
      split_ifs at hzero with hle
      · have hleast := (List.min?_eq_some_iff.mp hmin).2 e.visibleFrames (List.mem_map_of_mem he)
        exact Nat.le_trans hle hleast
      · exact absurd rfl hzero

theorem readPage_checkpointed {w : Wal} (hw : w.Indexed) (db : DbFile) (nanos : Nat) {p : Nat}
    (hp : 0 < p) (hcount : 0 < w.index.dbPageCount)
    (hpages : p ≤ w.index.dbPageCount ↔
      (w.index.pageMap.lookup p).isSome = true ∨ p * PAGE_SIZE ≤ db.len) :
    (w.fullCheckpoint db nanos).2.1.readPage p =
      ((w.index.pageMap.lookup p).bind fun idx => (w.committedFrames[idx]?).map (·.data)).or
        (db.readPage p) := by
  have hfile : (w.fullCheckpoint db nanos).2.1 = (runSteps (w.rollback.dbSteps
      (w.rollback.checkpointWrites w.rollback.committedFrames.length)) ⟨db, []⟩).db := by
    rw [runSteps_dbSteps]
    rfl
  by_cases hle : p ≤ w.index.dbPageCount
  · have hclean : w.rollback.uncommitted = [] := rfl
    rw [hfile, readPage_settled hclean (List.Perm.refl _) db [] hp hle, runningView,
      readPage_of_clean hclean]
    show some (Option.getD ((w.index.pageMap.lookup p).bind _) _) = _
    cases hidx : w.index.pageMap.lookup p with
    | none =>
        have hlen : p * PAGE_SIZE ≤ db.len := (hpages.mp hle).resolve_left (by simp [hidx])
        rw [DbFile.readPage, if_pos hlen]
        rfl
    | some idx =>
        have hlt := hw p idx hidx
        simp only [Option.bind_some]
        rw [show w.rollback.committedFrames = w.committedFrames from rfl, List.getElem?_eq_getElem hlt]
        rfl
  · rw [hpages, not_or] at hle
    have hnone : w.index.pageMap.lookup p = none := by simpa using hle.1
    have hshort : ¬p * PAGE_SIZE ≤ w.index.dbPageCount * PAGE_SIZE := by
      have hp' : ¬p ≤ w.index.dbPageCount := by rw [hpages, not_or]; exact hle
      exact fun hmul => hp' (Nat.le_of_mul_le_mul_right hmul (by decide))
    have hlen : (w.fullCheckpoint db nanos).2.1.len = w.index.dbPageCount * PAGE_SIZE := by
      rw [hfile, runSteps_dbSteps]
      show DbFile.len (if 0 < w.index.dbPageCount then _ else _) = _
      rw [if_pos hcount]
      rfl
    rw [hnone, Option.bind_none, Option.none_or, DbFile.readPage, DbFile.readPage, if_neg hle.2,
      if_neg (by rw [hlen]; exact hshort)]

theorem Kept.checkpoint (h : s.Kept) (nanos : Nat) (hop : Steady (.Checkpoint nanos) s) :
    (Readers.step (.Checkpoint nanos) s).Kept := by
  by_cases hblocked : s.wal.Blocked
  · have hstep : Readers.step (.Checkpoint nanos) s = s := by
      simp only [Readers.step, checkpoint_blocked hblocked]
    rw [hstep]
    exact h
  have hstep : Readers.step (.Checkpoint nanos) s =
      { s with wal := (s.wal.fullCheckpoint s.db nanos).1, db := (s.wal.fullCheckpoint s.db nanos).2.1 } := by
    simp only [Readers.step, checkpoint_unblocked hblocked]
  rw [hstep]
  refine ⟨fun p idx hidx => ?_, h.tracked, fun r hr => .inl rfl, fun r hr p hp => ?_⟩
  · exact absurd hidx (by simp [fullCheckpoint])
  obtain ⟨hsome, hvisible⟩ := visible_of_unblocked hblocked (h.tracked r hr)
  obtain ⟨hend, hmap⟩ := (h.live r hr).resolve_left hsome
  obtain ⟨hcount, hpages⟩ := hop (List.ne_nil_of_mem (h.tracked r hr)) hblocked
  have hall : r.snap.snapshotEnd = s.wal.committedFrames.length := Nat.le_antisymm hend hvisible
  have hbefore : content s.wal s.db r.snap p =
      ((s.wal.index.pageMap.lookup p).bind fun idx => (s.wal.committedFrames[idx]?).map (·.data)).or
        (s.db.readPage p) := by
    rw [content, readPageSnapshot, hmap hall p, hall]
    cases hidx : s.wal.index.pageMap.lookup p with
    | none => rfl
    | some idx =>
        have hlt := h.indexed p idx hidx
        simp only [Option.bind_some]
        rw [if_pos ⟨hlt, hlt⟩]
  rw [← h.stable r hr p hp, hbefore, content_empty rfl]
  exact readPage_checkpointed h.indexed s.db nanos hp hcount (hpages p hp)

theorem Kept.step (h : s.Kept) (hop : Steady op s) : (Readers.step op s).Kept := by
  cases op with
  | WritePage page data => exact h.of_eq rfl rfl rfl
  | Commit count => exact h.commit count hop
  | Rollback => exact h.of_eq rfl rfl rfl
  | RegisterSnapshot => exact h.register
  | ReleaseSnapshot id => exact h.release id
  | Checkpoint nanos => exact h.checkpoint nanos hop

def start (w : Wal) (db : DbFile) : Readers where
  wal := w
  db := db
  readers := []

-- What a reader obtains stays as it was when it registered.
theorem stable_run (w : Wal) (db : DbFile) (ops : List ReaderOp) (hw : w.Indexed)
    (hops : Meets step Steady ops (start w db)) : (run step ops (start w db)).Stable := by
  have hstart : (start w db).Kept :=
    ⟨hw, fun r hr => (nomatch hr), fun r hr => (nomatch hr), fun r hr => (nomatch hr)⟩
  exact (run_invariant Kept hstart (fun _ _ => Kept.step) hops).stable

section Example

open History

def startOne : Readers := start (create Buf.zero 1) (emptyFile 0)

def underReader : List ReaderOp :=
  [.WritePage 1 oneByte, .Commit 1, .RegisterSnapshot, .Checkpoint 7, .ReleaseSnapshot 1,
    .WritePage 1 Buf.zero, .Commit 1, .RegisterSnapshot]

theorem stable_underReader : (run step underReader startOne).Stable := by
  refine stable_run (create Buf.zero 1) (emptyFile 0) underReader (indexed_create _ _)
    ⟨trivial, fun _ e he => (nomatch he), trivial, fun _ _ => ⟨by decide, fun p hp => ?_⟩, trivial, trivial,
      fun _ e he => (nomatch he), trivial, trivial⟩
  show p ≤ 1 ↔ ((AList.insert 1 0 ∅ : AList fun _ : Nat => Nat).lookup p).isSome = true ∨
    p * PAGE_SIZE ≤ 0 * PAGE_SIZE
  by_cases hone : p = 1
  · rw [hone, AList.lookup_insert]
    simp
  · have hpages : ¬p * PAGE_SIZE ≤ 0 * PAGE_SIZE := by
      rw [Nat.zero_mul]
      exact Nat.not_le_of_gt (Nat.mul_pos hp (by decide))
    rw [AList.lookup_insert_ne hone]
    simp only [AList.lookup_empty, Option.isSome_none, Bool.false_eq_true, false_or, hpages, iff_false]
    omega

def reusedFrame : List ReaderOp :=
  [.WritePage 1 oneByte, .Commit 1, .RegisterSnapshot, .Checkpoint 7, .WritePage 2 Buf.zero, .Commit 2]

theorem content_reusedFrame : ¬(run step reusedFrame startOne).Stable := by
  intro h
  obtain ⟨r, hr, hseen, hread⟩ : ∃ r ∈ (run step reusedFrame startOne).readers, r.seen 1 = some oneByte ∧
      content (run step reusedFrame startOne).wal (run step reusedFrame startOne).db r.snap 1 =
        some Buf.zero :=
    ⟨_, List.mem_cons_self, rfl, rfl⟩
  have hsame := h r hr 1 (by decide)
  rw [hread, hseen, Option.some.injEq] at hsame
  have hbyte : (Buf.zero : PageData).byte 0 = oneByte.byte 0 := congrArg (fun b => Buf.byte b 0) hsame
  exact absurd hbyte (by decide)

end Example

end Readers

end Wal

end Kkdb
