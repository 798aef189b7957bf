import Kkdb.Error
import Kkdb.Lib.Assoc
import Kkdb.Lib.State
import Kkdb.Vm.Mvcc

namespace Kkdb

open Lib

abbrev RowLockKey := List Char × Int64

-- The hash maps are lists of their entries.
structure RowLockManager where
  locks : List (RowLockKey × Nat)
  txnLocks : List (Nat × List RowLockKey)
  readSets : List (Nat × List RowLockKey)
  committedVersions : List (RowLockKey × Nat)

namespace RowLockManager

def new : RowLockManager where
  locks := []
  txnLocks := []
  readSets := []
  committedVersions := []

def showKey (key : RowLockKey) : String :=
  "(" ++ String.ofList key.1 ++ ", " ++ toString key.2.toInt ++ ")"

def writeConflict (key : RowLockKey) (holder txnId : Nat) : Fault :=
  .Err (.Internal ("Write-write conflict: row " ++ showKey key ++ " is locked by txn " ++
    toString holder ++ ", txn " ++ toString txnId ++ " cannot acquire"))

def tryLockRow (table : String) (rowid : Int64) (txnId : Nat) : EStateM Fault RowLockManager Unit :=
  fun mgr =>
    let key := (toAsciiLowercase table, rowid)
    match mgr.locks.lookup key with
    | some holder => if holder = txnId then .ok () mgr else .error (writeConflict key holder txnId) mgr
    | none => .ok () { mgr with
        locks := put key txnId mgr.locks
        txnLocks := put txnId (lookupD mgr.txnLocks txnId [] ++ [key]) mgr.txnLocks }

def recordRead (table : String) (rowid : Int64) (txnId : Nat) (mgr : RowLockManager) : RowLockManager :=
  let key := (toAsciiLowercase table, rowid)
  let set := lookupD mgr.readSets txnId []
  { mgr with readSets := put txnId (if key ∈ set then set else set ++ [key]) mgr.readSets }

def releaseAll (txnId : Nat) (mgr : RowLockManager) : RowLockManager :=
  let keys := lookupD mgr.txnLocks txnId []
  { mgr with
    locks := keys.foldl (fun locks key => remove key locks) mgr.locks
    txnLocks := remove txnId mgr.txnLocks
    readSets := remove txnId mgr.readSets }

def commitVersion (txnId : Nat) (mgr : RowLockManager) : RowLockManager :=
  let keys := lookupD mgr.txnLocks txnId []
  { mgr with
    committedVersions := keys.foldl (fun versions key => put key txnId versions) mgr.committedVersions }

def serializationFailure (key : RowLockKey) (committedBy snapshotTxnId : Nat) : Fault :=
  .Err (.Internal ("Serialization failure: row " ++ showKey key ++ " was modified by committed txn " ++
    toString committedBy ++ " after snapshot " ++ toString snapshotTxnId))

-- The loop over the read set, which stops at the first row with a newer version.
def validateReads (mgr : RowLockManager) (txnId snapshotTxnId : Nat) :
    List RowLockKey → Except Fault Unit
  | [] => .ok ()
  | key :: reads =>
      match mgr.committedVersions.lookup key with
      | some committedBy =>
          if snapshotTxnId < committedBy ∧ committedBy ≠ txnId then
            .error (serializationFailure key committedBy snapshotTxnId)
          else validateReads mgr txnId snapshotTxnId reads
      | none => validateReads mgr txnId snapshotTxnId reads

def validateReadSet (txnId snapshotTxnId : Nat) (mgr : RowLockManager) : Except Fault Unit :=
  validateReads mgr txnId snapshotTxnId (lookupD mgr.readSets txnId [])

def gcVersions (minTxnId : Nat) (mgr : RowLockManager) : RowLockManager :=
  { mgr with committedVersions := mgr.committedVersions.filter fun e => minTxnId ≤ e.2 }

def readSet (mgr : RowLockManager) (txnId : Nat) : List RowLockKey := lookupD mgr.readSets txnId []

def version (mgr : RowLockManager) (key : RowLockKey) : Option Nat := mgr.committedVersions.lookup key

theorem validateReads_error_iff (mgr : RowLockManager) (txnId snapshotTxnId : Nat)
    (reads : List RowLockKey) :
    (∃ e, validateReads mgr txnId snapshotTxnId reads = .error e) ↔
      ∃ key ∈ reads, ∃ w, mgr.version key = some w ∧ snapshotTxnId < w ∧ w ≠ txnId := by
  induction reads with
  | nil => simp [validateReads]
  | cons key reads ih =>
      rw [List.exists_mem_cons_iff, ← ih, validateReads, version]
      cases hver : mgr.committedVersions.lookup key with
      | none => simp
      | some w =>
          dsimp only
          split_ifs with hnew
          · exact iff_of_true ⟨_, rfl⟩ (.inl ⟨w, rfl, hnew⟩)
          · refine (or_iff_right ?_).symm
            rintro ⟨w', heq, hnew'⟩
            cases heq
            exact hnew hnew'

end RowLockManager

-- What the transactions do, one call of the registry and the lock manager after the other.
inductive TxnEvent where
  | Begin
  | Snapshot (txnId : Nat)
  | RecordRead (table : String) (rowid : Int64) (txnId : Nat)
  | TryLockRow (table : String) (rowid : Int64) (txnId : Nat)
  | Commit (txnId : Nat)
  | Abort (txnId : Nat)
  | Gc

-- What a history remembers of a run: who committed which rows, and when snapshots were
-- taken and versions collected.
inductive Record where
  | Taken (snapshot : MvccSnapshot)
  | Committed (txnId : Nat) (rows : List RowLockKey)
  | Collected (minTxnId : Nat)

-- The registry and the lock manager, with the rows that a transaction got to write and the
-- history, newest record first. Neither of the last two is read by a step of the code.
structure OccState where
  registry : TransactionRegistry
  rowLocks : RowLockManager
  written : Nat → List RowLockKey
  history : List Record

namespace OccState

def new : OccState where
  registry := .new
  rowLocks := .new
  written := fun _ => []
  history := []

def step : TxnEvent → OccState → OccState
  | .Begin, s => { s with registry := s.registry.begin }
  | .Snapshot txnId, s => { s with history := .Taken (s.registry.snapshot txnId) :: s.history }
  | .RecordRead table rowid txnId, s => { s with rowLocks := s.rowLocks.recordRead table rowid txnId }
  | .TryLockRow table rowid txnId, s =>
      match RowLockManager.tryLockRow table rowid txnId s.rowLocks with
      | .ok _ mgr => { s with
          rowLocks := mgr
          written := fun t => if t = txnId then (toAsciiLowercase table, rowid) :: s.written t
            else s.written t }
      | .error _ mgr => { s with rowLocks := mgr }
  | .Commit txnId, s =>
      { registry := s.registry.commit txnId
        rowLocks := (s.rowLocks.commitVersion txnId).releaseAll txnId
        written := fun t => if t = txnId then [] else s.written t
        history := .Committed txnId (s.written txnId) :: s.history }
  | .Abort txnId, s =>
      { s with
        registry := s.registry.abort txnId
        rowLocks := s.rowLocks.releaseAll txnId
        written := fun t => if t = txnId then [] else s.written t }
  | .Gc, s =>
      { s with
        rowLocks := s.rowLocks.gcVersions s.registry.minActiveTxnId
        history := .Collected s.registry.minActiveTxnId :: s.history }

end OccState

def sinceSnapshot (txnId : Nat) : List Record → Option (MvccSnapshot × List Record)
  | [] => none
  | .Taken snapshot :: history =>
      if snapshot.readerTxnId = txnId then some (snapshot, [])
      else (sinceSnapshot txnId history).map fun r => (r.1, .Taken snapshot :: r.2)
  | record :: history => (sinceSnapshot txnId history).map fun r => (r.1, record :: r.2)

def lastCommit (key : RowLockKey) : List Record → Option (Nat × List Record)
  | [] => none
  | .Committed txnId rows :: history =>
      if key ∈ rows then some (txnId, [])
      else (lastCommit key history).map fun r => (r.1, .Committed txnId rows :: r.2)
  | record :: history => (lastCommit key history).map fun r => (r.1, record :: r.2)

namespace OccState

variable {s : OccState} {txnId : Nat} {key : RowLockKey}

-- Another transaction wrote a row of the read set and committed after the snapshot.
def Overtaken (s : OccState) (txnId : Nat) (since : List Record) : Prop :=
  ∃ key ∈ s.rowLocks.readSet txnId, ∃ w rows, w ≠ txnId ∧ .Committed w rows ∈ since ∧ key ∈ rows

def FirstCommitterWins (s : OccState) (txnId : Nat) : Prop :=
  ∀ snapshot since, sinceSnapshot txnId s.history = some (snapshot, since) →
    s.Overtaken txnId since →
      ∃ e, s.rowLocks.validateReadSet txnId snapshot.maxCommittedTxnId = .error e

-- Some row of the read set was last committed by a transaction that has a larger id than any
-- that had committed at the snapshot, and that no collection since has counted as old.
def Noticed (s : OccState) (txnId : Nat) (snapshot : MvccSnapshot) : Prop :=
  ∃ key ∈ s.rowLocks.readSet txnId, ∃ w since, lastCommit key s.history = some (w, since) ∧
    w ≠ txnId ∧ snapshot.maxCommittedTxnId < w ∧ ∀ minTxnId, .Collected minTxnId ∈ since → minTxnId ≤ w

-- The lock table agrees with the rows each transaction got to write, and the versions with
-- the history.
structure Consistent (s : OccState) : Prop where
  locks : ∀ key w, s.rowLocks.locks.lookup key = some w ↔ key ∈ lookupD s.rowLocks.txnLocks w []
  written : ∀ key w, key ∈ s.written w ↔ key ∈ lookupD s.rowLocks.txnLocks w []
  nodup : (s.rowLocks.committedVersions.map Prod.fst).Nodup
  version : ∀ key w, s.rowLocks.version key = some w ↔
    ∃ since, lastCommit key s.history = some (w, since) ∧ ∀ m, .Collected m ∈ since → m ≤ w

theorem consistent_new : Consistent new where
  locks := fun key w => by
    show (none = some w) ↔ key ∈ []
    simp
  written := fun _ _ => Iff.rfl
  nodup := List.nodup_nil
  version := fun key w => by
    show (none = some w) ↔ _
    simp [new, lastCommit]

theorem kept_cons {record : Record} {history : List Record} (key : RowLockKey) (w : Nat)
    (hcommit : ∀ txnId rows, record = .Committed txnId rows → key ∉ rows) :
    (∃ since, lastCommit key (record :: history) = some (w, since) ∧
      ∀ m, .Collected m ∈ since → m ≤ w) ↔
    (∀ m, record = .Collected m → m ≤ w) ∧
      ∃ since, lastCommit key history = some (w, since) ∧ ∀ m, .Collected m ∈ since → m ≤ w := by
  have hlast : lastCommit key (record :: history) =
      (lastCommit key history).map fun r => (r.1, record :: r.2) := by
    cases record with
    | Committed txnId rows => exact if_neg (hcommit txnId rows rfl)
    | Taken snapshot => rfl
    | Collected m => rfl
  rw [hlast]
  constructor
  · rintro ⟨since, heq, hold⟩
    obtain ⟨⟨w', since'⟩, heq', hpair⟩ := Option.map_eq_some_iff.mp heq
    cases hpair
    exact ⟨fun m hm => hold m (hm ▸ List.mem_cons_self),
      since', heq', fun m hm => hold m (List.mem_cons_of_mem _ hm)⟩
  · rintro ⟨hnew, since, heq, hold⟩
    refine ⟨record :: since, by rw [heq]; rfl, fun m hm => ?_⟩
    rcases List.mem_cons.mp hm with hm | hm
    · exact hnew m hm.symm
    · exact hold m hm

theorem consistent_tryLockRow (table : String) (rowid : Int64) (txnId : Nat) (h : Consistent s) :
    Consistent (step (.TryLockRow table rowid txnId) s) := by
  unfold step RowLockManager.tryLockRow
  dsimp only
  cases hlock : s.rowLocks.locks.lookup (toAsciiLowercase table, rowid) with
  | some holder =>
      dsimp only
      by_cases hown : holder = txnId
      · rw [if_pos hown]
        refine { locks := h.locks, written := fun key w => ?_, nodup := h.nodup, version := h.version }
        dsimp only
        split_ifs with hw
        · have hheld := (h.locks _ _).mp hlock
          rw [List.mem_cons, h.written key w, hw]
          rw [hown] at hheld
          exact or_iff_right_of_imp fun heq => heq ▸ hheld
        · exact h.written key w
      · rw [if_neg hown]
        exact h
  | none =>
      refine { locks := fun key w => ?_, written := fun key w => ?_, nodup := h.nodup, version := h.version }
      · dsimp only
        rw [lookup_put, lookupD_put]
        by_cases hkey : key = (toAsciiLowercase table, rowid)
        · have hfree : ∀ w, key ∉ lookupD s.rowLocks.txnLocks w [] := fun w hmem => by
            rw [← h.locks, hkey, hlock] at hmem
            cases hmem
          rw [if_pos hkey]
          split_ifs with hw
          · exact iff_of_true (by rw [hw]) (List.mem_append_right _ (List.mem_singleton.mpr hkey))
          · refine iff_of_false (fun heq => hw (Option.some.inj heq).symm) (hfree w)
        · rw [if_neg hkey]
          split_ifs with hw
          · rw [h.locks, hw, List.mem_append, List.mem_singleton, or_iff_left hkey]
          · exact h.locks key w
      · dsimp only
        rw [lookupD_put]
        split_ifs with hw
        · rw [List.mem_cons, List.mem_append, List.mem_singleton, h.written, hw, or_comm]
        · exact h.written key w

-- Releasing the locks of one transaction, whatever versions it has committed before.
theorem consistent_releaseAll (txnId : Nat)
    (hlocks : ∀ key w, s.rowLocks.locks.lookup key = some w ↔ key ∈ lookupD s.rowLocks.txnLocks w [])
    (key : RowLockKey) (w : Nat) :
    (s.rowLocks.releaseAll txnId).locks.lookup key = some w ↔
      key ∈ lookupD (s.rowLocks.releaseAll txnId).txnLocks w [] := by
  unfold RowLockManager.releaseAll
  dsimp only
  rw [lookup_foldl_remove, lookupD_remove]
  by_cases hw : w = txnId
  · rw [if_pos hw]
    refine iff_of_false ?_ List.not_mem_nil
    split_ifs with hmem
    · exact id
    · rw [hlocks, hw]
      exact hmem
  · rw [if_neg hw]
    split_ifs with hmem
    · refine iff_of_false id fun hother => hw ?_
      have hself := (hlocks key txnId).mpr hmem
      rw [(hlocks key w).mpr hother] at hself
      exact Option.some.inj hself
    · exact hlocks key w

theorem written_releaseAll (txnId : Nat)
    (hwritten : ∀ key w, key ∈ s.written w ↔ key ∈ lookupD s.rowLocks.txnLocks w [])
    (key : RowLockKey) (w : Nat) :
    (key ∈ if w = txnId then [] else s.written w) ↔
      key ∈ lookupD (s.rowLocks.releaseAll txnId).txnLocks w [] := by
  unfold RowLockManager.releaseAll
  dsimp only
  rw [lookupD_remove]
  split_ifs with hw
  · exact Iff.rfl
  · exact hwritten key w

theorem consistent_commit (txnId : Nat) (h : Consistent s) : Consistent (step (.Commit txnId) s) where
  locks := consistent_releaseAll (s := { s with rowLocks := s.rowLocks.commitVersion txnId }) txnId h.locks
  written := written_releaseAll txnId h.written
  nodup := nodup_foldl_put _ _ h.nodup
  version := fun key w => by
    show List.lookup key (List.foldl _ _ _) = some w ↔ _
    rw [lookup_foldl_put]
    by_cases hmem : key ∈ lookupD s.rowLocks.txnLocks txnId []
    · rw [if_pos hmem]
      unfold step
      dsimp only
      rw [lastCommit, if_pos ((h.written key txnId).mpr hmem)]
      constructor
      · rintro heq
        cases heq
        exact ⟨[], rfl, fun m hm => by cases hm⟩
      · rintro ⟨since, heq, -⟩
        cases heq
        rfl
    · rw [if_neg hmem]
      refine (h.version key w).trans ((kept_cons key w ?_).trans (and_iff_right ?_)).symm
      · intro txnId' rows heq
        cases heq
        rwa [h.written]
      · intro m hm
        cases hm

theorem consistent_gc (h : Consistent s) : Consistent (step .Gc s) where
  locks := h.locks
  written := h.written
  nodup := h.nodup.sublist (List.filter_sublist.map Prod.fst)
  version := fun key w => by
    show List.lookup key (List.filter _ _) = some w ↔ _
    rw [lookup_retain (fun v => decide (s.registry.minActiveTxnId ≤ v)) h.nodup, Option.filter_eq_some_iff]
    refine Iff.trans ?_ (kept_cons key w (fun _ _ heq => by cases heq)).symm
    rw [and_comm]
    refine and_congr ?_ (h.version key w)
    rw [decide_eq_true_iff]
    constructor
    · intro hle m hm
      cases hm
      exact hle
    · intro hall
      exact hall _ rfl

theorem consistent_step (event : TxnEvent) (h : Consistent s) : Consistent (step event s) := by
  cases event with
  | Begin => exact ⟨h.locks, h.written, h.nodup, h.version⟩
  | Snapshot txnId =>
      refine ⟨h.locks, h.written, h.nodup, fun key w => (h.version key w).trans ?_⟩
      refine ((kept_cons key w ?_).trans (and_iff_right ?_)).symm
      · intro _ _ heq
        cases heq
      · intro _ heq
        cases heq
  | RecordRead table rowid txnId => exact ⟨h.locks, h.written, h.nodup, h.version⟩
  | TryLockRow table rowid txnId => exact consistent_tryLockRow table rowid txnId h
  | Commit txnId => exact consistent_commit txnId h
  | Abort txnId =>
      exact ⟨consistent_releaseAll txnId h.locks, written_releaseAll txnId h.written, h.nodup, h.version⟩
  | Gc => exact consistent_gc h

theorem consistent_run (events : List TxnEvent) : Consistent (run step events new) :=
  run_invariant Consistent consistent_new (fun event _ h _ => consistent_step event h)
    (meets_true events new)

-- In every state of every run, a transaction that was overtaken is refused exactly if one of
-- the rows it read still carries a version with a larger id than its snapshot.
theorem firstCommitterWins_iff (events : List TxnEvent) (txnId : Nat) :
    (run step events new).FirstCommitterWins txnId ↔
      ∀ snapshot since, sinceSnapshot txnId (run step events new).history = some (snapshot, since) →
        (run step events new).Overtaken txnId since → (run step events new).Noticed txnId snapshot := by
  have hcons := consistent_run events
  refine forall_congr' fun snapshot => forall_congr' fun since => imp_congr_right fun _ =>
    imp_congr_right fun _ => ?_
  rw [RowLockManager.validateReadSet, RowLockManager.validateReads_error_iff, Noticed]
  refine exists_congr fun key => and_congr_right fun _ => exists_congr fun w => ?_
  rw [hcons.version]
  constructor
  · rintro ⟨⟨since, hlast, hkept⟩, hlt, hne⟩
    exact ⟨since, hlast, hne, hlt, hkept⟩
  · rintro ⟨since, hlast, hne, hlt, hkept⟩
    exact ⟨⟨since, hlast, hkept⟩, hlt, hne⟩

-- The second transaction commits first, so the snapshot of the third is taken at 2; the first
-- one then commits a row that the third has read.
def slowWriter : List TxnEvent :=
  [.Begin, .Begin, .Commit 2, .Begin, .Snapshot 3, .RecordRead "t" 7 3, .TryLockRow "t" 7 1, .Commit 1]

theorem slowWriter_unnoticed : ¬(run step slowWriter new).FirstCommitterWins 3 := by
  intro h
  obtain ⟨e, he⟩ := h ⟨3, [1, 3], 2⟩ [.Committed 1 [(['t'], 7)]] rfl
    ⟨(['t'], 7), by decide, 1, _, by decide, List.mem_singleton.mpr rfl, by decide⟩
  have hok : (run step slowWriter new).rowLocks.validateReadSet 3 2 = .ok () := rfl
  rw [hok] at he
  cases he

def collectedWriter : List TxnEvent :=
  [.Begin, .Begin, .Snapshot 2, .RecordRead "t" 7 2, .TryLockRow "t" 7 1, .Commit 1, .Gc]

example : (run step collectedWriter new).rowLocks.validateReadSet 2 0 = .ok () := rfl

end OccState

end Kkdb
