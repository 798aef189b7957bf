import Kkdb.Lib.State
import Kkdb.Raft.LogStore

namespace Kkdb.Raft

open Lib

-- What a log is for: the entries by index, and how far they have been purged.
structure RaftLog (π : Type) where
  entries : Nat → Option (Entry π)
  lastPurged : Option LogId

namespace RaftLog

variable {π : Type}

def empty : RaftLog π := ⟨fun _ => none, none⟩

def append (entry : Entry π) (l : RaftLog π) : RaftLog π :=
  { l with entries := Function.update l.entries entry.logId.index (some entry) }

def truncate (logId : LogId) (l : RaftLog π) : RaftLog π :=
  { l with entries := fun i => if i < logId.index then l.entries i else none }

def purge (logId : LogId) (l : RaftLog π) : RaftLog π where
  entries := fun i => if logId.index < i then l.entries i else none
  lastPurged := some logId

def Unpurged (l : RaftLog π) (i : Nat) : Prop := ∀ p, l.lastPurged = some p → p.index < i

instance (l : RaftLog π) (i : Nat) : Decidable (l.Unpurged i) :=
  match h : l.lastPurged with
  | none => .isTrue fun p hp => by rw [h] at hp; cases hp
  | some p => decidable_of_iff (p.index < i) <| by simp [Unpurged, h]

def live (l : RaftLog π) (i : Nat) : Option (Entry π) := if l.Unpurged i then l.entries i else none

def Advances (l : RaftLog π) (logId : LogId) : Prop := ∀ p, l.lastPurged = some p → p.index ≤ logId.index

instance (l : RaftLog π) (logId : LogId) : Decidable (l.Advances logId) :=
  match h : l.lastPurged with
  | none => .isTrue fun p hp => by rw [h] at hp; cases hp
  | some p => decidable_of_iff (p.index ≤ logId.index) <| by simp [Advances, h]

end RaftLog

-- Where a crash can strike: between two calls, or in a call after some bytes of the record or file
-- being written. A file that `fs::write` has not emptied yet is as it was. An `append` of several
-- entries that is cut short is an `append` of the first ones and a crash in the next.
inductive CrashPoint (π : Type) where
  | Idle
  | Append (entry : Entry π) (written : Nat)
  | Truncate (logId : LogId) (written : Nat)
  | Purge (logId : LogId) (written : Option Nat)
  | SaveVote (vote : Vote) (written : Option Nat)
  | Compact (written : Nat)

inductive LogOp (π : Type) where
  | Append (entries : List (Entry π))
  | Truncate (logId : LogId)
  | Purge (logId : LogId)
  | Compact
  | SetCompactThreshold (threshold : Nat)
  | SaveVote (vote : Vote)
  | Crash (point : CrashPoint π)

-- A store with what the finished writes amount to, the bytes interrupted writes left in the log
-- file since it was last rewritten, and whether a whole record was written behind such bytes.
structure History (π : Type) where
  store : LogStore π
  effect : RaftLog π
  torn : List UInt8
  buried : Bool

namespace History

variable {π : Type} (json : Json π)

def start : History π where
  store := LogStore.open json RaftDir.empty
  effect := .empty
  torn := []
  buried := false

def cutFile (bytes : List UInt8) (written : Option Nat) (file : Option (List UInt8)) :
    Option (List UInt8) :=
  match written with
  | some written => some (bytes.take written)
  | none => file

def crashDir (point : CrashPoint π) (s : LogStore π) : RaftDir :=
  match point with
  | .Idle => s.dir
  | .Append entry written =>
      LogStore.appendBytes ((LogStore.recordBytes json (.Append entry)).take written) s.dir
  | .Truncate logId written =>
      LogStore.appendBytes ((LogStore.recordBytes json (.Truncate logId.index)).take written) s.dir
  | .Purge logId written =>
      { s.dir with purgeJson := cutFile (json.logId.toVec logId) written s.dir.purgeJson }
  | .SaveVote vote written =>
      { s.dir with voteJson := cutFile (json.vote.toVec vote) written s.dir.voteJson }
  | .Compact written => { s.dir with walNew := some ((LogStore.liveBytes json s.inner.log).take written) }

-- The bytes of a record reach the end of the log file, all of them or the first ones.
def wrote (record : WalRecord π) (written : Nat) (h : History π) : History π :=
  if (LogStore.recordBytes json record).length ≤ written then
    { h with buried := h.buried || decide (h.torn ≠ []) }
  else { h with torn := h.torn ++ (LogStore.recordBytes json record).take written }

def wroteAll (record : WalRecord π) (h : History π) : History π :=
  h.wrote json record (LogStore.recordBytes json record).length

def replaced (s : LogStore π) (h : History π) : History π :=
  if s.inner.compactionCount = h.store.inner.compactionCount then { h with store := s }
  else { h with store := s, torn := [], buried := false }

def appendEntry (h : History π) (entry : Entry π) : History π :=
  { h.wroteAll json (.Append entry) with
    store := h.store.appendEntry json entry
    effect := h.effect.append entry }

-- A write is finished when its last byte is in the file.
def crash (point : CrashPoint π) (h : History π) : History π :=
  match point with
  | .Append entry written =>
      { h.wrote json (.Append entry) written with
        effect :=
          if (LogStore.recordBytes json (.Append entry)).length ≤ written then h.effect.append entry
          else h.effect }
  | .Truncate logId written =>
      { h.wrote json (.Truncate logId.index) written with
        effect :=
          if (LogStore.recordBytes json (.Truncate logId.index : WalRecord π)).length ≤ written then
            h.effect.truncate logId
          else h.effect }
  | .Purge logId (some written) =>
      if (json.logId.toVec logId).length ≤ written then { h with effect := h.effect.purge logId } else h
  | _ => h

def step (op : LogOp π) (h : History π) : History π :=
  match op with
  | .Append entries => entries.foldl (appendEntry json) h
  | .Truncate logId =>
      { h.wroteAll json (.Truncate logId.index) with
        store := h.store.truncate json logId
        effect := h.effect.truncate logId }
  | .Purge logId =>
      { h.replaced (h.store.purge json logId) with effect := h.effect.purge logId }
  | .Compact => h.replaced (h.store.compact json)
  | .SetCompactThreshold threshold => { h with store := h.store.setCompactThreshold threshold }
  | .SaveVote vote => { h with store := h.store.saveVote json vote }
  | .Crash point =>
      { h.crash json point with store := LogStore.open json (crashDir json point h.store) }

-- No whole record stands behind the bytes of an interrupted one, and those bytes read as none.
def Readable (h : History π) : Prop :=
  h.buried = false ∧ nextRecord h.torn = none

def FitsRecord (record : WalRecord π) : Prop := Fits (json.record.toVec record)

-- A torn marker is no loss while nothing was ever purged.
def MarkerKept (logId : LogId) (written : Option Nat) (h : History π) : Prop :=
  ∀ k, written = some k →
    if (json.logId.toVec logId).length ≤ k then h.effect.Advances logId else h.effect.lastPurged = none

def PointSafe (point : CrashPoint π) (h : History π) : Prop :=
  match point with
  | .Append entry _ => FitsRecord json (.Append entry)
  | .Truncate logId _ => FitsRecord json (.Truncate logId.index : WalRecord π)
  | .Purge logId written => h.MarkerKept json logId written
  | _ => True

def Safe (op : LogOp π) (h : History π) : Prop :=
  match op with
  | .Append entries => ∀ entry ∈ entries, FitsRecord json (.Append entry)
  | .Truncate logId => FitsRecord json (.Truncate logId.index : WalRecord π)
  | .Purge logId => h.effect.Advances logId
  | .Crash point => h.PointSafe json point ∧ (h.crash json point).Readable
  | _ => True

instance (record : WalRecord π) : Decidable (FitsRecord json record) := inferInstanceAs (Decidable (_ < _))

instance (h : History π) : Decidable h.Readable := inferInstanceAs (Decidable (_ ∧ _))

instance pointSafeDecidable : ∀ (point : CrashPoint π) (h : History π), Decidable (h.PointSafe json point)
  | .Idle, _ => inferInstanceAs (Decidable True)
  | .Append entry _, _ => inferInstanceAs (Decidable (FitsRecord json (.Append entry)))
  | .Truncate logId _, _ =>
      inferInstanceAs (Decidable (FitsRecord json (.Truncate logId.index : WalRecord π)))
  | .Purge _ none, _ => .isTrue fun k hk => (nomatch hk)
  | .Purge logId (some written), h =>
      decidable_of_iff (if (json.logId.toVec logId).length ≤ written then h.effect.Advances logId
        else h.effect.lastPurged = none) <| by simp [PointSafe, MarkerKept]
  | .SaveVote _ _, _ => inferInstanceAs (Decidable True)
  | .Compact _, _ => inferInstanceAs (Decidable True)

instance safeDecidable : ∀ (op : LogOp π) (h : History π), Decidable (h.Safe json op)
  | .Append entries, _ =>
      inferInstanceAs (Decidable (∀ entry ∈ entries, FitsRecord json (.Append entry)))
  | .Truncate logId, _ =>
      inferInstanceAs (Decidable (FitsRecord json (.Truncate logId.index : WalRecord π)))
  | .Purge logId, h => inferInstanceAs (Decidable (h.effect.Advances logId))
  | .Compact, _ => inferInstanceAs (Decidable True)
  | .SetCompactThreshold _, _ => inferInstanceAs (Decidable True)
  | .SaveVote _, _ => inferInstanceAs (Decidable True)
  | .Crash point, h =>
      inferInstanceAs (Decidable (h.PointSafe json point ∧ (h.crash json point).Readable))

-- A compaction that finds nothing to drop does nothing, any other one writes the live entries.
theorem compact_cases {s : LogStore π} (h : s.inner.walFile = true) :
    s.compact json = s ∨
      (s.compact json).dir =
          { s.dir with walLog := some (LogStore.liveBytes json s.inner.log), walNew := none } ∧
        (s.compact json).inner.log = s.inner.log ∧
        (s.compact json).inner.lastPurgedLogId = s.inner.lastPurgedLogId ∧
        (s.compact json).inner.votedFor = s.inner.votedFor ∧
        (s.compact json).inner.walFile = true ∧
        (s.compact json).inner.compactionCount = s.inner.compactionCount + 1 := by
  unfold LogStore.compact
  rw [if_pos h]
  by_cases hdead : s.inner.totalRecords - s.inner.log.length = 0
  · exact .inl (if_pos hdead)
  · right
    simp [hdead, h]

theorem replaced_self (h : History π) : h.replaced h.store = h := by simp [replaced]

-- The state `purge` is in when it lets go of the lock.
def marked (logId : LogId) (h : History π) : History π :=
  { h with store := h.store.markPurged json logId, effect := h.effect.purge logId }

theorem step_purge (h : History π) (logId : LogId) :
    h.step json (.Purge logId) = h.marked json logId ∨
      h.step json (.Purge logId) =
        (h.marked json logId).replaced ((h.marked json logId).store.compact json) := by
  have hcount : (h.store.markPurged json logId).inner.compactionCount = h.store.inner.compactionCount := rfl
  simp only [History.step, LogStore.purge]
  split_ifs
  · right
    simp only [replaced, History.marked, hcount]
    split_ifs <;> rfl
  · left
    simp only [replaced, History.marked, hcount, if_true]

end History

end Kkdb.Raft
