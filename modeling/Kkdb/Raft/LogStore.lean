import Kkdb.Lib.Bytes
import Kkdb.Lib.Framed
import Kkdb.Lib.Ordered

namespace Kkdb.Raft

open Lib

structure LogId where
  term : Nat
  nodeId : Nat
  index : Nat
  deriving DecidableEq

structure Vote where
  term : Nat
  nodeId : Nat
  committed : Bool
  deriving DecidableEq

-- The payload of an entry is what the state machine is given; the log only stores it.
structure Entry (π : Type) where
  logId : LogId
  payload : π
  deriving DecidableEq

inductive WalRecord (π : Type) where
  | Append (entry : Entry π)
  | Truncate (fromIndex : Nat)
  deriving DecidableEq

-- `serde_json::to_vec` and `serde_json::from_slice` at one type.
structure Serde (α : Type) where
  toVec : α → List UInt8
  fromSlice : List UInt8 → Option α

namespace Serde

variable {α : Type}

def RoundTrips (serde : Serde α) : Prop := ∀ a, serde.fromSlice (serde.toVec a) = some a

-- The text of an object ends with its closing brace: no part of it is a text of its own.
def RejectsTorn (serde : Serde α) : Prop :=
  ∀ a written, written < (serde.toVec a).length → serde.fromSlice ((serde.toVec a).take written) = none

end Serde

structure Json (π : Type) where
  record : Serde (WalRecord π)
  vote : Serde Vote
  logId : Serde LogId

def crcShift (c : Nat) : Nat := if c % 2 = 1 then (c / 2) ^^^ 0xEDB88320 else c / 2

def crc32 (data : List UInt8) : Nat :=
  (data.foldl (fun c b => crcShift^[8] (c ^^^ b.toNat)) 0xFFFFFFFF) ^^^ 0xFFFFFFFF

-- The length is cast to 32 bits.
def writeRecord (payload : List UInt8) : List UInt8 :=
  leBytes 4 payload.length ++ (payload ++ leBytes 4 (crc32 payload))

inductive ReadError where
  | UnexpectedEof
  | InvalidData (msg : String)
  deriving DecidableEq

-- The payload and what the reader has left. `Ok(None)` is the end of the file.
def readRecord (r : List UInt8) : Except ReadError (Option (List UInt8 × List UInt8)) :=
  if r.length < 4 then .ok none
  else
    let len := leNat (r.take 4)
    let r := r.drop 4
    if r.length < len then .error .UnexpectedEof
    else
      let payload := r.take len
      let r := r.drop len
      if r.length < 4 then .error .UnexpectedEof
      else if crc32 payload ≠ leNat (r.take 4) then .error (.InvalidData "WAL CRC mismatch")
      else .ok (some (payload, r.drop 4))

-- The files under `{dir}/raft/`.
structure RaftDir where
  walLog : Option (List UInt8)
  walNew : Option (List UInt8)
  voteJson : Option (List UInt8)
  purgeJson : Option (List UInt8)

def RaftDir.empty : RaftDir := ⟨none, none, none, none⟩

-- `walFile` tells whether there is a path; without one the store is in memory only.
structure LogStoreInner (π : Type) where
  lastPurgedLogId : Option LogId
  log : List (Nat × Entry π)
  votedFor : Option Vote
  walFile : Bool
  totalRecords : Nat
  compactThreshold : Nat
  compactionCount : Nat
  totalDeadEliminated : Nat

structure LogStore (π : Type) where
  dir : RaftDir
  inner : LogStoreInner π

def COMPACT_THRESHOLD : Nat := 1000

section Calls

variable {π : Type} (json : Json π)

def WalRecord.replay (log : List (Nat × Entry π)) : WalRecord π → List (Nat × Entry π)
  | .Append entry => insertKey entry.logId.index entry log
  | .Truncate fromIndex => retain (fun k => k < fromIndex) log

-- The loop of `open` over the records of the file. A record that is no JSON is skipped, a read
-- that fails ends the loop as the end of the file does.
def replayWal : Nat → List UInt8 → List (Nat × Entry π) → Nat → List (Nat × Entry π) × Nat
  | 0, _, log, totalRecords => (log, totalRecords)
  | fuel + 1, r, log, totalRecords =>
      match readRecord r with
      | .ok (some (payload, rest)) =>
          let log := match json.record.fromSlice payload with
            | some record => record.replay log
            | none => log
          replayWal fuel rest log (totalRecords + 1)
      | .ok none => (log, totalRecords)
      | .error _ => (log, totalRecords)

def dropPurged (lastPurged : Option LogId) (log : List (Nat × Entry π)) : List (Nat × Entry π) :=
  match lastPurged with
  | some p => retain (fun k => k > p.index) log
  | none => log

namespace LogStore

def «open» (dir : RaftDir) : LogStore π :=
  let votedFor := dir.voteJson.bind json.vote.fromSlice
  let lastPurged := dir.purgeJson.bind json.logId.fromSlice
  let (log, totalRecords) := match dir.walLog with
    | some bytes =>
        let (log, totalRecords) := replayWal json bytes.length bytes [] 0
        (dropPurged lastPurged log, totalRecords)
    | none => ([], 0)
  { dir := dir
    inner :=
      { lastPurgedLogId := lastPurged
        log := log
        votedFor := votedFor
        walFile := true
        totalRecords := totalRecords
        compactThreshold := COMPACT_THRESHOLD
        compactionCount := 0
        totalDeadEliminated := 0 } }

def recordBytes (record : WalRecord π) : List UInt8 := writeRecord (json.record.toVec record)

-- What `compact` writes to the temporary file.
def liveBytes (log : List (Nat × Entry π)) : List UInt8 :=
  (log.map Prod.snd).flatMap fun entry => recordBytes json (.Append entry)

-- The temporary file takes the place of the log.
def compact (s : LogStore π) : LogStore π :=
  if s.inner.walFile then
    let liveCount := s.inner.log.length
    let dead := s.inner.totalRecords - liveCount
    if dead = 0 then s
    else
      { dir := { s.dir with walLog := some (liveBytes json s.inner.log), walNew := none }
        inner := { s.inner with
          totalRecords := liveCount
          compactionCount := s.inner.compactionCount + 1
          totalDeadEliminated := s.inner.totalDeadEliminated + dead } }
  else s

def setCompactThreshold (threshold : Nat) (s : LogStore π) : LogStore π :=
  { s with inner := { s.inner with compactThreshold := threshold } }

def appendBytes (bytes : List UInt8) (dir : RaftDir) : RaftDir :=
  { dir with walLog := some (dir.walLog.getD [] ++ bytes) }

def walAppend (entry : Entry π) (dir : RaftDir) : RaftDir :=
  appendBytes (recordBytes json (.Append entry)) dir

def walTruncate (fromIndex : Nat) (dir : RaftDir) : RaftDir :=
  appendBytes (recordBytes json (.Truncate fromIndex : WalRecord π)) dir

-- `fs::write` empties the file before it writes.
def writeVote (vote : Vote) (dir : RaftDir) : RaftDir :=
  { dir with voteJson := some (json.vote.toVec vote) }

def writePurge (logId : LogId) (dir : RaftDir) : RaftDir :=
  { dir with purgeJson := some (json.logId.toVec logId) }

def saveVote (vote : Vote) (s : LogStore π) : LogStore π where
  inner := { s.inner with votedFor := some vote }
  dir := if s.inner.walFile then writeVote json vote s.dir else s.dir

def readVote (s : LogStore π) : Option Vote := s.inner.votedFor

def appendEntry (s : LogStore π) (entry : Entry π) : LogStore π :=
  let s := if s.inner.walFile then
      { dir := walAppend json entry s.dir
        inner := { s.inner with totalRecords := s.inner.totalRecords + 1 } }
    else s
  { s with inner := { s.inner with log := insertKey entry.logId.index entry s.inner.log } }

def truncate (logId : LogId) (s : LogStore π) : LogStore π :=
  let s := if s.inner.walFile then
      let removed := (s.inner.log.filter fun e => logId.index ≤ e.1).length
      { dir := walTruncate json logId.index s.dir
        inner := { s.inner with totalRecords := s.inner.totalRecords + (1 + removed) } }
    else s
  { s with inner := { s.inner with log := retain (fun k => k < logId.index) s.inner.log } }

-- The part of `purge` up to the end of its lock: the marker, in memory and in the file.
def markPurged (logId : LogId) (s : LogStore π) : LogStore π where
  inner := { s.inner with
    lastPurgedLogId := some logId
    log := retain (fun k => k > logId.index) s.inner.log }
  dir := if s.inner.walFile then writePurge json logId s.dir else s.dir

def purge (logId : LogId) (s : LogStore π) : LogStore π :=
  let purgedCount := (s.inner.log.filter fun e => e.1 ≤ logId.index).length
  let s := s.markPurged json logId
  let live := s.inner.log.length
  let dead := s.inner.totalRecords - live + purgedCount
  if dead > s.inner.compactThreshold then s.compact json else s

end LogStore

end Calls

theorem crcShift_lt {c : Nat} (h : c < 2 ^ 32) : crcShift c < 2 ^ 32 := by
  unfold crcShift
  split_ifs
  · apply Nat.xor_lt_two_pow <;> omega
  · omega

theorem crc32_lt (data : List UInt8) : crc32 data < 2 ^ 32 := by
  have hshift : ∀ n c, c < 2 ^ 32 → crcShift^[n] c < 2 ^ 32 := by
    intro n
    induction n with
    | zero => exact fun c hc => hc
    | succ n ih => exact fun c hc => ih _ (crcShift_lt hc)
  have hfold : ∀ c, c < 2 ^ 32 →
      data.foldl (fun c b => crcShift^[8] (c ^^^ b.toNat)) c < 2 ^ 32 := by
    induction data with
    | nil => exact fun c hc => hc
    | cons b data ih =>
        intro c hc
        have hb := b.toNat_lt
        exact ih _ (hshift 8 _ (Nat.xor_lt_two_pow hc (by omega)))
  exact Nat.xor_lt_two_pow (hfold _ (by decide)) (by decide)

theorem length_writeRecord (payload : List UInt8) :
    (writeRecord payload).length = payload.length + 8 := by
  simp [writeRecord]
  omega

def Fits (payload : List UInt8) : Prop := payload.length < 4294967296

theorem leNat_length {payload : List UInt8} (h : Fits payload) :
    leNat (leBytes 4 payload.length) = payload.length :=
  leNat_leBytes_of_lt (by simpa [Fits] using h)

theorem take_writeRecord (payload rest : List UInt8) :
    (writeRecord payload ++ rest).take 4 = leBytes 4 payload.length := by
  simp [writeRecord]

theorem drop_writeRecord (payload rest : List UInt8) :
    (writeRecord payload ++ rest).drop 4 = payload ++ (leBytes 4 (crc32 payload) ++ rest) := by
  simp [writeRecord]

theorem readRecord_writeRecord {payload : List UInt8} (h : Fits payload) (rest : List UInt8) :
    readRecord (writeRecord payload ++ rest) = .ok (some (payload, rest)) := by
  have hcrc : leNat (leBytes 4 (crc32 payload)) = crc32 payload :=
    leNat_leBytes_of_lt (crc32_lt payload)
  unfold readRecord
  simp only [take_writeRecord, drop_writeRecord, leNat_length h]
  have hlen : ¬(writeRecord payload ++ rest).length < 4 := by
    rw [List.length_append, length_writeRecord]
    omega
  rw [if_neg hlen, if_neg (by simp), if_neg (by simp)]
  simp [hcrc]

def nextRecord (r : List UInt8) : Option (List UInt8 × List UInt8) :=
  match readRecord r with
  | .ok found => found
  | .error _ => none

theorem framing : Framing nextRecord writeRecord Fits where
  read_write := fun payload rest h => by simp [nextRecord, readRecord_writeRecord h]
  write_pos := fun payload => by simp [length_writeRecord]

section Replay

variable {π : Type} (json : Json π)

theorem replayWal_eq (fuel : Nat) (r : List UInt8) (log : List (Nat × Entry π)) (total : Nat) :
    (replayWal json fuel r log total).1 =
      ((scan nextRecord fuel r).filterMap json.record.fromSlice).foldl WalRecord.replay log := by
  induction fuel generalizing r log total with
  | zero => rfl
  | succ fuel ih =>
      rw [replayWal, scan, nextRecord]
      cases readRecord r with
      | error => rfl
      | ok found =>
          cases found with
          | none => rfl
          | some found =>
              simp only [ih, List.filterMap_cons]
              cases json.record.fromSlice found.1 <;> rfl

def replayed (records : List (WalRecord π)) : List (Nat × Entry π) := records.foldl WalRecord.replay []

variable {json}

theorem replayWal_records (hjson : json.record.RoundTrips) {records : List (WalRecord π)}
    (hfits : ∀ record ∈ records, Fits (json.record.toVec record)) {torn : List UInt8}
    (htorn : nextRecord torn = none) {file : List UInt8}
    (hfile : file = records.flatMap (LogStore.recordBytes json) ++ torn) :
    (replayWal json file.length file [] 0).1 = replayed records := by
  have hbytes : records.flatMap (LogStore.recordBytes json) =
      (records.map json.record.toVec).flatMap writeRecord := by
    rw [List.flatMap_map]
    rfl
  have hscan : scan nextRecord file.length file = records.map json.record.toVec := by
    rw [hfile, hbytes]
    apply framing.scan_file
    · intro payload hpayload
      obtain ⟨record, hrecord, rfl⟩ := List.mem_map.mp hpayload
      exact hfits record hrecord
    · exact htorn
  have hdecode : (records.map json.record.toVec).filterMap json.record.fromSlice = records := by
    rw [List.filterMap_map]
    have hid : json.record.fromSlice ∘ json.record.toVec = some := funext hjson
    rw [hid, List.filterMap_some]
  rw [replayWal_eq, hscan, hdecode]
  rfl

theorem replayed_append (records : List (WalRecord π)) (record : WalRecord π) :
    replayed (records ++ [record]) = record.replay (replayed records) := by
  simp [replayed]

-- The records of a compacted file give back the log they were made from.
theorem replayed_live {log : List (Nat × Entry π)} (h : Ordered log)
    (hkeys : ∀ e ∈ log, e.1 = e.2.logId.index) :
    replayed ((log.map Prod.snd).map WalRecord.Append) = log := by
  have hfold : ∀ front : List (Nat × Entry π),
      ((log.map Prod.snd).map WalRecord.Append).foldl WalRecord.replay front =
        log.foldl (fun m e => insertKey e.1 e.2 m) front := by
    clear h
    induction log with
    | nil => exact fun front => rfl
    | cons e log ih =>
        intro front
        have hkey := hkeys e (by simp)
        simp only [List.map_cons, List.foldl_cons, WalRecord.replay, hkey]
        exact ih (fun f hf => hkeys f (by simp [hf])) _
  rw [replayed, hfold, foldl_insertKey h]

theorem lookup_dropPurged (lastPurged : Option LogId) (log : List (Nat × Entry π)) (i : Nat) :
    (dropPurged lastPurged log).lookup i =
      if ∀ p, lastPurged = some p → p.index < i then log.lookup i else none := by
  cases lastPurged with
  | none => simp [dropPurged]
  | some p => simp [dropPurged, lookup_retain_key]

end Replay

end Kkdb.Raft
