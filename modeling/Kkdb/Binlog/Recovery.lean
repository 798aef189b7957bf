import Kkdb.Binlog.Scan

namespace Kkdb.Binlog

open Lib
open Raft (Fits)

inductive Op where
  | append (record : LogRecord)
  | fsync

def appended (ops : List Op) : List LogRecord :=
  ops.filterMap fun
    | .append record => some record
    | .fsync => none

def Settles (t : UInt64) (record : LogRecord) : Prop := record = .Commit t ∨ record = .Rollback t

def LeftPrepared (records : List LogRecord) (t : UInt64) : Prop :=
  ∃ before after, records = before ++ .Prepare t :: after ∧
    ∀ record ∈ after, record ≠ .Prepare t ∧ ¬Settles t record

def Op.Flushes : Op → Prop
  | append record => LogFile.CAPACITY ≤ record.serialize.length
  | fsync => True

section Notes

def Recovery.notes (r : Recovery) (records : List LogRecord) : Recovery :=
  records.foldl (fun r record => r.note record (r.lastValid + 8 + record.serialize.length)) r

@[simp] theorem Recovery.note_lastValid (r : Recovery) (record : LogRecord) (dataEnd : Nat) :
    (r.note record dataEnd).lastValid = dataEnd := by
  cases record <;> rfl

theorem Recovery.mem_prepared_notes (r : Recovery) (records : List LogRecord) (t : UInt64) :
    t ∈ (r.notes records).prepared ↔ t ∈ r.prepared ∨ .Prepare t ∈ records := by
  induction records generalizing r with
  | nil => simp [notes]
  | cons record records ih =>
      have hstep : r.notes (record :: records) =
          (r.note record (r.lastValid + 8 + record.serialize.length)).notes records := rfl
      rw [hstep, ih]
      cases record <;> simp [note, or_assoc, or_left_comm]

theorem Recovery.mem_committed_notes (r : Recovery) (records : List LogRecord) (t : UInt64) :
    t ∈ (r.notes records).committed ↔ t ∈ r.committed ∨ ∃ record ∈ records, Settles t record := by
  induction records generalizing r with
  | nil => simp [notes]
  | cons record records ih =>
      have hstep : r.notes (record :: records) =
          (r.note record (r.lastValid + 8 + record.serialize.length)).notes records := rfl
      rw [hstep, ih]
      cases record <;> simp [note, Settles, or_assoc, or_left_comm, eq_comm]

theorem leftPrepared_of_mem {records : List LogRecord} {t : UInt64} (h : .Prepare t ∈ records)
    (hopen : ∀ record ∈ records, ¬Settles t record) : LeftPrepared records t := by
  induction records with
  | nil => cases h
  | cons record records ih =>
      rw [List.forall_mem_cons] at hopen
      by_cases hmem : .Prepare t ∈ records
      · obtain ⟨before, after, rfl, hafter⟩ := ih hmem hopen.2
        exact ⟨record :: before, after, rfl, hafter⟩
      · have hhead : record = .Prepare t := by
          rcases List.mem_cons.mp h with heq | hin
          · exact heq.symm
          · exact absurd hin hmem
        exact ⟨[], records, by simp [hhead], fun r hr => ⟨fun heq => hmem (heq ▸ hr), hopen.2 r hr⟩⟩

-- The sets keep what was prepared and what was settled, and not the order.
theorem mem_uncommitted (survivors : List LogRecord) (t : UInt64) :
    t ∈ (Recovery.notes { prepared := ∅, committed := ∅, lastValid := 0 } survivors).prepared \
        (Recovery.notes { prepared := ∅, committed := ∅, lastValid := 0 } survivors).committed ↔
      .Prepare t ∈ survivors ∧ ∀ record ∈ survivors, ¬Settles t record := by
  rw [Finset.mem_sdiff, Recovery.mem_prepared_notes, Recovery.mem_committed_notes]
  simp

theorem uncommitted_iff (survivors : List LogRecord) :
    (∀ t, (.Prepare t ∈ survivors ∧ ∀ record ∈ survivors, ¬Settles t record) ↔ LeftPrepared survivors t) ↔
      ∀ t, LeftPrepared survivors t → ∀ record ∈ survivors, ¬Settles t record := by
  constructor
  · intro h t ht
    exact ((h t).mpr ht).2
  · intro h t
    constructor
    · rintro ⟨hmem, hopen⟩
      exact leftPrepared_of_mem hmem hopen
    · intro ht
      have hmem : .Prepare t ∈ survivors := by
        obtain ⟨before, after, rfl, -⟩ := ht
        simp
      exact ⟨hmem, h t ht⟩

end Notes

section Buffer

theorem LogFile.writeAll_bytes (bytes : List UInt8) (f : LogFile) :
    (f.writeAll bytes).content ++ (f.writeAll bytes).buffer = f.content ++ f.buffer ++ bytes := by
  unfold writeAll
  by_cases hroom : bytes.length < CAPACITY - f.buffer.length
  · simp only [if_pos hroom, List.append_assoc]
  · by_cases hflush : CAPACITY - f.buffer.length < bytes.length
    · by_cases hlarge : CAPACITY ≤ bytes.length
      · simp only [if_neg hroom, if_pos hflush, if_pos hlarge, flush, List.append_nil]
      · simp only [if_neg hroom, if_pos hflush, if_neg hlarge, flush, List.nil_append]
    · by_cases hlarge : CAPACITY ≤ bytes.length
      · have hempty : f.buffer = [] := by
          rw [← List.length_eq_zero_iff]
          have hpos : 0 < CAPACITY := by decide
          omega
        simp only [if_neg hroom, if_neg hflush, if_pos hlarge]
        simp only [hempty, List.append_nil]
      · simp only [if_neg hroom, if_neg hflush, if_neg hlarge, List.append_assoc]

theorem LogFile.writeAll_content (bytes : List UInt8) (f : LogFile) :
    f.content.length ≤ (f.writeAll bytes).content.length := by
  unfold writeAll
  by_cases hroom : bytes.length < CAPACITY - f.buffer.length
  · simp only [if_pos hroom, le_refl]
  · by_cases hflush : CAPACITY - f.buffer.length < bytes.length
    · simp only [if_neg hroom, if_pos hflush]
      split_ifs <;> simp [flush]
    · simp only [if_neg hroom, if_neg hflush]
      split_ifs <;> simp

-- A large payload goes straight to the file, and what the buffer held goes before it.
theorem LogFile.writeAll_buffer {header : List UInt8} (hheader : header.length = 8) (payload : List UInt8)
    (f : LogFile) : ((f.writeAll header).writeAll payload).buffer = [] ↔ CAPACITY ≤ payload.length := by
  have hcap : CAPACITY = 65536 := by decide
  have hheld : 8 ≤ (f.writeAll header).buffer.length := by
    have hsmall : ¬CAPACITY ≤ header.length := by omega
    unfold writeAll
    by_cases hroom : header.length < CAPACITY - f.buffer.length
    · simp only [if_pos hroom, List.length_append]
      omega
    · simp only [if_neg hroom, if_neg hsmall, List.length_append]
      omega
  generalize f.writeAll header = g at hheld
  unfold writeAll
  by_cases hroom : payload.length < CAPACITY - g.buffer.length
  · simp only [if_pos hroom, ← List.length_eq_zero_iff, List.length_append]
    omega
  · by_cases hlarge : CAPACITY ≤ payload.length
    · have hflush : CAPACITY - g.buffer.length < payload.length := by omega
      simp only [if_neg hroom, if_pos hlarge, if_pos hflush, flush]
      exact iff_of_true trivial hlarge
    · simp only [if_neg hroom, if_neg hlarge, ← List.length_eq_zero_iff, List.length_append]
      by_cases hflush : CAPACITY - g.buffer.length < payload.length
      · omega
      · rw [if_neg hflush]
        omega

end Buffer

section Checksums

variable [Crc32fast]

def Op.run (m : BinlogManager) : Op → BinlogManager
  | append record => (m.append record).2
  | fsync => m.fsync

def runOps (m : BinlogManager) (ops : List Op) : BinlogManager := ops.foldl Op.run m

def crashed (survivors : List LogRecord) (last : LogRecord) (written : Nat) : List UInt8 :=
  binlog survivors ++ (frame last.serialize).take written

-- Reading from the boundary of any two records returns the frames of the records after it.
def Reads (m : BinlogManager) (records : List LogRecord) : Prop :=
  ∀ before after, records = before ++ after →
    m.readFrom (binlog before).length = framesFrom (binlog before).length after

def Recovers (disk : List UInt8) (survivors : List LogRecord) (ops : List Op) : Prop :=
  ∃ ids m, (BinlogManager.open disk).recover = .ok (ids, m) ∧
    Reads m survivors ∧
    (∃ file, m.file = some file ∧ m.writePos = file.content.length) ∧
    (∀ t, t ∈ ids ↔ LeftPrepared survivors t) ∧
    Reads (runOps m ops) (survivors ++ appended ops)

-- What `recover` takes from the front of the bytes.
def nextRecord (rest : List UInt8) : Res (Option (LogRecord × Nat)) :=
  match nextFrame rest with
  | none => .ok none
  | some (payload, _) => (LogRecord.deserialize payload 0).run

structure Recoverable (survivors : List LogRecord) (torn : List UInt8) (ops : List Op) : Prop where
  fits : ∀ record ∈ survivors ++ appended ops, Fits record.serialize
  readable : ∀ record ∈ survivors, record.Readable
  torn : nextRecord torn = .ok none
  settled : ∀ t, LeftPrepared survivors t → ∀ record ∈ survivors, ¬Settles t record
  flushed : ∀ op ∈ ops.getLast?, op.Flushes

section Loop

theorem Recovery.notes_lastValid (r : Recovery) (records : List LogRecord) :
    (r.notes records).lastValid = r.lastValid + (binlog records).length := by
  induction records generalizing r with
  | nil => simp [notes, binlog]
  | cons record records ih =>
      have hstep : r.notes (record :: records) =
          (r.note record (r.lastValid + 8 + record.serialize.length)).notes records := rfl
      rw [hstep, ih, note_lastValid, length_binlog_cons]
      omega

theorem recoverLoop_records {records : List LogRecord} (hfits : ∀ record ∈ records, Fits record.serialize)
    (hread : ∀ record ∈ records, record.Readable) (rest : List UInt8) {fuel : Nat}
    (hfuel : records.length ≤ fuel) (r : Recovery) :
    recoverLoop fuel r (binlog records ++ rest) = recoverLoop (fuel - records.length)
      (r.notes records) rest := by
  induction records generalizing fuel r with
  | nil => simp [binlog, Recovery.notes]
  | cons record records ih =>
      cases fuel with
      | zero => simp at hfuel
      | succ fuel =>
          rw [List.length_cons, Nat.add_le_add_iff_right] at hfuel
          have hfit := hfits record (by simp)
          have hnext := nextFrame_frame hfit (binlog records ++ rest)
          have hbytes : binlog (record :: records) ++ rest = frame record.serialize ++
              (binlog records ++ rest) := by
            simp [binlog]
          have hrecord := LogRecord.deserialize_payload (hread record (by simp))
            (lt_trans hfit (by decide))
          have hih := ih (fun x hx => hfits x (by simp [hx])) (fun x hx => hread x (by simp [hx])) hfuel
            (r.note record (r.lastValid + 8 + record.serialize.length))
          rw [hbytes, recoverLoop, hnext]
          simp only [hrecord, hih, List.length_cons, Nat.add_sub_add_right]
          rfl

theorem recoverLoop_stop {rest : List UInt8} (h : nextRecord rest = .ok none) (fuel : Nat) (r : Recovery) :
    recoverLoop fuel r rest = .ok r := by
  cases fuel with
  | zero => rfl
  | succ fuel =>
      rw [recoverLoop]
      cases hnext : nextFrame rest with
      | none => rfl
      | some found =>
          rw [nextRecord, hnext] at h
          simp only [h]

theorem recoverLoop_bounds {fuel : Nat} {r r' : Recovery} {rest : List UInt8}
    (h : recoverLoop fuel r rest = .ok r') :
    r.lastValid ≤ r'.lastValid ∧ r'.lastValid ≤ r.lastValid + rest.length := by
  induction fuel generalizing r rest with
  | zero =>
      cases h
      omega
  | succ fuel ih =>
      rw [recoverLoop] at h
      cases hnext : nextFrame rest with
      | none =>
          rw [hnext] at h
          cases h
          omega
      | some found =>
          obtain ⟨payload, rest'⟩ := found
          obtain ⟨rfl, -⟩ := nextFrame_eq_some.mp hnext
          rw [hnext] at h
          cases hrecord : (LogRecord.deserialize payload 0).run with
          | error fault => simp only [hrecord] at h; cases h
          | ok record =>
              cases record with
              | none =>
                  simp only [hrecord] at h
                  cases h
                  omega
              | some record =>
                  simp only [hrecord] at h
                  have hih := ih h
                  rw [Recovery.note_lastValid] at hih
                  rw [List.length_append, length_frame]
                  omega

end Loop

section File

variable {m : BinlogManager} {file : LogFile}

theorem Op.run_file (op : Op) (h : m.file = some file) :
    ∃ file', (op.run m).file = some file' ∧
      file'.content ++ file'.buffer = file.content ++ file.buffer ++ binlog (appended [op]) ∧
      (file'.buffer = [] ↔ op.Flushes) := by
  cases op with
  | append record =>
      let header := leBytes 4 record.serialize.length ++ leBytes 4 (Crc32fast.hash record.serialize).toNat
      refine ⟨(file.writeAll header).writeAll record.serialize, ?_, ?_, ?_⟩
      · simp only [run, BinlogManager.append, h, header]
      · rw [LogFile.writeAll_bytes, LogFile.writeAll_bytes]
        simp [appended, binlog, frame, header]
      · exact LogFile.writeAll_buffer (by simp [header]) _ _
  | fsync =>
      refine ⟨file.flush, by simp only [run, BinlogManager.fsync, h, Option.map_some], ?_, ?_⟩
      · simp [LogFile.flush, appended, binlog]
      · exact iff_of_true rfl trivial

theorem runOps_file (ops : List Op) (h : m.file = some file) (hempty : file.buffer = []) :
    ∃ file', (runOps m ops).file = some file' ∧
      file'.content ++ file'.buffer = file.content ++ binlog (appended ops) ∧
      (file'.buffer = [] ↔ ∀ op ∈ ops.getLast?, op.Flushes) := by
  induction ops using List.reverseRecOn with
  | nil => exact ⟨file, h, by simp [appended, binlog, hempty], by simp [hempty]⟩
  | append_singleton ops op ih =>
      obtain ⟨file₁, hfile₁, hbytes₁, -⟩ := ih
      obtain ⟨file', hfile', hbytes', hbuffer'⟩ := op.run_file hfile₁
      refine ⟨file', ?_, ?_, ?_⟩
      · rw [runOps, List.foldl_append]
        exact hfile'
      · rw [hbytes', hbytes₁]
        simp [appended, binlog]
      · simp [hbuffer']

theorem reads_of_content (h : m.file = some file) {records : List LogRecord}
    (hcontent : file.content = binlog records) (hfits : ∀ record ∈ records, Fits record.serialize) :
    Reads m records := by
  rintro before after rfl
  have hafter : ∀ record ∈ after, Fits record.serialize := fun record hr => hfits record (by simp [hr])
  have hend : nextFrame [] = none := rfl
  have hscan := scanFrames_records before hafter hend
  have hbytes : binlog (before ++ after) = binlog before ++ binlog after ++ [] := by simp [binlog]
  simp only [BinlogManager.readFrom, h, hcontent, hbytes]
  exact hscan

theorem Reads.scan (h : m.file = some file) {records : List LogRecord}
    (hreads : Reads m records) : scanLoop file.content.length 0 file.content = framesFrom 0 records := by
  have hzero := hreads [] records rfl
  simp only [BinlogManager.readFrom, h, binlog, List.flatMap_nil, List.length_nil, scanFrames,
    List.drop_zero] at hzero
  exact hzero

theorem Reads.content (h : m.file = some file) {records : List LogRecord} (hreads : Reads m records) :
    (∀ record ∈ records, Fits record.serialize) ∧ binlog records <+: file.content :=
  fits_of_scanLoop (hreads.scan h)

end File

section Recovered

theorem recover_open (disk : List UInt8) :
    (BinlogManager.open disk).recover =
      (recoverLoop disk.length { prepared := ∅, committed := ∅, lastValid := 0 } disk).map fun r =>
        (r.prepared \ r.committed,
          { file := some { content := disk.take r.lastValid, buffer := [] }, writePos := r.lastValid,
            memBuf := [] }) := by
  simp only [BinlogManager.recover, BinlogManager.open, LogFile.flush, List.append_nil]
  cases recoverLoop disk.length { prepared := ∅, committed := ∅, lastValid := 0 } disk with
  | error fault => rfl
  | ok r =>
      simp only [Except.map, bind, Except.bind, pure, Except.pure]
      by_cases h : r.lastValid < disk.length
      · rw [if_pos h]
      · rw [if_neg h, List.take_of_length_le (by omega)]

variable {survivors : List LogRecord}

theorem recoverLoop_crash (hfits : ∀ record ∈ survivors, Fits record.serialize)
    (hread : ∀ record ∈ survivors, record.Readable) (r : Recovery) (torn : List UInt8) :
    recoverLoop (binlog survivors ++ torn).length r (binlog survivors ++ torn) =
      recoverLoop ((binlog survivors ++ torn).length - survivors.length) (r.notes survivors) torn := by
  have hle := length_le_binlog survivors
  exact recoverLoop_records hfits hread torn (by rw [List.length_append]; omega) r

theorem Recoverable.recovers {torn : List UInt8} {ops : List Op}
    (h : Recoverable survivors torn ops) : Recovers (binlog survivors ++ torn) survivors ops := by
  have hfits : ∀ record ∈ survivors, Fits record.serialize := fun r hr => h.fits r (by simp [hr])
  have hloop : recoverLoop (binlog survivors ++ torn).length { prepared := ∅, committed := ∅, lastValid := 0 }
      (binlog survivors ++ torn) = .ok (Recovery.notes { prepared := ∅, committed := ∅, lastValid :=
        0 } survivors) := by
    rw [recoverLoop_crash hfits h.readable, recoverLoop_stop h.torn]
  have hrec := recover_open (binlog survivors ++ torn)
  rw [hloop] at hrec
  have hvalid := Recovery.notes_lastValid { prepared := ∅, committed := ∅, lastValid := 0 } survivors
  rw [Nat.zero_add] at hvalid
  simp only [Except.map, hvalid, List.take_left] at hrec
  refine ⟨_, _, hrec, ?_, ⟨_, rfl, rfl⟩, ?_, ?_⟩
  · exact reads_of_content rfl rfl hfits
  · simp only [mem_uncommitted]
    exact (uncommitted_iff survivors).mpr h.settled
  · obtain ⟨file', hfile', hbytes', hbuffer'⟩ := runOps_file ops
      (m := { file := some { content := binlog survivors, buffer := [] },
              writePos := (binlog survivors).length, memBuf := [] }) rfl rfl
    rw [hbuffer'.mpr h.flushed, List.append_nil] at hbytes'
    refine reads_of_content hfile' ?_ h.fits
    rw [hbytes']
    simp [binlog]

theorem readable_of_loop {records : List LogRecord} (hfits : ∀ record ∈ records, Fits record.serialize)
    {torn : List UInt8} {fuel : Nat} (hfuel : records.length ≤ fuel) {r r' : Recovery}
    (hloop : recoverLoop fuel r (binlog records ++ torn) = .ok r')
    (hvalid : r.lastValid + (binlog records).length ≤ r'.lastValid) : ∀ record ∈ records, record.Readable := by
  induction records generalizing fuel r with
  | nil => simp
  | cons record records ih =>
      cases fuel with
      | zero => simp at hfuel
      | succ fuel =>
          rw [List.length_cons, Nat.add_le_add_iff_right] at hfuel
          rw [length_binlog_cons] at hvalid
          have hfit := hfits record (by simp)
          have hlen : record.serialize.length < 2 ^ 64 := lt_trans hfit (by decide)
          have hnext := nextFrame_frame hfit (binlog records ++ torn)
          have hbytes : binlog (record :: records) ++ torn = frame record.serialize ++
              (binlog records ++ torn) := by
            simp [binlog]
          rw [hbytes, recoverLoop, hnext] at hloop
          by_cases hread : record.Readable
          · simp only [LogRecord.deserialize_payload hread hlen] at hloop
            have hrest := ih (fun x hx => hfits x (by simp [hx])) hfuel hloop (by
              rw [Recovery.note_lastValid]
              omega)
            exact List.forall_mem_cons.mpr ⟨hread, hrest⟩
          · simp only [LogRecord.deserialize_refused hread hlen] at hloop
            cases hloop
            omega

-- A record that is read from the torn part would be read again with the others.
theorem torn_of_loop (hfits : ∀ record ∈ survivors, Fits record.serialize)
    {torn : List UInt8} {fuel : Nat} (hfuel : torn.length ≤ fuel) {r r' : Recovery}
    (hzero : r.lastValid = (binlog survivors).length) (hloop : recoverLoop fuel r torn = .ok r')
    {m : BinlogManager} {buffer : List UInt8}
    (hm : m.file = some { content := (binlog survivors ++ torn).take r'.lastValid, buffer := buffer })
    (hreads : Reads m survivors) : nextRecord torn = .ok none := by
  cases hnext : nextFrame torn with
  | none => rw [nextRecord, hnext]
  | some found =>
      obtain ⟨payload, rest⟩ := found
      obtain ⟨rfl, hfit⟩ := nextFrame_eq_some.mp hnext
      rw [List.length_append, length_frame] at hfuel
      cases fuel with
      | zero => omega
      | succ fuel =>
          rw [recoverLoop, hnext] at hloop
          rw [nextRecord, hnext]
          cases hrecord : (LogRecord.deserialize payload 0).run with
          | error fault =>
              simp only [hrecord] at hloop
              cases hloop
          | ok record =>
              cases record with
              | none => exact hrecord
              | some record =>
                  exfalso
                  simp only [hrecord] at hloop
                  have hbounds := (recoverLoop_bounds hloop).1
                  rw [Recovery.note_lastValid, hzero] at hbounds
                  have hcontent : (binlog survivors ++ (frame payload ++ rest)).take r'.lastValid =
                      binlog survivors ++ (frame payload ++
                        rest.take (r'.lastValid - (binlog survivors).length - (frame payload).length)) := by
                    rw [List.take_append, List.take_of_length_le (by omega), List.take_append,
                      List.take_of_length_le (by rw [length_frame]; omega)]
                  have hscan := hreads.scan hm
                  have hle := length_le_binlog survivors
                  dsimp only at hscan
                  rw [hcontent, scanLoop_records hfits _ (by rw [List.length_append]; omega)] at hscan
                  have hmore := congrArg List.length hscan
                  rw [List.length_append, Nat.add_eq_left, List.length_eq_zero_iff] at hmore
                  have hpos : 0 < (binlog survivors ++ (frame payload ++
                        rest.take (r'.lastValid - (binlog survivors).length - (frame payload).length))).length -
                      survivors.length := by
                    rw [List.length_append, List.length_append, length_frame]
                    omega
                  obtain ⟨k, hk⟩ := Nat.exists_eq_add_one.mpr hpos
                  rw [hk, scanLoop, nextFrame_frame hfit] at hmore
                  cases hmore

theorem Recovers.recoverable {torn : List UInt8} {ops : List Op}
    (h : Recovers (binlog survivors ++ torn) survivors ops) : Recoverable survivors torn ops := by
  obtain ⟨ids, m, hrec, hreads, -, hids, hafter⟩ := h
  rw [recover_open] at hrec
  cases hloop : recoverLoop (binlog survivors ++ torn).length { prepared := ∅, committed := ∅, lastValid := 0 }
      (binlog survivors ++ torn) with
  | error fault =>
      rw [hloop] at hrec
      cases hrec
  | ok r =>
      rw [hloop] at hrec
      simp only [Except.map] at hrec
      cases hrec
      have hle := length_le_binlog survivors
      obtain ⟨hfits, hprefix⟩ := hreads.content rfl
      have hvalid := hprefix.length_le
      rw [List.length_take] at hvalid
      have hread := readable_of_loop hfits (by rw [List.length_append]; omega) hloop (by
        dsimp only
        omega)
      rw [recoverLoop_crash hfits hread] at hloop
      have hnotes := Recovery.notes_lastValid { prepared := ∅, committed := ∅, lastValid := 0 } survivors
      rw [Nat.zero_add] at hnotes
      have htorn := torn_of_loop hfits (by rw [List.length_append]; omega) hnotes hloop rfl hreads
      rw [recoverLoop_stop htorn] at hloop
      cases hloop
      obtain ⟨file', hfile', hbytes', hbuffer'⟩ := runOps_file ops
        (m := { file := some
                  { content := (binlog survivors ++ torn).take (Recovery.notes _ survivors).lastValid,
                    buffer := [] },
                writePos := _, memBuf := [] }) rfl rfl
      obtain ⟨hall, hwhole⟩ := hafter.content hfile'
      refine ⟨hall, hread, htorn, ?_, hbuffer'.mp ?_⟩
      · simp only [mem_uncommitted] at hids
        exact (uncommitted_iff survivors).mp hids
      · have hlen := congrArg List.length hbytes'
        have hwhole := hwhole.length_le
        have happend : binlog (survivors ++ appended ops) = binlog survivors ++ binlog (appended ops) := by
          simp [binlog]
        dsimp only at hlen
        rw [hnotes, List.take_left] at hlen
        rw [happend] at hwhole
        simp only [List.length_append] at hlen hwhole
        rw [← List.length_eq_zero_iff]
        omega

-- Recovery and reading do what they are for exactly where the bytes of the survivors can all be read again,
-- the buffer of the writer is empty, and no transaction is left prepared after an end of its own.
theorem recovers_iff (survivors : List LogRecord) (last : LogRecord) (written : Nat) (ops : List Op) :
    Recovers (crashed survivors last written) survivors ops ↔
      Recoverable survivors ((frame last.serialize).take written) ops :=
  ⟨Recovers.recoverable, Recoverable.recovers⟩

end Recovered

end Checksums

section Sample

-- The checksum of the crate is the one that the Raft log computes with a loop of its own.
instance ieee : Crc32fast := ⟨fun bytes => UInt32.ofNat (Raft.crc32 bytes)⟩

-- Transaction 1 is prepared, committed, and prepared again.
theorem recovers_reused :
    ¬Recovers (crashed [.Prepare 1, .Commit 1, .Prepare 1] (.Begin 2) 3)
      [.Prepare 1, .Commit 1, .Prepare 1] [] := by
  intro h
  have hleft : LeftPrepared [.Prepare 1, .Commit 1, .Prepare 1] 1 := ⟨[.Prepare 1, .Commit 1], [], rfl, by simp⟩
  exact h.recoverable.settled 1 hleft (.Commit 1) (by simp) (Or.inl rfl)

end Sample

end Kkdb.Binlog
