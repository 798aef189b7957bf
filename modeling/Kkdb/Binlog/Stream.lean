import Kkdb.Binlog.Base64
import Kkdb.Binlog.Recovery

namespace Kkdb.Binlog

open Lib
open Raft (Fits)

structure BinlogEvent where
  pos : Nat
  framed : List UInt8

inductive Phase where
  | appended
  | synced
  | read (event : BinlogEvent)

-- A call of `append_and_broadcast` that has dropped the lock. The bytes of its frame are read back before the
-- event is sent.
structure Call where
  record : LogRecord
  startPos : Nat
  frameLen : Nat
  phase : Phase

-- What was sent and what was appended before it subscribed.
structure Subscriber where
  sent : Nat
  appended : Nat

-- The events are those sent so far, and the records those appended so far, which the code does not keep.
structure BinlogBroadcaster where
  manager : BinlogManager
  calls : List Call
  events : List BinlogEvent
  records : List LogRecord
  subscribers : List Subscriber

namespace BinlogBroadcaster

def new (manager : BinlogManager) : BinlogBroadcaster where
  manager := manager
  calls := []
  events := []
  records := []
  subscribers := []

inductive Step where
  | append (record : LogRecord)
  | fsync (call : Nat)
  | readBack (call : Nat)
  | send (call : Nat)
  | subscribe

-- The event that is sent belongs to the first record that is not sent yet, and no call is under way when a
-- subscriber joins.
def InOrder : Step → BinlogBroadcaster → Prop
  | .append record, _ => Fits record.serialize
  | .send i, _ => i = 0
  | .subscribe, b => b.calls = []
  | _, _ => True

def found (event : BinlogEvent) : Nat × List UInt8 := (event.pos, event.framed)

def received (b : BinlogBroadcaster) (sub : Subscriber) : List (Nat × List UInt8) :=
  (b.events.drop sub.sent).map found

section Checksums

variable [Crc32fast]

-- The event of the call. A file is read after the flush, and the memory is not read at all.
def Call.event (call : Call) (m : BinlogManager) : Option BinlogEvent :=
  match m.file, call.phase with
  | some file, .synced =>
      let framed :=
        if call.startPos + call.frameLen ≤ file.content.length then
          (file.content.drop call.startPos).take call.frameLen
        else []
      some { pos := call.startPos + framed.length, framed := framed }
  | none, .appended =>
      let framed := frame call.record.serialize
      some { pos := call.startPos + framed.length, framed := framed }
  | _, _ => none

-- One step of a writer or of a subscriber. A step whose turn it is not leaves everything as it is.
def step : Step → BinlogBroadcaster → BinlogBroadcaster
  | .append record, b =>
      let (startPos, manager) := b.manager.append record
      let call :=
        { record := record, startPos := startPos, frameLen := manager.writePos - startPos, phase := .appended }
      { b with manager := manager, calls := b.calls ++ [call], records := b.records ++ [record] }
  | .fsync i, b =>
      match b.calls[i]? with
      | none => b
      | some call =>
          match b.manager.file, call.phase with
          | some _, .appended =>
              { b with manager := b.manager.fsync, calls := b.calls.set i { call with phase := .synced } }
          | _, _ => b
  | .readBack i, b =>
      match b.calls[i]? with
      | none => b
      | some call =>
          match Call.event call b.manager with
          | some event => { b with calls := b.calls.set i { call with phase := .read event } }
          | none => b
  | .send i, b =>
      match b.calls[i]? with
      | none => b
      | some call =>
          match call.phase with
          | .read event => { b with calls := b.calls.eraseIdx i, events := b.events ++ [event] }
          | _ => b
  | .subscribe, b =>
      { b with
        subscribers := b.subscribers ++ [{ sent := b.events.length, appended := b.records.length }] }

-- The frames of the records that are appended after it subscribed. The file ended at `start` before the first.
def owed (start : Nat) (b : BinlogBroadcaster) (sub : Subscriber) : List (Nat × List UInt8) :=
  framesFrom (start + (binlog (b.records.take sub.appended)).length) (b.records.drop sub.appended)

structure Follows (start : Nat) (b : BinlogBroadcaster) (sub : Subscriber) : Prop where
  received : b.received sub <+: b.owed start sub
  complete : b.calls = [] → b.received sub = b.owed start sub
  resume : ∀ before event after, b.owed start sub = before ++ event :: after → event ∈ b.received sub →
    b.manager.readFrom event.1 <+: after ∧ (b.calls = [] → b.manager.readFrom event.1 = after)

inductive Opened : BinlogManager → Prop where
  | file (disk : List UInt8) : Opened (BinlogManager.open disk)
  | recovered (disk : List UInt8) (ids : Finset UInt64) (m : BinlogManager)
      (h : (BinlogManager.open disk).recover = .ok (ids, m)) : Opened m
  | memory : Opened BinlogManager.openMemory

end Checksums

end BinlogBroadcaster

section Contents

namespace BinlogManager

def content (m : BinlogManager) : List UInt8 :=
  match m.file with
  | some file => file.content
  | none => m.memBuf

def buffer (m : BinlogManager) : List UInt8 :=
  match m.file with
  | some file => file.buffer
  | none => []

theorem fsync_bytes (m : BinlogManager) : m.fsync.content = m.content ++ m.buffer ∧ m.fsync.buffer = [] := by
  unfold content buffer fsync
  cases m.file <;> simp [LogFile.flush]

theorem buffer_memory {m : BinlogManager} (h : m.file = none) : m.buffer = [] := by rw [buffer, h]

variable [Crc32fast]

theorem readFrom_content (m : BinlogManager) (pos : Nat) : m.readFrom pos = scanFrames m.content pos := by
  unfold readFrom content
  cases m.file <;> rfl

theorem append_bytes (record : LogRecord) (m : BinlogManager) :
    (m.append record).2.content ++ (m.append record).2.buffer =
      m.content ++ m.buffer ++ frame record.serialize := by
  unfold content buffer append
  cases m.file with
  | none => simp [frame]
  | some file =>
      dsimp only
      rw [LogFile.writeAll_bytes, LogFile.writeAll_bytes]
      simp [frame]

theorem append_content (record : LogRecord) (m : BinlogManager) :
    m.content.length ≤ (m.append record).2.content.length := by
  unfold content append
  cases m.file with
  | none => simp
  | some file => exact (LogFile.writeAll_content _ file).trans (LogFile.writeAll_content _ _)

end BinlogManager

theorem BinlogBroadcaster.Opened.whole [Crc32fast] {m : BinlogManager} (h : BinlogBroadcaster.Opened m) :
    m.buffer = [] ∧ m.writePos = m.content.length := by
  cases h with
  | file disk => exact ⟨rfl, rfl⟩
  | memory => exact ⟨rfl, rfl⟩
  | recovered disk ids m h =>
      rw [recover_open] at h
      cases hloop : recoverLoop disk.length { prepared := ∅, committed := ∅, lastValid := 0 } disk with
      | error fault =>
          rw [hloop] at h
          cases h
      | ok r =>
          rw [hloop] at h
          cases h
          have hbounds := (recoverLoop_bounds hloop).2
          refine ⟨rfl, ?_⟩
          simp only [BinlogManager.content, List.length_take]
          dsimp only at hbounds
          omega

end Contents

namespace BinlogBroadcaster

section Ordered

variable [Crc32fast]

-- The call that appended the n-th record, when the file holds `len` bytes.
structure Placed (start : Nat) (records : List LogRecord) (len n : Nat) (call : Call) : Prop where
  record : records[n]? = some call.record
  startPos : call.startPos = start + (binlog (records.take n)).length
  frameLen : call.frameLen = (frame call.record.serialize).length
  flushed : call.phase ≠ .appended → call.startPos + call.frameLen ≤ len
  event : ∀ event, call.phase = .read event →
    found event = (call.startPos + call.frameLen, frame call.record.serialize)

-- The events are those of the first records, and the calls under way those of the others.
structure Ordered (m₀ : BinlogManager) (b : BinlogBroadcaster) : Prop where
  bytes : b.manager.content ++ b.manager.buffer = m₀.content ++ binlog b.records
  writePos : b.manager.writePos = m₀.content.length + (binlog b.records).length
  fits : ∀ record ∈ b.records, Fits record.serialize
  count : b.records.length = b.events.length + b.calls.length
  sent : b.events.map found = framesFrom m₀.content.length (b.records.take b.events.length)
  flushed : m₀.content.length + (binlog (b.records.take b.events.length)).length ≤ b.manager.content.length
  calls : ∀ i call, b.calls[i]? = some call →
    Placed m₀.content.length b.records b.manager.content.length (b.events.length + i) call
  subscribers : ∀ sub ∈ b.subscribers, sub.sent = sub.appended ∧ sub.sent ≤ b.events.length

variable {m₀ : BinlogManager}

theorem ordered_new (h : Opened m₀) : Ordered m₀ (new m₀) := by
  obtain ⟨hbuffer, hpos⟩ := h.whole
  refine ⟨?_, ?_, ?_, rfl, rfl, ?_, ?_, ?_⟩
  · simp [new, hbuffer, binlog]
  · simp [new, hpos, binlog]
  · simp [new]
  · simp [new, binlog]
  · simp [new]
  · simp [new]

variable {start n len : Nat} {records : List LogRecord} {call : Call}

theorem Placed.mono {len' : Nat}
    (h : Placed start records len n call) (hlen : len ≤ len') : Placed start records len' n call :=
  ⟨h.record, h.startPos, h.frameLen, fun hp => (h.flushed hp).trans hlen, h.event⟩

theorem Placed.append (h : Placed start records len n call) (record : LogRecord) :
    Placed start (records ++ [record]) len n call := by
  have hn : n < records.length := (List.getElem?_eq_some_iff.mp h.record).1
  refine ⟨?_, ?_, h.frameLen, h.flushed, h.event⟩
  · rw [List.getElem?_append_left hn, h.record]
  · rw [List.take_append_of_le_length (by omega), h.startPos]

variable {b : BinlogBroadcaster}

theorem Ordered.append (h : Ordered m₀ b) {record : LogRecord}
    (hfits : Fits record.serialize) : Ordered m₀ (step (.append record) b) := by
  have hgrow := BinlogManager.append_content record b.manager
  have hbytes := BinlogManager.append_bytes record b.manager
  have hcount := h.count
  have hpos : (b.manager.append record).2.writePos = b.manager.writePos + (8 + record.serialize.length) := rfl
  have htake : (b.records ++ [record]).take b.events.length = b.records.take b.events.length :=
    List.take_append_of_le_length (by omega)
  refine ⟨?_, ?_, ?_, ?_, ?_, ?_, ?_, h.subscribers⟩
  · simp only [step, hbytes, h.bytes]
    simp [binlog]
  · simp only [step, hpos, h.writePos]
    simp [binlog, length_frame]
    omega
  · intro r hr
    rcases List.mem_append.mp hr with hold | hnew
    · exact h.fits r hold
    · rw [List.mem_singleton.mp hnew]
      exact hfits
  · simp only [step, List.length_append, List.length_singleton]
    omega
  · simp only [step, htake, h.sent]
  · simp only [step, htake]
    exact h.flushed.trans hgrow
  · intro i call hcall
    simp only [step] at hcall ⊢
    by_cases hi : i < b.calls.length
    · rw [List.getElem?_append_left hi] at hcall
      exact ((h.calls i call hcall).append record).mono hgrow
    · rw [List.getElem?_append_right (by omega)] at hcall
      have hlast : i = b.calls.length := by
        have hlt := (List.getElem?_eq_some_iff.mp hcall).1
        simp only [List.length_singleton] at hlt
        omega
      subst hlast
      rw [Nat.sub_self] at hcall
      cases hcall
      rw [← hcount]
      refine ⟨?_, ?_, ?_, ?_, ?_⟩
      · simp
      · have hfrom : (b.manager.append record).1 = b.manager.writePos := rfl
        rw [hfrom, h.writePos, List.take_left]
      · have hfrom : (b.manager.append record).1 = b.manager.writePos := rfl
        rw [hfrom, hpos, length_frame]
        dsimp only
        omega
      · intro hphase
        exact absurd rfl hphase
      · intro event hphase
        cases hphase

theorem binlog_at {record : LogRecord} (h : records[n]? = some record) :
    binlog records = binlog (records.take n) ++ (frame record.serialize ++ binlog (records.drop (n + 1))) := by
  obtain ⟨hn, hget⟩ := List.getElem?_eq_some_iff.mp h
  conv => lhs; rw [← List.take_append_drop n records, List.drop_eq_getElem_cons hn, hget]
  simp [binlog]

theorem Placed.le (h : Placed start records len n call) : call.startPos + call.frameLen ≤ start +
    (binlog records).length := by
  have hbytes := congrArg List.length (binlog_at h.record)
  simp only [List.length_append] at hbytes
  rw [h.startPos, h.frameLen]
  omega

theorem Placed.slice {content buffer : List UInt8} (h : Placed m₀.content.length records len n call)
    (hbytes : content ++ buffer = m₀.content ++ binlog records)
    (hlen : call.startPos + call.frameLen ≤ content.length) :
    (content.drop call.startPos).take call.frameLen = frame call.record.serialize := by
  have hcontent : (content.drop call.startPos).take call.frameLen =
      ((content ++ buffer).drop call.startPos).take call.frameLen := by
    rw [List.drop_append_of_le_length (by omega), List.take_append_of_le_length (by rw [List.length_drop]; omega)]
  rw [hcontent, hbytes, binlog_at h.record, ← List.append_assoc, h.startPos, ← List.length_append,
    List.drop_left,
    h.frameLen, List.take_left]

theorem Ordered.set (h : Ordered m₀ b) {i : Nat}
    {m : BinlogManager} (hbytes : m.content ++ m.buffer = b.manager.content ++ b.manager.buffer)
    (hpos : m.writePos = b.manager.writePos) (hgrow : b.manager.content.length ≤ m.content.length)
    (hcall : Placed m₀.content.length b.records m.content.length (b.events.length + i) call) :
    Ordered m₀ { b with manager := m, calls := b.calls.set i call } := by
  refine ⟨hbytes.trans h.bytes, hpos.trans h.writePos, h.fits, ?_, h.sent, h.flushed.trans hgrow, ?_,
    h.subscribers⟩
  · simp only [List.length_set]
    exact h.count
  · intro j other hother
    dsimp only at hother ⊢
    rw [List.getElem?_set] at hother
    by_cases hij : i = j
    · subst hij
      by_cases hi : i < b.calls.length
      · rw [if_pos rfl, if_pos hi] at hother
        cases hother
        exact hcall
      · rw [if_pos rfl, if_neg hi] at hother
        cases hother
    · rw [if_neg hij] at hother
      exact (h.calls j other hother).mono hgrow

theorem Ordered.fsync (h : Ordered m₀ b) (i : Nat) :
    Ordered m₀ (step (.fsync i) b) := by
  cases hcall : b.calls[i]? with
  | none => simpa only [step, hcall] using h
  | some call =>
      have hplaced := h.calls i call hcall
      obtain ⟨hcontent, hbuffer⟩ := b.manager.fsync_bytes
      have hbytes : b.manager.fsync.content ++ b.manager.fsync.buffer =
          b.manager.content ++ b.manager.buffer := by
        rw [hbuffer, hcontent, List.append_nil]
      have hgrow : b.manager.content.length ≤ b.manager.fsync.content.length := by
        rw [hcontent, List.length_append]
        omega
      have hsynced : Placed m₀.content.length b.records b.manager.fsync.content.length (b.events.length + i)
          { call with phase := .synced } := by
        refine ⟨hplaced.record, hplaced.startPos, hplaced.frameLen, fun _ => ?_, fun event hevent => ?_⟩
        · have hle := hplaced.le
          rw [hcontent, h.bytes, List.length_append]
          exact hle
        · cases hevent
      simp only [step, hcall]
      cases b.manager.file with
      | none => exact h
      | some file =>
          cases call.phase with
          | appended => exact h.set hbytes rfl hgrow hsynced
          | synced => exact h
          | read event => exact h

theorem Placed.readBack (h : Ordered m₀ b)
    (hplaced : Placed m₀.content.length b.records b.manager.content.length n call) {event : BinlogEvent}
    (hevent : Call.event call b.manager = some event) :
    Placed m₀.content.length b.records b.manager.content.length n { call with phase := .read event } := by
  have hflushed : call.startPos + call.frameLen ≤ b.manager.content.length ∧
      found event = (call.startPos + call.frameLen, frame call.record.serialize) := by
    unfold Call.event at hevent
    cases hfile : b.manager.file with
    | none =>
        have hbytes := congrArg List.length h.bytes
        rw [BinlogManager.buffer_memory hfile, List.append_nil, List.length_append] at hbytes
        have hle := hplaced.le
        cases hphase : call.phase with
        | appended =>
            simp only [hfile, hphase] at hevent
            cases hevent
            exact ⟨by omega, by rw [found, hplaced.frameLen]⟩
        | synced =>
            simp only [hfile, hphase] at hevent
            cases hevent
        | read event' =>
            simp only [hfile, hphase] at hevent
            cases hevent
    | some file =>
        have hcontent : b.manager.content = file.content := by rw [BinlogManager.content, hfile]
        cases hphase : call.phase with
        | synced =>
            have hlen := hplaced.flushed (by simp [hphase])
            have hslice := hplaced.slice h.bytes hlen
            rw [hcontent] at hlen hslice
            simp only [hfile, hphase, if_pos hlen, hslice] at hevent
            cases hevent
            exact ⟨by rw [hcontent]; exact hlen, by rw [found, hplaced.frameLen]⟩
        | appended =>
            simp only [hfile, hphase] at hevent
            cases hevent
        | read event' =>
            simp only [hfile, hphase] at hevent
            cases hevent
  refine ⟨hplaced.record, hplaced.startPos, hplaced.frameLen, fun _ => hflushed.1, fun event' hphase => ?_⟩
  cases hphase
  exact hflushed.2

theorem Ordered.readBack (h : Ordered m₀ b) (i : Nat) :
    Ordered m₀ (step (.readBack i) b) := by
  cases hcall : b.calls[i]? with
  | none => simpa only [step, hcall] using h
  | some call =>
      simp only [step, hcall]
      cases hevent : Call.event call b.manager with
      | none => exact h
      | some event => exact h.set rfl rfl le_rfl (Placed.readBack h (h.calls i call hcall) hevent)

theorem Ordered.send (h : Ordered m₀ b) :
    Ordered m₀ (step (.send 0) b) := by
  cases hcalls : b.calls with
  | nil => simpa only [step, hcalls, List.getElem?_nil] using h
  | cons call calls =>
      have hplaced := h.calls 0 call (by rw [hcalls]; rfl)
      have hcount := h.count
      rw [hcalls, List.length_cons] at hcount
      simp only [step, hcalls, List.getElem?_cons_zero]
      cases hphase : call.phase with
      | appended => exact h
      | synced => exact h
      | read event =>
          have hrecord := hplaced.record
          have htake : b.records.take (b.events.length + 1) = b.records.take b.events.length ++
              [call.record] := by
            rw [List.take_add_one, ← Nat.add_zero b.events.length, hrecord]
            rfl
          have hframe : (binlog (b.records.take (b.events.length + 1))).length =
              (binlog (b.records.take b.events.length)).length + (frame call.record.serialize).length := by
            rw [htake]
            simp [binlog]
          have hfound := hplaced.event event hphase
          have hstart := hplaced.startPos
          have hlen := hplaced.frameLen
          rw [Nat.add_zero] at hstart
          refine ⟨h.bytes, h.writePos, h.fits, ?_, ?_, ?_, ?_, ?_⟩
          · simp only [List.length_append, List.length_singleton, List.eraseIdx_cons_zero]
            omega
          · simp only [List.length_append, List.length_singleton, List.map_append, h.sent, htake,
              framesFrom_append, List.map_singleton, hfound, framesFrom]
            rw [hstart, hlen, length_frame]
            congr 3
            omega
          · have hflushed := hplaced.flushed (by simp [hphase])
            simp only [List.length_append, List.length_singleton, hframe]
            omega
          · intro j other hother
            dsimp only at hother ⊢
            rw [List.eraseIdx_cons_zero] at hother
            have hnext := h.calls (j + 1) other (by rw [hcalls]; exact hother)
            rwa [List.length_append, List.length_singleton, Nat.add_assoc, Nat.add_comm 1 j]
          · intro sub hsub
            have hold := h.subscribers sub hsub
            refine ⟨hold.1, ?_⟩
            rw [List.length_append]
            omega

theorem Ordered.subscribe (h : Ordered m₀ b) (hquiet : b.calls = []) :
    Ordered m₀ (step .subscribe b) := by
  have hcount := h.count
  rw [hquiet, List.length_nil] at hcount
  refine ⟨h.bytes, h.writePos, h.fits, h.count, h.sent, h.flushed, h.calls, fun sub hsub => ?_⟩
  rcases List.mem_append.mp hsub with hold | hnew
  · exact h.subscribers sub hold
  · rw [List.mem_singleton.mp hnew]
    exact ⟨by dsimp only; omega, le_rfl⟩

theorem Ordered.step (s : Step) (b : BinlogBroadcaster) (h : Ordered m₀ b)
    (hs : InOrder s b) : Ordered m₀ (step s b) := by
  cases s with
  | append record => exact h.append hs
  | fsync i => exact h.fsync i
  | readBack i => exact h.readBack i
  | send i =>
      cases hs
      exact h.send
  | subscribe => exact h.subscribe hs

theorem framesFrom_split {pos : Nat} {before after : List (Nat × List UInt8)}
    {event : Nat × List UInt8} (h : framesFrom pos records = before ++ event :: after) :
    ∃ front rest, records = front ++ rest ∧ event.1 = pos + (binlog front).length ∧
      after = framesFrom event.1 rest := by
  induction before generalizing pos records with
  | nil =>
      cases records with
      | nil => cases h
      | cons record records =>
          obtain ⟨rfl, rfl⟩ := List.cons.inj h
          exact ⟨[record], records, rfl, by simp [binlog, length_frame, Nat.add_assoc], rfl⟩
  | cons first before ih =>
      cases records with
      | nil => cases h
      | cons record records =>
          obtain ⟨-, htail⟩ := List.cons.inj h
          obtain ⟨front, rest, rfl, hpos, hafter⟩ := ih htail
          refine ⟨record :: front, rest, rfl, ?_, hafter⟩
          rw [hpos, length_binlog_cons]
          omega

theorem Ordered.owed_eq (h : Ordered m₀ b) {sub : Subscriber} (hsub : sub ∈ b.subscribers) :
    ∃ pos, b.owed m₀.content.length sub = b.received sub ++ framesFrom pos
      (b.records.drop b.events.length) := by
  obtain ⟨heq, hle⟩ := h.subscribers sub hsub
  have hcount := h.count
  have hreceived : b.received sub =
      framesFrom (m₀.content.length + (binlog (b.records.take sub.sent)).length)
        ((b.records.take b.events.length).drop sub.sent) := by
    rw [received, List.map_drop, h.sent, drop_framesFrom, List.take_take, Nat.min_eq_left hle]
  have hrest : b.records.drop sub.sent =
      (b.records.take b.events.length).drop sub.sent ++ b.records.drop b.events.length := by
    conv => lhs; rw [← List.take_append_drop b.events.length b.records]
    rw [List.drop_append_of_le_length (by rw [List.length_take]; omega)]
  rw [owed, ← heq, hrest, framesFrom_append, hreceived]
  exact ⟨_, rfl⟩

-- What is read from the place after any record are the frames of the records behind it, as far as they are in
-- the file.
theorem Ordered.readFrom (h : Ordered m₀ b)
    {front rest : List LogRecord} (hsplit : b.records = front ++ rest) {pos : Nat}
    (hpos : pos = m₀.content.length + (binlog front).length) :
    b.manager.readFrom pos <+: framesFrom pos rest ∧
      (b.calls = [] → b.manager.readFrom pos = framesFrom pos rest) := by
  have hfits : ∀ record ∈ rest, Fits record.serialize := fun r hr => h.fits r (by simp [hsplit, hr])
  have hlen : pos = (m₀.content ++ binlog front).length := by rw [hpos, List.length_append]
  have hbytes : b.manager.content ++ b.manager.buffer = (m₀.content ++ binlog front) ++ binlog rest := by
    rw [h.bytes, hsplit]
    simp [binlog]
  rw [BinlogManager.readFrom_content, scanFrames]
  constructor
  · apply scanLoop_cut hfits
    have hdrop : (b.manager.content ++ b.manager.buffer).drop pos = binlog rest := by
      rw [hbytes, hlen, List.drop_left]
    rw [← hdrop, List.drop_append]
    exact List.prefix_append _ _
  · intro hquiet
    have hcount := h.count
    rw [hquiet, List.length_nil, Nat.add_zero] at hcount
    have hflushed := h.flushed
    rw [← hcount, List.take_length] at hflushed
    have hempty : b.manager.buffer = [] := by
      have hlens := congrArg List.length h.bytes
      simp only [List.length_append] at hlens
      rw [← List.length_eq_zero_iff]
      omega
    rw [hempty, List.append_nil] at hbytes
    have hle := length_le_binlog rest
    have hend : nextFrame [] = none := rfl
    have hfuel : rest.length ≤ b.manager.content.length := by
      rw [hbytes, List.length_append]
      omega
    have hscan := scanLoop_records hfits [] hfuel pos
    simp only [scanLoop_stop hend, List.append_nil] at hscan
    conv => lhs; arg 3; rw [hbytes, hlen, List.drop_left]
    exact hscan

theorem Ordered.follows (h : Ordered m₀ b) {sub : Subscriber}
    (hsub : sub ∈ b.subscribers) : Follows m₀.content.length b sub := by
  obtain ⟨pos, howed⟩ := h.owed_eq hsub
  refine ⟨?_, ?_, ?_⟩
  · rw [howed]
    exact List.prefix_append _ _
  · intro hquiet
    have hcount := h.count
    rw [hquiet, List.length_nil, Nat.add_zero] at hcount
    rw [howed, ← hcount, List.drop_length, framesFrom, List.append_nil]
  · intro before event after hevent _
    obtain ⟨front, rest, hsplit, hpos, rfl⟩ := framesFrom_split hevent
    have hrecords : b.records = (b.records.take sub.appended ++ front) ++ rest := by
      rw [List.append_assoc, ← hsplit, List.take_append_drop]
    apply h.readFrom hrecords
    rw [hpos]
    simp [binlog, Nat.add_assoc]

end Ordered

section Streaming

variable [Crc32fast]

-- Calls that send in the order of their positions let every subscriber follow the file.
theorem follows_inOrder {m₀ : BinlogManager} (h : Opened m₀) {steps : List Step}
    (hmeets : Meets step InOrder steps (new m₀)) :
    (∀ sub ∈ (run step steps (new m₀)).subscribers, Follows m₀.content.length (run step steps (new m₀)) sub) ∧
      ∀ data, base64Decode (base64Encode data) = some data := by
  refine ⟨fun sub hsub => ?_, base64Decode_encode⟩
  have hordered := run_invariant (Ordered m₀) (ordered_new h) Ordered.step hmeets
  exact hordered.follows hsub

end Streaming

section Sample

-- Two calls of one writer after the other, with a subscriber that joins first.
def follows_inOrder_run : List Step :=
  [.subscribe, .append (.Begin 1), .append (.Commit 1), .readBack 0, .send 0, .readBack 0, .send 0]

theorem follows_inOrder_run_meets : Meets step InOrder follows_inOrder_run (new BinlogManager.openMemory) := by
  have hbegin : Fits (LogRecord.Begin 1).serialize := by
    unfold Fits
    decide
  have hcommit : Fits (LogRecord.Commit 1).serialize := by
    unfold Fits
    decide
  exact ⟨rfl, hbegin, hcommit, trivial, rfl, trivial, rfl, trivial⟩

theorem follows_inOrder_two :
    (∀ sub ∈ (run step follows_inOrder_run (new BinlogManager.openMemory)).subscribers,
      Follows 0 (run step follows_inOrder_run (new BinlogManager.openMemory)) sub) ∧
      ∀ data, base64Decode (base64Encode data) = some data :=
  follows_inOrder .memory follows_inOrder_run_meets

def crossed : List Step :=
  [.subscribe, .append (.Begin 1), .append (.Commit 1), .readBack 1, .send 1, .readBack 0, .send 0]

theorem not_follows_crossed :
    ¬∀ sub ∈ (run step crossed (new BinlogManager.openMemory)).subscribers,
      Follows 0 (run step crossed (new BinlogManager.openMemory)) sub := by
  intro h
  have hsub := h { sent := 0, appended := 0 } (List.mem_singleton.mpr rfl)
  have hreceived := congrArg (List.map Prod.fst) (hsub.complete rfl)
  revert hreceived
  decide +kernel

end Sample

end BinlogBroadcaster

end Kkdb.Binlog
