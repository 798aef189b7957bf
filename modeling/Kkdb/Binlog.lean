import Kkdb.Lib.State
import Kkdb.Types.Row
import Mathlib.Data.Finset.SDiff

namespace Kkdb.Binlog

open Lib Varint

inductive LogRecord where
  | Begin (txid : UInt64)
  | Insert (txid : UInt64) (tableName : String) (rowid : Int64) (row : Row)
  | Update (txid : UInt64) (tableName : String) (rowid : Int64) (oldRow newRow : Row)
  | Delete (txid : UInt64) (tableName : String) (rowid : Int64) (row : Option Row)
  | Prepare (txid : UInt64)
  | Commit (txid : UInt64)
  | Rollback (txid : UInt64)
  | Sql (sql userId : String) (raftIndex : UInt64)
  deriving DecidableEq

def writeBytes (bytes : List UInt8) : List UInt8 := writeVarintU64 (UInt64.ofNat bytes.length) ++ bytes

def writeString (s : String) : List UInt8 := writeBytes (textBytes s)

def writeRow (row : Row) : List UInt8 := writeBytes (serializeRow row)

def lift {α : Type} (x : Option α) : OptionT Res α := OptionT.mk (pure x)

def panicked {α : Type} : OptionT Res α := OptionT.mk (.error .Panic)

-- `.ok()` of a result. A panic is none of its errors.
def okOrNone {α : Type} : Res α → OptionT Res α
  | .ok a => lift (some a)
  | .error (.Err _) => lift none
  | .error fault => OptionT.mk (.error fault)

def readVarint (data : List UInt8) : OptionT Res (Nat × Nat) := okOrNone (readVarintU64 data)

-- `n + len as usize` beyond a u64 panics: the sum overflows, and where it
-- wraps the slice ends before it starts.
def readBytes (data : List UInt8) : OptionT Res (List UInt8 × Nat) := do
  let (len, n) ← readVarint data
  if 2 ^ 64 ≤ n + len then panicked
  else if data.length < n + len then failure
  else return ((data.drop n).take len, n + len)

def readParsed {α : Type} (parse : List UInt8 → OptionT Res α) (data : List UInt8) : OptionT Res (α × Nat) := do
  let (bytes, stop) ← readBytes data
  let a ← parse bytes
  return (a, stop)

def readString (data : List UInt8) : OptionT Res (String × Nat) :=
    readParsed (fun bytes => lift (fromUtf8 bytes)) data

def readRow (data : List UInt8) : OptionT Res (Row × Nat) :=
  readParsed (fun bytes => okOrNone (deserializeRow bytes)) data

-- `&data[off..]` panics past the end.
def sliceFrom (data : List UInt8) (off : Nat) : OptionT Res (List UInt8) :=
  if data.length < off then panicked else lift (some (data.drop off))

-- `off += n`
def advance (off n : Nat) : OptionT Res Nat := if 2 ^ 64 ≤ off + n then panicked else lift (some (off + n))

-- `let (a, n) = read(&data[off..])?; off += n;`
def readAt {α : Type} (read : List UInt8 → OptionT Res (α × Nat)) (data : List UInt8) (off : Nat) :
    OptionT Res (α × Nat) := do
  let rest ← sliceFrom data off
  let (a, n) ← read rest
  let off ← advance off n
  return (a, off)

namespace LogRecord

def serialize : LogRecord → List UInt8
  | Begin txid => 1 :: writeVarintU64 txid
  | Insert txid tableName rowid row =>
      2 :: (writeVarintU64 txid ++ (writeString tableName ++
        (writeVarintU64 (zigzagEncode rowid) ++ writeRow row)))
  | Update txid tableName rowid oldRow newRow =>
      3 :: (writeVarintU64 txid ++ (writeString tableName ++ (writeVarintU64 (zigzagEncode rowid) ++
        (writeRow oldRow ++ writeRow newRow))))
  | Delete txid tableName rowid row =>
      4 :: (writeVarintU64 txid ++ (writeString tableName ++ (writeVarintU64 (zigzagEncode rowid) ++
        match row with
        | some r => 1 :: writeRow r
        | none => [0])))
  | Prepare txid => 5 :: writeVarintU64 txid
  | Commit txid => 6 :: writeVarintU64 txid
  | Rollback txid => 7 :: writeVarintU64 txid
  | Sql sql userId raftIndex => 8 :: (writeVarintU64 raftIndex ++ (writeString sql ++ writeString userId))

-- The `match` of `deserialize` on the tag, with `off` behind the tag.
def deserializeBody (tag : UInt8) (data : List UInt8) (off : Nat) : OptionT Res (LogRecord × Nat) :=
  if tag = 1 then do
    let (txid, off) ← readAt readVarint data off
    return (Begin (UInt64.ofNat txid), off)
  else if tag = 2 then do
    let (txid, off) ← readAt readVarint data off
    let (tableName, off) ← readAt readString data off
    let (rowidEnc, off) ← readAt readVarint data off
    let (row, off) ← readAt readRow data off
    return (Insert (UInt64.ofNat txid) tableName (zigzagDecode (UInt64.ofNat rowidEnc)) row, off)
  else if tag = 3 then do
    let (txid, off) ← readAt readVarint data off
    let (tableName, off) ← readAt readString data off
    let (rowidEnc, off) ← readAt readVarint data off
    let (oldRow, off) ← readAt readRow data off
    let (newRow, off) ← readAt readRow data off
    return (Update (UInt64.ofNat txid) tableName (zigzagDecode (UInt64.ofNat rowidEnc)) oldRow newRow, off)
  else if tag = 4 then do
    let (txid, off) ← readAt readVarint data off
    let (tableName, off) ← readAt readString data off
    let (rowidEnc, off) ← readAt readVarint data off
    let hasRow ← lift data[off]?
    let off ← advance off 1
    if hasRow ≠ 0 then do
      let (row, off) ← readAt readRow data off
      return (Delete (UInt64.ofNat txid) tableName (zigzagDecode (UInt64.ofNat rowidEnc)) (some row), off)
    else return (Delete (UInt64.ofNat txid) tableName (zigzagDecode (UInt64.ofNat rowidEnc)) none, off)
  else if tag = 5 then do
    let (txid, off) ← readAt readVarint data off
    return (Prepare (UInt64.ofNat txid), off)
  else if tag = 6 then do
    let (txid, off) ← readAt readVarint data off
    return (Commit (UInt64.ofNat txid), off)
  else if tag = 7 then do
    let (txid, off) ← readAt readVarint data off
    return (Rollback (UInt64.ofNat txid), off)
  else if tag = 8 then do
    let (raftIndex, off) ← readAt readVarint data off
    let (sql, off) ← readAt readString data off
    let (userId, off) ← readAt readString data off
    return (Sql sql userId (UInt64.ofNat raftIndex), off)
  else failure

def deserialize (data : List UInt8) (pos : Nat) : OptionT Res (LogRecord × Nat) := do
  let tag ← lift data[pos]?
  let off ← advance pos 1
  deserializeBody tag data off

end LogRecord

-- What the log uses of the `crc32fast` crate.
class Crc32fast where
  hash : List UInt8 → UInt32

def frame [Crc32fast] (payload : List UInt8) : List UInt8 :=
  leBytes 4 payload.length ++ (leBytes 4 (Crc32fast.hash payload).toNat ++ payload)

-- The binlog file behind its `BufWriter`. Writing does not fail.
structure LogFile where
  content : List UInt8
  buffer : List UInt8

namespace LogFile

def CAPACITY : Nat := 64 * 1024

def flush (f : LogFile) : LogFile := { content := f.content ++ f.buffer, buffer := [] }

def writeAll (bytes : List UInt8) (f : LogFile) : LogFile :=
  if bytes.length < CAPACITY - f.buffer.length then { f with buffer := f.buffer ++ bytes }
  else
    let f := if CAPACITY - f.buffer.length < bytes.length then f.flush else f
    if CAPACITY ≤ bytes.length then { f with content := f.content ++ bytes }
    else { f with buffer := f.buffer ++ bytes }

end LogFile

structure BinlogManager where
  file : Option LogFile
  writePos : Nat
  memBuf : List UInt8

-- What the front of the bytes holds: a whole frame with the right checksum, and the bytes behind it.
def nextFrame [Crc32fast] (rest : List UInt8) : Option (List UInt8 × List UInt8) :=
  if rest.length < 8 then none
  else
    let recordLen := leNat (rest.take 4)
    let storedCrc := leNat ((rest.drop 4).take 4)
    let data := rest.drop 8
    if data.length < recordLen then none
    else if (Crc32fast.hash (data.take recordLen)).toNat ≠ storedCrc then none
    else some (data.take recordLen, data.drop recordLen)

-- The loop of `scan_frames`, which takes at least eight bytes in each turn.
def scanLoop [Crc32fast] : Nat → Nat → List UInt8 → List (Nat × List UInt8)
  | 0, _, _ => []
  | fuel + 1, pos, rest =>
      match nextFrame rest with
      | none => []
      | some (payload, rest') =>
          let next := pos + 8 + payload.length
          (next, rest.take (8 + payload.length)) :: scanLoop fuel next rest'

def scanFrames [Crc32fast] (content : List UInt8) (fromPos : Nat) : List (Nat × List UInt8) :=
  scanLoop content.length fromPos (content.drop fromPos)

-- The local variables of `recover`.
structure Recovery where
  prepared : Finset UInt64
  committed : Finset UInt64
  lastValid : Nat

def Recovery.note (r : Recovery) (record : LogRecord) (dataEnd : Nat) : Recovery :=
  match record with
  | .Prepare txid => { r with prepared := insert txid r.prepared, lastValid := dataEnd }
  | .Commit txid => { r with committed := insert txid r.committed, lastValid := dataEnd }
  | .Rollback txid => { r with committed := insert txid r.committed, lastValid := dataEnd }
  | _ => { r with lastValid := dataEnd }

-- The loop of `recover`. It stops at bytes that are no record.
def recoverLoop [Crc32fast] : Nat → Recovery → List UInt8 → Res Recovery
  | 0, r, _ => .ok r
  | fuel + 1, r, rest =>
      match nextFrame rest with
      | none => .ok r
      | some (payload, rest') =>
          match (LogRecord.deserialize payload 0).run with
          | .ok (some (record, _)) => recoverLoop fuel (r.note record (r.lastValid + 8 + payload.length)) rest'
          | .ok none => .ok r
          | .error fault => .error fault

namespace BinlogManager

-- The manager of the bytes that a file has on the disk.
def «open» (content : List UInt8) : BinlogManager where
  file := some { content := content, buffer := [] }
  writePos := content.length
  memBuf := []

def openMemory : BinlogManager where
  file := none
  writePos := 0
  memBuf := []

def append [Crc32fast] (record : LogRecord) (m : BinlogManager) : Nat × BinlogManager :=
  let payload := record.serialize
  let header := leBytes 4 payload.length ++ leBytes 4 (Crc32fast.hash payload).toNat
  let m' := match m.file with
    | some file => { m with file := some ((file.writeAll header).writeAll payload) }
    | none => { m with memBuf := m.memBuf ++ header ++ payload }
  (m.writePos, { m' with writePos := m.writePos + (8 + payload.length) })

def fsync (m : BinlogManager) : BinlogManager := { m with file := m.file.map LogFile.flush }

def readFrom [Crc32fast] (m : BinlogManager) (fromPos : Nat) : List (Nat × List UInt8) :=
  match m.file with
  | some file => scanFrames file.content fromPos
  | none => scanFrames m.memBuf fromPos

-- The set of the transactions that are prepared and not committed, and the manager. The file is cut by its
-- name, and the writer goes on at its new end.
def recover [Crc32fast] (m : BinlogManager) : Res (Finset UInt64 × BinlogManager) :=
  match m.file with
  | none => .ok (∅, m)
  | some file => do
      let content := file.flush.content
      let r ← recoverLoop content.length { prepared := ∅, committed := ∅, lastValid := 0 } content
      let content := if r.lastValid < content.length then content.take r.lastValid else content
      return (r.prepared \ r.committed,
        { m with file := some { content := content, buffer := [] }, writePos := r.lastValid })

end BinlogManager

end Kkdb.Binlog
