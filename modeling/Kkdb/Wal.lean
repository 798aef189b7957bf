import Kkdb.Superblock
import Mathlib.Data.List.AList

namespace Kkdb

open Lib

-- A database file as its page slots, numbered from 1. Bytes past the length
-- read as zero, so a write beyond the end leaves a zeroed gap.
structure DbFile where
  len : Nat
  slot : Nat → PageData

namespace DbFile

-- `read_exact` on a whole page; none is a short read.
def readPage (f : DbFile) (page : Nat) : Option PageData :=
  if page * PAGE_SIZE ≤ f.len then some (f.slot page) else none

def writePage (f : DbFile) (page : Nat) (data : PageData) : DbFile where
  len := max f.len (page * PAGE_SIZE)
  slot := Function.update f.slot page data

def setPages (f : DbFile) (count : Nat) : DbFile where
  len := count * PAGE_SIZE
  slot := fun page => if page ≤ count then f.slot page else Buf.zero

end DbFile

def WAL_MAGIC : List UInt8 := [0x57, 0x4C, 0x4F, 0x47]

def WAL_VERSION : Nat := 1

def WAL_HEADER_SIZE : Nat := 32

def WAL_FRAME_HEADER_SIZE : Nat := 24

def WAL_FRAME_SIZE : Nat := WAL_FRAME_HEADER_SIZE + PAGE_SIZE

structure WalHeader where
  version : Nat
  dbUuidPrefix : Buf 8
  pageSize : Nat
  salt1 : Nat
  salt2 : Nat

namespace WalHeader

-- The salts are the two halves of the clock's nanoseconds.
def new (dbUuid : Buf 16) (nanos : Nat) : WalHeader where
  version := WAL_VERSION
  dbUuidPrefix := Buf.ofList (dbUuid.slice 0 8)
  pageSize := PAGE_SIZE
  salt1 := nanos % 2 ^ 32
  salt2 := nanos / 2 ^ 32 % 2 ^ 32

def serialize (h : WalHeader) : List UInt8 :=
  WAL_MAGIC ++ (leBytes 4 h.version ++ (h.dbUuidPrefix.toList ++ (leBytes 4 h.pageSize ++
    (leBytes 4 h.salt1 ++ (leBytes 4 h.salt2 ++ leBytes 4 0)))))

def deserialize (buf : List UInt8) : Res WalHeader :=
  if buf.length < WAL_HEADER_SIZE then .error (corrupt "WAL header too short")
  else if buf.take 4 ≠ WAL_MAGIC then .error (corrupt "invalid WAL magic")
  else if leNat ((buf.drop 4).take 4) ≠ WAL_VERSION then
    .error (corrupt ("unsupported WAL version: " ++ toString (leNat ((buf.drop 4).take 4))))
  else .ok {
    version := leNat ((buf.drop 4).take 4)
    dbUuidPrefix := Buf.ofList ((buf.drop 8).take 8)
    pageSize := leNat ((buf.drop 16).take 4)
    salt1 := leNat ((buf.drop 20).take 4)
    salt2 := leNat ((buf.drop 24).take 4) }

end WalHeader

structure WalFrame where
  pageNum : Nat
  commitSize : Nat
  data : PageData

namespace WalFrame

def front (f : WalFrame) (salt1 salt2 : Nat) : List UInt8 :=
  leBytes 4 f.pageNum ++ (leBytes 4 f.commitSize ++ (leBytes 4 salt1 ++ leBytes 4 salt2))

def serialize (f : WalFrame) (salt1 salt2 : Nat) : List UInt8 :=
  f.front salt1 salt2 ++
    (leBytes 4 (checksum32 (f.front salt1 salt2 ++ f.data.toList)) ++ (leBytes 4 0 ++ f.data.toList))

def deserialize (buf : List UInt8) (salt1 salt2 : Nat) : Res WalFrame :=
  let data := (buf.drop WAL_FRAME_HEADER_SIZE).take PAGE_SIZE
  if buf.length < WAL_FRAME_SIZE then .error (corrupt "WAL frame too short")
  else if leNat ((buf.drop 8).take 4) ≠ salt1 ∨ leNat ((buf.drop 12).take 4) ≠ salt2 then
    .error (corrupt "WAL frame salt mismatch (stale WAL?)")
  else if leNat ((buf.drop 16).take 4) ≠ checksum32 (buf.take 16 ++ data) then
    .error (corrupt "WAL frame checksum mismatch")
  else .ok {
    pageNum := leNat (buf.take 4)
    commitSize := leNat ((buf.drop 4).take 4)
    data := Buf.ofList data }

end WalFrame

-- `page_map` is a hash map; its entries are kept in insertion order here and no
-- result depends on that order.
structure WalIndex where
  pageMap : AList (fun _ : Nat => Nat) := ∅
  totalFrames : Nat := 0
  committedFrames : Nat := 0
  dbPageCount : Nat := 0

structure SnapshotEntry where
  id : Nat
  visibleFrames : Nat

-- The WAL file is the list of its bytes; none is the in-memory mode.
structure Wal where
  file : Option (List UInt8)
  header : WalHeader
  index : WalIndex
  uncommitted : List WalFrame
  committedFrames : List WalFrame
  activeSnapshots : List SnapshotEntry
  nextSnapshotId : Nat

namespace Wal

def create (dbUuid : Buf 16) (nanos : Nat) : Wal where
  file := some (WalHeader.new dbUuid nanos).serialize
  header := WalHeader.new dbUuid nanos
  index := {}
  uncommitted := []
  committedFrames := []
  activeSnapshots := []
  nextSnapshotId := 1

-- The scan of `Wal::open`: the frames read so far, the page map of the frames
-- since the last commit frame, and the index as of that commit frame.
structure Scan where
  index : WalIndex
  frames : List WalFrame
  pending : AList (fun _ : Nat => Nat)
  frameIdx : Nat

def Scan.push (sc : Scan) (frame : WalFrame) : Scan :=
  let pending := sc.pending.insert frame.pageNum sc.frames.length
  let frames := sc.frames ++ [frame]
  if 0 < frame.commitSize then
    { index := { sc.index with
        pageMap := pending.entries.foldl (fun m e => m.insert e.1 e.2) sc.index.pageMap
        committedFrames := frames.length
        dbPageCount := frame.commitSize }
      frames := frames
      pending := ∅
      frameIdx := sc.frameIdx + 1 }
  else { sc with frames := frames, pending := pending, frameIdx := sc.frameIdx + 1 }

def scanFrames (salt1 salt2 : Nat) : Nat → List UInt8 → Scan → Scan
  | 0, _, sc => sc
  | fuel + 1, bytes, sc =>
      if bytes.length < WAL_FRAME_SIZE then sc
      else match WalFrame.deserialize (bytes.take WAL_FRAME_SIZE) salt1 salt2 with
        | .error _ => sc
        | .ok frame => scanFrames salt1 salt2 fuel (bytes.drop WAL_FRAME_SIZE) (sc.push frame)

def «open» (bytes : List UInt8) : Res Wal :=
  if bytes.length < WAL_HEADER_SIZE then .error (corrupt "WAL file too short")
  else match WalHeader.deserialize (bytes.take WAL_HEADER_SIZE) with
    | .error e => .error e
    | .ok header =>
        let sc := scanFrames header.salt1 header.salt2 bytes.length (bytes.drop WAL_HEADER_SIZE)
          { index := {}, frames := [], pending := ∅, frameIdx := 0 }
        .ok {
          file := some bytes
          header := header
          index := { sc.index with totalFrames := sc.frameIdx }
          uncommitted := []
          committedFrames := sc.frames.take sc.index.committedFrames
          activeSnapshots := []
          nextSnapshotId := 1 }

-- An absent file, or one too short for a header, is created anew.
def openOrCreate (existing : Option (List UInt8)) (dbUuid : Buf 16) (nanos : Nat) : Res Wal :=
  match existing with
  | some bytes =>
      if WAL_HEADER_SIZE ≤ bytes.length then Wal.open bytes else .ok (create dbUuid nanos)
  | none => .ok (create dbUuid nanos)

def writePage (w : Wal) (page : Nat) (data : PageData) : Wal :=
  { w with uncommitted := w.uncommitted ++ [{ pageNum := page, commitSize := 0, data := data }] }

def markCommit (frames : List WalFrame) (dbPageCount : Nat) : List WalFrame :=
  frames.modify (frames.length - 1) fun f => { f with commitSize := dbPageCount }

def writeAt (bytes : List UInt8) (off : Nat) (data : List UInt8) : List UInt8 :=
  (bytes ++ List.replicate (off - bytes.length) 0).take off ++ data ++ bytes.drop (off + data.length)

def commit (w : Wal) (dbPageCount : Nat) : Wal :=
  if w.uncommitted = [] then w
  else
    let frames := markCommit w.uncommitted dbPageCount
    let base := w.committedFrames.length
    { w with
      file := w.file.map fun bytes =>
        writeAt bytes (WAL_HEADER_SIZE + w.index.totalFrames * WAL_FRAME_SIZE)
          (frames.flatMap fun f => f.serialize w.header.salt1 w.header.salt2)
      committedFrames := w.committedFrames ++ frames
      uncommitted := []
      index := {
        pageMap := frames.zipIdx.foldl (fun m e => m.insert e.1.pageNum (base + e.2)) w.index.pageMap
        totalFrames := base + frames.length
        committedFrames := base + frames.length
        dbPageCount := dbPageCount } }

def rollback (w : Wal) : Wal := { w with uncommitted := [] }

-- The writer's own buffered frames first, newest first, then the index.
def readPage (w : Wal) (page : Nat) : Option PageData :=
  match w.uncommitted.reverse.find? (fun f => f.pageNum == page) with
  | some f => some f.data
  | none => (w.index.pageMap.lookup page).bind fun idx => (w.committedFrames[idx]?).map (·.data)

def safeCheckpointBoundary (w : Wal) : Nat :=
  match (w.activeSnapshots.map (·.visibleFrames)).min? with
  | none => w.committedFrames.length
  | some minVisible => if w.committedFrames.length ≤ minVisible then w.committedFrames.length else 0

-- The writes of one checkpoint: the page map's frames below the boundary.
def checkpointWrites (w : Wal) (boundary : Nat) : List (Nat × PageData) :=
  w.index.pageMap.entries.filterMap fun e =>
    if e.2 < boundary then (w.committedFrames[e.2]?).map fun f => (e.1, f.data) else none

def fullCheckpoint (w : Wal) (db : DbFile) (nanos : Nat) : Wal × DbFile × Nat :=
  let db := (w.checkpointWrites w.committedFrames.length).foldl (fun f e => f.writePage e.1 e.2) db
  let db := if 0 < w.index.dbPageCount then db.setPages w.index.dbPageCount else db
  let header := { w.header with salt1 := nanos % 2 ^ 32, salt2 := nanos / 2 ^ 32 % 2 ^ 32 }
  ({ w with
      committedFrames := []
      uncommitted := []
      index := {}
      header := header
      file := w.file.map fun bytes => (writeAt bytes 0 header.serialize).take WAL_HEADER_SIZE },
    db, w.committedFrames.length)

def partialCheckpoint (w : Wal) (db : DbFile) (boundary : Nat) : Wal × DbFile × Nat :=
  if boundary = 0 then (w, db, 0)
  else
    let db := (w.checkpointWrites boundary).foldl (fun f e => f.writePage e.1 e.2) db
    let frames := w.committedFrames.drop boundary
    ({ w with
        committedFrames := frames
        index := { w.index with
          pageMap := frames.zipIdx.foldl (fun m e => m.insert e.1.pageNum e.2) ∅
          committedFrames := frames.length
          totalFrames := frames.length }
        activeSnapshots := w.activeSnapshots.map fun s =>
          { s with visibleFrames := s.visibleFrames - boundary } },
      db, boundary)

def checkpoint (w : Wal) (db : DbFile) (nanos : Nat) : Wal × DbFile × Nat :=
  let boundary := w.safeCheckpointBoundary
  if boundary = 0 ∧ w.activeSnapshots ≠ [] then (w, db, 0)
  else if w.committedFrames.length ≤ boundary then w.fullCheckpoint db nanos
  else w.partialCheckpoint db boundary

end Wal

end Kkdb
