import Kkdb.Wal

namespace Kkdb

open Lib

-- The third-party LZ4 codec, as the two calls the pager makes of it.
class Lz4Flex where
  compressInto : List UInt8 → Option (List UInt8)
  decompressSizePrepended : List UInt8 → Option (List UInt8)

-- A codec that finds nothing to compress, so that every page is kept raw.
@[reducible] def Lz4Flex.incompressible : Lz4Flex where
  compressInto := fun _ => none
  decompressSizePrepended := fun _ => none

inductive PagerFailpoint where
  | AfterDataPagesWrite
  | AfterDataPagesSync
  | AfterSuperblockWrite
  | AfterSuperblockSync
  deriving DecidableEq, Repr

def PagerFailpoint.name : PagerFailpoint → String
  | .AfterDataPagesWrite => "AfterDataPagesWrite"
  | .AfterDataPagesSync => "AfterDataPagesSync"
  | .AfterSuperblockWrite => "AfterSuperblockWrite"
  | .AfterSuperblockSync => "AfterSuperblockSync"

inductive PagerFailAction where
  | Error
  | AbortProcess
  deriving DecidableEq, Repr

structure Page where
  data : PageData
  dirty : Bool
  snapshotted : Bool
  recentlyUsed : Bool

def Page.new : Page where
  data := Buf.zero
  dirty := false
  snapshotted := false
  recentlyUsed := false

-- The other header fields of the Rust struct are constants nothing reads.
structure DbHeader where
  totalPages : Nat

structure CowTxnState where
  txid : Nat
  baseGeneration : Nat
  targetGeneration : Nat
  freedRoot : Option Nat
  freedTail : Option Nat

structure CowPagerState where
  activeSuperblock : SuperblockV2
  activeSlot : SuperblockSlot
  nextTxid : Nat
  activeTx : Option CowTxnState

-- `original_pages` is a hash map from page numbers to images.
structure TxnSnapshot where
  header : DbHeader
  cowSuperblock : SuperblockV2
  cowSlot : SuperblockSlot
  originalPages : Nat → Option PageData
  originalTotalPages : Nat

structure SavepointMarker where
  name : String
  header : DbHeader
  cowSuperblock : SuperblockV2
  cowSlot : SuperblockSlot
  originalTotalPages : Nat
  watermarkKeys : Nat → Bool

-- `cow_state` is an option in the source that every constructor fills. The page
-- LSNs and the fsync switches are left out: no content depends on them.
structure Pager where
  file : Option DbFile
  header : DbHeader
  pages : List Page
  loaded : List Bool
  isMemory : Bool
  cow : CowPagerState
  failpoint : Option PagerFailpoint
  failAction : PagerFailAction
  txnSnapshot : Option TxnSnapshot
  savepointStack : List SavepointMarker
  maxBufferPages : Nat
  lruQueue : List Nat
  lruLoadedCount : Nat
  useLz4 : Bool
  dirtyPages : List Nat
  wal : Option Wal
  walAutoCheckpoint : Nat

-- A fallible call on the pager. The state reached so far survives an error.
abbrev PagerM := EStateM Fault Pager

namespace Pager

-- Page `p` sits at index `p - 1`.
def page (s : Pager) (p : Nat) : Page := s.pages.getD (p - 1) Page.new

def isLoaded (s : Pager) (p : Nat) : Bool := s.loaded.getD (p - 1) false

def setPage (s : Pager) (p : Nat) (pg : Page) : Pager := { s with pages := s.pages.set (p - 1) pg }

def setData (s : Pager) (p : Nat) (data : PageData) : Pager :=
  s.setPage p { s.page p with data := data }

section Disk

variable [Lz4Flex]

def compressForDisk (data : PageData) : PageData :=
  let raw : PageData := Buf.ofList (leBytes 2 0xFFFF ++ data.slice 0 (PAGE_SIZE - 2))
  match Lz4Flex.compressInto data.toList with
  | none => raw
  | some block =>
      if 4 + block.length < PAGE_SIZE - 2 then
        Buf.ofList (leBytes 2 (4 + block.length) ++ (leBytes 4 PAGE_SIZE ++ block))
      else raw

def decompressFromDisk (slot : PageData) : Res PageData :=
  let compLen := slot.u16 0
  if compLen = 0xFFFF then .ok (Buf.ofList (slot.slice 2 (PAGE_SIZE - 2)))
  else
    match Lz4Flex.decompressSizePrepended (slot.slice 2 (min (2 + compLen) PAGE_SIZE - 2)) with
    | none => .error (corrupt "LZ4 decompress failed")
    | some out =>
        if out.length = PAGE_SIZE then .ok (Buf.ofList out)
        else .error (corrupt ("LZ4 decompressed to " ++ toString out.length ++ " bytes, expected " ++
          toString PAGE_SIZE))

def encodeSlot (useLz4 : Bool) (data : PageData) : PageData :=
  if useLz4 then compressForDisk data else data

def decodeSlot (useLz4 : Bool) (p : Nat) (slot : PageData) : Res PageData :=
  if useLz4 ∧ 2 < p then decompressFromDisk slot else .ok slot

-- The data of page `p` after `load_page_from_disk`; without a file the slot in
-- memory stays as it is.
def loadPageFromDisk (s : Pager) (p : Nat) : Res PageData :=
  match s.file with
  | none => .ok (s.page p).data
  | some f =>
      match f.readPage p with
      | none => .error (corrupt ("short read for page " ++ toString p))
      | some slot => decodeSlot s.useLz4 p slot

end Disk

def clearUsed (s : Pager) (pn : Nat) : Pager :=
  s.setPage pn { s.page pn with recentlyUsed := false }

def evictPage (s : Pager) (pn : Nat) : Pager :=
  { s.setPage pn Page.new with
    loaded := s.loaded.set (pn - 1) false
    lruLoadedCount := s.lruLoadedCount - 1 }

-- One eviction sweep of the Clock algorithm. Every turn of the loop counts one
-- candidate, so the fuel is the loop's own bound on the candidates.
def evictLoop (target queueLen : Nat) : Nat → Nat → Nat → Pager → Pager
  | 0, _, _, s => s
  | fuel + 1, checked, passes, s =>
      if s.lruLoadedCount ≤ target then s
      else match s.lruQueue with
        | [] => s
        | pn :: rest =>
            if s.loaded.length < pn ∨ s.isLoaded pn = false then
              evictLoop target queueLen fuel (checked + 1) passes { s with lruQueue := rest }
            else if (s.page pn).dirty then
              evictLoop target queueLen fuel (checked + 1) passes
                { s with lruQueue := rest ++ [pn] }
            else if (s.page pn).recentlyUsed then
              if 0 < queueLen ∧ (checked + 1) % queueLen = 0 then
                if 2 ≤ passes + 1 then { s.clearUsed pn with lruQueue := rest ++ [pn] }
                else evictLoop target queueLen fuel (checked + 1) (passes + 1)
                  { s.clearUsed pn with lruQueue := rest ++ [pn] }
              else evictLoop target queueLen fuel (checked + 1) passes
                { s.clearUsed pn with lruQueue := rest ++ [pn] }
            else
              evictLoop target queueLen fuel (checked + 1) passes
                { s.evictPage pn with lruQueue := rest }

def evictLruIfNeeded (s : Pager) : Pager :=
  if s.maxBufferPages = 0 ∨ s.lruLoadedCount ≤ s.maxBufferPages then s
  else evictLoop s.maxBufferPages s.lruQueue.length (s.lruQueue.length * 2) 0 0 s

def install (s : Pager) (p : Nat) (data : PageData) : Pager :=
  { s.setData p data with
    loaded := s.loaded.set (p - 1) true
    lruLoadedCount := s.lruLoadedCount + 1
    lruQueue := s.lruQueue ++ [p] }

def touch (s : Pager) (p : Nat) : Pager :=
  if 0 < s.maxBufferPages then s.setPage p { s.page p with recentlyUsed := true } else s

-- The copy-on-write part of `get_page_mut`: save the original image on the first
-- write of the transaction, then mark the page dirty.
def snapshotPage (s : Pager) (p : Nat) : Pager :=
  match s.txnSnapshot with
  | none => s
  | some snap =>
      if (s.page p).snapshotted then s
      else { s.setPage p { s.page p with snapshotted := true } with
        txnSnapshot := some { snap with
          originalPages := Function.update snap.originalPages p (some (s.page p).data) } }

def markDirty (s : Pager) (p : Nat) : Pager :=
  { s.setPage p { s.page p with dirty := true } with
    dirtyPages := if (s.page p).dirty then s.dirtyPages else s.dirtyPages ++ [p] }

def readWal (s : Pager) (p : Nat) : Option PageData := s.wal.bind fun w => w.readPage p

-- An empty free list is refilled from the pending list.
def rotateFree (s : Pager) : Pager :=
  let sb := s.cow.activeSuperblock
  if sb.freeRoot = 0 ∧ sb.pendingFreeRoot ≠ 0 then
    { s with cow := { s.cow with
      activeSuperblock := { sb with freeRoot := sb.pendingFreeRoot, pendingFreeRoot := 0 } } }
  else s

def setFreeRoot (next : Nat) (s : Pager) : Pager :=
  { s with cow := { s.cow with
    activeSuperblock := { s.cow.activeSuperblock with freeRoot := next } } }

def setPendingFreeRoot (root : Nat) (s : Pager) : Pager :=
  { s with cow := { s.cow with
    activeSuperblock := { s.cow.activeSuperblock with pendingFreeRoot := root } } }

def setActiveTx (tx : Option CowTxnState) (s : Pager) : Pager :=
  { s with cow := { s.cow with activeTx := tx } }

def grow (s : Pager) : Pager :=
  { s with
    header := { totalPages := s.header.totalPages + 1 }
    pages := s.pages ++ [Page.new]
    loaded := s.loaded ++ [true] }

section Access

variable [Lz4Flex]

def getPage (p : Nat) : PagerM Page := fun s =>
  if p = 0 ∨ s.header.totalPages < p then .error (.Err (.PageOutOfRange p)) s
  else if s.loaded.length < p then .error .Panic s
  else if s.isLoaded p then .ok ((s.touch p).page p) (s.touch p)
  else match s.readWal p with
    | some data =>
        let s' := (s.evictLruIfNeeded.install p data).touch p
        .ok (s'.page p) s'
    | none =>
        match s.evictLruIfNeeded.loadPageFromDisk p with
        | .error e => .error e s.evictLruIfNeeded
        | .ok data =>
            let s' := (s.evictLruIfNeeded.install p data).touch p
            .ok (s'.page p) s'

-- The load path of `get_page_mut` does not look into the WAL.
def getPageMut (p : Nat) : PagerM Page := fun s =>
  if p = 0 ∨ s.header.totalPages < p then .error (.Err (.PageOutOfRange p)) s
  else if s.loaded.length < p then .error .Panic s
  else if s.isLoaded p then
    let s' := ((s.touch p).snapshotPage p).markDirty p
    .ok (s'.page p) s'
  else match s.evictLruIfNeeded.loadPageFromDisk p with
    | .error e => .error e s.evictLruIfNeeded
    | .ok data =>
        let s' := (((s.evictLruIfNeeded.install p data).touch p).snapshotPage p).markDirty p
        .ok (s'.page p) s'

-- A caller's use of `get_page_mut`: compute new data from the page and store it.
-- No caller changes the data before a step that can still fail.
def modifyPage {α : Type} (p : Nat) (f : PageData → Res (α × PageData)) : PagerM α := do
  let pg ← getPageMut p
  match f pg.data with
  | .error e => throw e
  | .ok (a, data) =>
      modify fun s => s.setData p data
      return a

def writePage (p : Nat) (f : PageData → PageData) : PagerM Unit :=
  modifyPage p fun data => .ok ((), f data)

def popFree (pageNum : Nat) : PagerM Nat := do
  let currentFree ← getPage pageNum
  modify (setFreeRoot (currentFree.data.u32 0))
  writePage pageNum fun _ => Buf.zero
  return pageNum

def allocatePage : PagerM Nat := do
  if MAX_PAGES ≤ (← get).header.totalPages then throw (.Err .DatabaseFull)
  modify rotateFree
  let s ← get
  if s.cow.activeSuperblock.freeRoot ≠ 0 then popFree s.cow.activeSuperblock.freeRoot
  else
    modify grow
    return s.header.totalPages + 1

def setLink (next : Nat) (data : PageData) : PageData := data.write 0 (leBytes 4 next)

-- Put a zeroed page on the transaction's freed list or, without a transaction,
-- on the pending list.
def linkFreed (p : Nat) : PagerM Unit := do
  let s ← get
  match s.cow.activeTx with
  | some tx =>
      match tx.freedTail with
      | some tail =>
          modify (setActiveTx (some { tx with freedTail := some p }))
          writePage tail (setLink p)
      | none => modify (setActiveTx (some { tx with freedRoot := some p, freedTail := some p }))
  | none =>
      modify (setPendingFreeRoot p)
      writePage p (setLink s.cow.activeSuperblock.pendingFreeRoot)

def freePage (p : Nat) : PagerM Unit := do
  let s ← get
  if p = 0 ∨ s.header.totalPages < p then throw (.Err (.PageOutOfRange p))
  writePage p fun _ => Buf.zero
  linkFreed p

end Access

def inTransaction (s : Pager) : Bool := s.cow.activeTx.isSome

def startTransaction (s : Pager) : Pager :=
  { s with
    txnSnapshot := some {
      header := s.header
      cowSuperblock := s.cow.activeSuperblock
      cowSlot := s.cow.activeSlot
      originalPages := fun _ => none
      originalTotalPages := s.header.totalPages }
    cow := { s.cow with
      nextTxid := saturatingSucc s.cow.nextTxid
      activeTx := some {
        txid := s.cow.nextTxid
        baseGeneration := s.cow.activeSuperblock.generation
        targetGeneration := saturatingSucc s.cow.activeSuperblock.generation
        freedRoot := none
        freedTail := none } } }

def beginTransaction : PagerM Unit := do
  if (← get).inTransaction then throw (.Err (.RuntimeError "transaction already active"))
  modify startTransaction

def restorePages (pages : List Page) (images : Nat → Option PageData) : List Page :=
  pages.mapIdx fun i pg =>
    match images (i + 1) with
    | some data => { pg with data := data, dirty := false, snapshotted := false }
    | none => pg

def restoreSnapshot (snap : TxnSnapshot) (s : Pager) : Pager :=
  { s with
    txnSnapshot := none
    header := snap.header
    cow := { s.cow with
      activeSuperblock := snap.cowSuperblock
      activeSlot := snap.cowSlot
      activeTx := none }
    pages := (restorePages s.pages snap.originalPages).take snap.originalTotalPages
    loaded := s.loaded.take snap.originalTotalPages
    dirtyPages := [] }

def rollbackTransaction : PagerM Unit := do
  modify fun s => { s with savepointStack := [], wal := s.wal.map Wal.rollback }
  match (← get).txnSnapshot with
  | some snap => modify (restoreSnapshot snap)
  | none => modify (setActiveTx none)

def eqIgnoreAsciiCase (a b : String) : Bool :=
  a.toList.map Char.toLower == b.toList.map Char.toLower

-- The watermark is the set of pages that have an image by now.
def savepointMarker (name : String) (s : Pager) : SavepointMarker where
  name := name
  header := s.header
  cowSuperblock := s.cow.activeSuperblock
  cowSlot := s.cow.activeSlot
  originalTotalPages := s.header.totalPages
  watermarkKeys := fun p => match s.txnSnapshot with
    | some snap => (snap.originalPages p).isSome
    | none => false

-- An older marker with the same name is dropped.
def pushSavepoint (name : String) (s : Pager) : Pager :=
  { s with
    savepointStack := s.savepointStack.filter (fun m => !eqIgnoreAsciiCase m.name name) ++
      [s.savepointMarker name] }

def savepoint (name : String) : PagerM Unit := do
  if (← get).inTransaction = false then beginTransaction
  modify (pushSavepoint name)

-- `rposition`: the last marker with the name.
def savepointPos (s : Pager) (name : String) : Option Nat :=
  (s.savepointStack.reverse.findIdx? fun m => eqIgnoreAsciiCase m.name name).map
    fun i => s.savepointStack.length - 1 - i

def savepointNotFound (name : String) : Fault :=
  .Err (.RuntimeError ("savepoint '" ++ name ++ "' not found"))

def releaseSavepoint (name : String) : PagerM Unit := do
  match (← get).savepointPos name with
  | none => throw (savepointNotFound name)
  | some pos => modify fun s => { s with savepointStack := s.savepointStack.take pos }

-- The state change of `rollback_to_savepoint` once the marker is known. The
-- transaction's list of freed pages is not part of it.
def restoreMarker (marker : SavepointMarker) (s : Pager) : Pager :=
  let images := fun p => match s.txnSnapshot with
    | some snap => if marker.watermarkKeys p then none else snap.originalPages p
    | none => none
  let pages := (restorePages s.pages images).take marker.originalTotalPages
  { s with
    header := marker.header
    cow := { s.cow with activeSuperblock := marker.cowSuperblock, activeSlot := marker.cowSlot }
    txnSnapshot := s.txnSnapshot.map fun snap => { snap with
      originalPages := fun p => if marker.watermarkKeys p then snap.originalPages p else none
      header := marker.header
      cowSuperblock := marker.cowSuperblock
      cowSlot := marker.cowSlot
      originalTotalPages := marker.originalTotalPages }
    pages := pages
    loaded := s.loaded.take marker.originalTotalPages
    dirtyPages := s.dirtyPages.filter fun p => (pages.getD (p - 1) Page.new).dirty }

def rollbackToSavepoint (name : String) : PagerM Unit := do
  let s ← get
  match s.savepointPos name with
  | none => throw (savepointNotFound name)
  | some pos =>
      match s.savepointStack[pos]? with
      | none => throw .Panic
      | some marker =>
          modify fun s => restoreMarker marker
            { s with savepointStack := s.savepointStack.take (pos + 1) }

section Commit

variable [Lz4Flex]

-- A page goes to the WAL when there is one, else to its slot in the file.
def storePage (s : Pager) (p : Nat) : Pager :=
  match s.wal with
  | some w => { s with wal := some (w.writePage p (s.page p).data) }
  | none => { s with
      file := s.file.map fun f => DbFile.writePage f p (encodeSlot s.useLz4 (s.page p).data) }

-- One turn of the loop of `write_v2_data_pages`.
def writeDirtyPage (s : Pager) (p : Nat) : Pager :=
  if s.pages.length < p then s
  else if (s.page p).dirty = false then s
  else (s.storePage p).setPage p { s.page p with dirty := false }

-- The loop's own check on pages 1 and 2 cannot fail after the check up front.
def writeV2DataPages : PagerM Unit := fun s =>
  if (s.page 1).dirty ∨ (s.page 2).dirty then
    .error (.Err (.RuntimeError "format v2 reserves page 1/2 for superblocks")) s
  else .ok () (s.dirtyPages.foldl writeDirtyPage { s with dirtyPages := [] })

def walCommit (s : Pager) : Pager :=
  { s with wal := s.wal.map fun w => w.commit s.header.totalPages }

def maybeFailpoint (fp : PagerFailpoint) : PagerM Unit := do
  let s ← get
  if s.failpoint = some fp then
    match s.failAction with
    | .Error => throw (.Err (.RuntimeError ("injected pager failpoint: " ++ fp.name)))
    | .AbortProcess => throw .Abort

def writeV2Superblock (slot : SuperblockSlot) (sb : SuperblockV2) (s : Pager) : Pager :=
  match s.file with
  | some f => { s with file := some (f.writePage slot.pageNum sb.serialize) }
  | none => s.setPage slot.pageNum
      { s.page slot.pageNum with data := sb.serialize, dirty := false }

-- The disk part that commits and flushes share: data pages, WAL commit, then the
-- superblock in the inactive slot, with the failpoints between.
def persist (slot : SuperblockSlot) (sb : SuperblockV2) : PagerM Unit := do
  writeV2DataPages
  modify walCommit
  maybeFailpoint .AfterDataPagesWrite
  maybeFailpoint .AfterDataPagesSync
  modify (writeV2Superblock slot sb)
  maybeFailpoint .AfterSuperblockWrite
  maybeFailpoint .AfterSuperblockSync
  modify fun s => { s with cow := { s.cow with activeSuperblock := sb, activeSlot := slot } }

-- Put the transaction's freed list in front of the pending list.
def linkFreedPages : PagerM Unit := do
  let s ← get
  match s.cow.activeTx.bind (·.freedRoot), s.cow.activeTx.bind (·.freedTail) with
  | some root, some tail =>
      modify (setPendingFreeRoot root)
      writePage tail (setLink s.cow.activeSuperblock.pendingFreeRoot)
  | _, _ => return ()

-- End the transaction; the savepoint stack is left as it is.
def endTransaction (s : Pager) : Pager :=
  { s with
    cow := { s.cow with activeTx := none }
    txnSnapshot := none
    pages := match s.txnSnapshot with
      | some snap => s.pages.mapIdx fun i pg =>
          if (snap.originalPages (i + 1)).isSome then { pg with snapshotted := false } else pg
      | none => s.pages }

def commitTransactionV2 : PagerM Unit := do
  let s ← get
  match s.cow.activeTx with
  | none => throw (.Err (.RuntimeError "transaction not active"))
  | some tx =>
      if tx.baseGeneration ≠ s.cow.activeSuperblock.generation then
        throw (.Err (.RuntimeError ("stale v2 transaction state for txid " ++ toString tx.txid)))
      persist s.cow.activeSlot.inactive { s.cow.activeSuperblock with
        generation := tx.targetGeneration, pageCount := s.header.totalPages }
      linkFreedPages
      modify rotateFree
      modify endTransaction

def commitTransaction : PagerM Unit := do
  if (← get).inTransaction then commitTransactionV2

def runCheckpoint (nanos : Nat) (s : Pager) : Pager :=
  match s.wal, s.file with
  | some w, some f =>
      let r := w.checkpoint f nanos
      { s with wal := some r.1, file := some r.2.1 }
  | _, _ => s

def flushV2Autocommit (nanos : Nat) : PagerM Unit := do
  let s ← get
  persist s.cow.activeSlot.inactive { s.cow.activeSuperblock with
    generation := saturatingSucc s.cow.activeSuperblock.generation
    pageCount := s.header.totalPages }
  modify rotateFree
  modify fun s => { s with cow := { s.cow with nextTxid := saturatingSucc s.cow.nextTxid } }
  modify fun s =>
    match s.wal with
    | some w =>
        if 0 < s.walAutoCheckpoint ∧ s.walAutoCheckpoint ≤ w.committedFrames.length then
          runCheckpoint nanos s
        else s
    | none => s

def flush (nanos : Nat) : PagerM Unit := do
  if (← get).inTransaction then writeV2DataPages else flushV2Autocommit nanos

end Commit

def superblockFitsFile (sb : SuperblockV2) (fileLen : Nat) : Bool :=
  3 ≤ sb.pageCount ∧ sb.pageCount * PAGE_SIZE ≤ fileLen

def readSuperblockV2 (f : DbFile) (p : Nat) : Res SuperblockV2 :=
  match f.readPage p with
  | none => .error (corrupt ("short read for superblock " ++ toString p))
  | some data => SuperblockV2.deserialize data

def chooseOpenableSuperblockV2 (left right : Res SuperblockV2) (fileLen : Nat) :
    Res (SuperblockV2 × SuperblockSlot) :=
  match left, right with
  | .ok a, .ok b =>
      if a.dbUuid.toList ≠ b.dbUuid.toList then
        .error (corrupt "superblock UUID mismatch across slots")
      else match superblockFitsFile a fileLen, superblockFitsFile b fileLen with
        | true, true => if a.generation < b.generation then .ok (b, .B) else .ok (a, .A)
        | true, false => .ok (a, .A)
        | false, true => .ok (b, .B)
        | false, false =>
            .error (corrupt ("no openable superblock slot for file len " ++ toString fileLen))
  | .ok a, .error _ =>
      if superblockFitsFile a fileLen then .ok (a, .A)
      else .error (corrupt ("superblock A does not fit file len " ++ toString fileLen))
  | .error _, .ok b =>
      if superblockFitsFile b fileLen then .ok (b, .B)
      else .error (corrupt ("superblock B does not fit file len " ++ toString fileLen))
  | .error _, .error _ => .error (corrupt "both superblock slots are invalid")

-- A pager on a file, as `open_cow_v2` builds it from the chosen superblock.
def fromSuperblock (f : DbFile) (sb : SuperblockV2) (slot : SuperblockSlot) : Pager where
  file := some f
  header := { totalPages := sb.pageCount }
  pages := List.replicate sb.pageCount Page.new
  loaded := List.replicate sb.pageCount false
  isMemory := false
  cow := {
    activeSuperblock := sb
    activeSlot := slot
    nextTxid := saturatingSucc sb.generation
    activeTx := none }
  failpoint := none
  failAction := .Error
  txnSnapshot := none
  savepointStack := []
  maxBufferPages := 256
  lruQueue := []
  lruLoadedCount := 0
  useLz4 := sb.flags % 2 = 1
  dirtyPages := []
  wal := none
  walAutoCheckpoint := 1000

def openCowV2 (f : DbFile) : Res Pager :=
  if f.len < PAGE_SIZE * 2 then .error (corrupt "format v2 file is too small")
  else if (f.slot 1).slice 0 16 ≠ COW_MAGIC then .error (corrupt "database is not format v2")
  else match chooseOpenableSuperblockV2 (readSuperblockV2 f 1) (readSuperblockV2 f 2) f.len with
    | .error e => .error e
    | .ok (sb, slot) => .ok (fromSuperblock f sb slot)

def initLeafTablePage (data : PageData) : PageData :=
  ((data.write 0 [0x0D]).write 1 (leBytes 2 0)).write 3 (leBytes 2 pageSizeToU16) |>.write 5 [0]

-- The file that `create_cow_v2` writes: both superblocks and the schema page.
def createdFile (dbUuid : Buf 16) : DbFile :=
  let sbA := { SuperblockV2.new dbUuid with pageCount := 3 }
  let sbB := { sbA with generation := 0 }
  (({ len := 0, slot := fun _ => Buf.zero : DbFile }.writePage 1 sbA.serialize).writePage 2
    sbB.serialize).writePage 3 (initLeafTablePage Buf.zero)

def createCowV2 (dbUuid : Buf 16) : Res Pager := openCowV2 (createdFile dbUuid)

def openMemory (dbUuid : Buf 16) : Pager :=
  let sbA := { SuperblockV2.new dbUuid with pageCount := 3 }
  let sbB := { sbA with generation := 0 }
  { file := none
    header := { totalPages := 3 }
    pages := [{ Page.new with data := sbA.serialize }, { Page.new with data := sbB.serialize },
      { Page.new with data := initLeafTablePage Buf.zero }]
    loaded := [true, true, true]
    isMemory := true
    cow := {
      activeSuperblock := sbA
      activeSlot := .A
      nextTxid := 2
      activeTx := none }
    failpoint := none
    failAction := .Error
    txnSnapshot := none
    savepointStack := []
    maxBufferPages := 0
    lruQueue := []
    lruLoadedCount := 0
    useLz4 := false
    dirtyPages := []
    wal := none
    walAutoCheckpoint := 1000 }

def setMaxBufferPages (max : Nat) (s : Pager) : Pager := { s with maxBufferPages := max }

def setFailpoint (fp : Option PagerFailpoint) (s : Pager) : Pager := { s with failpoint := fp }

-- `existing` is the WAL file found next to the database file, if there is one.
def enableWal (existing : Option (List UInt8)) (nanos : Nat) : PagerM Unit := fun s =>
  if s.isMemory ∨ s.wal.isSome then .ok () s
  else match Wal.openOrCreate existing s.cow.activeSuperblock.dbUuid nanos with
    | .error e => .error e s
    | .ok w => .ok () { s with wal := some w }

def walCheckpoint (nanos : Nat) : PagerM Nat := fun s =>
  match s.wal, s.file with
  | some w, some f => .ok (w.checkpoint f nanos).2.2 (s.runCheckpoint nanos)
  | _, _ => .ok 0 s

end Pager

end Kkdb
