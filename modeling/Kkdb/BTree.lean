import Kkdb.Pager
import Kkdb.Types.Row
import Kkdb.Lib.Bisect
import Kkdb.Lib.Slotted
import Kkdb.Lib.State

namespace Kkdb

open Lib

namespace BTree

def LEAF_TABLE : UInt8 := 0x0D

def INTERIOR_TABLE : UInt8 := 0x05

def OVERFLOW_DATA_SIZE : Nat := PAGE_SIZE - 4

def MAX_INLINE_PAYLOAD : Nat := PAGE_SIZE / 2 - 32

def OVERFLOW_FLAG : Nat := 0x80000000

def LEAF_HEADER_SIZE : Nat := 14

def INTERIOR_HEADER_SIZE : Nat := 10

def MAX_INTERIOR_CHILDREN : Nat := (PAGE_SIZE - INTERIOR_HEADER_SIZE) / 14 + 2

def U32_MAX : Nat := 4294967295

def ISIZE_MAX : Nat := 9223372036854775807

-- The bytes of a `Row`, which is a vector, on a 64-bit machine.
def ROW_SIZE : Nat := 24

-- The eight bytes of an `i64` and back.
def rowidBytes (rowid : Int64) : List UInt8 := leBytes 8 rowid.toUInt64.toNat

def rowidOf (bytes : List UInt8) : Int64 := (UInt64.ofNat (leNat bytes)).toInt64

section Fields

-- A slice of the page that reaches beyond its end panics.
def readU16 (data : PageData) (off : Nat) : Res Nat :=
  if off + 2 ≤ PAGE_SIZE then .ok (data.u16 off) else .error .Panic

def readU32 (data : PageData) (off : Nat) : Res Nat :=
  if off + 4 ≤ PAGE_SIZE then .ok (data.u32 off) else .error .Panic

def readRowid (data : PageData) (off : Nat) : Res Int64 :=
  if off + 8 ≤ PAGE_SIZE then .ok (rowidOf (data.slice off 8)) else .error .Panic

def pageType (data : PageData) : UInt8 := data.byte 0

def cellCount (data : PageData) : Nat := data.u16 1

def cellContentOffset (data : PageData) : Nat := u16ToPageSize (data.u16 3)

def nextLeaf (data : PageData) : Nat := data.u32 6

def rightChild (data : PageData) : Nat := data.u32 6

def prevLeaf (data : PageData) : Nat := data.u32 10

def validateCellOffset (cellOffset needed : Nat) : Res Unit :=
  if PAGE_SIZE < cellOffset + needed then
    .error (corrupt ("cell offset " ++ toString cellOffset ++ " + " ++ toString needed ++
      " exceeds page size " ++ toString PAGE_SIZE))
  else .ok ()

-- What the readers of a page that check their offsets do before they read a cell, and the
-- others do not.
def cellOffset (hdr : Nat) (validate : Option Nat) (data : PageData) (i : Nat) : Res Nat := do
  let off ← readU16 data (hdr + 2 * i)
  match validate with
  | some needed => validateCellOffset off needed
  | none => pure ()
  return off

def invalidPageType (text : String) (ty : UInt8) : Fault :=
  .Err (.BTreeError (text ++ " page type: " ++ hexByte ty))

end Fields

def ofRes {α : Type} : Res α → PagerM α
  | .ok a => pure a
  | .error e => throw e

section Pages

variable [Lz4Flex]

def writeHeader (ty : UInt8) (ext : Nat) (data : PageData) : PageData :=
  let data := (((data.write 0 [ty]).write 1 (leBytes 2 0)).write 3 (leBytes 2 pageSizeToU16)).write 5 [0]
  let data := data.write 6 (leBytes 4 ext)
  if ty = LEAF_TABLE then data.write 10 (leBytes 4 0) else data

def writePageHeader (page : Nat) (ty : UInt8) (ext : Nat) : PagerM Unit :=
  Pager.writePage page (writeHeader ty ext)

def getNextLeaf (page : Nat) : PagerM Nat := do
  let pg ← Pager.getPage page
  return nextLeaf pg.data

def setNextLeaf (page next : Nat) : PagerM Unit :=
  Pager.writePage page fun data => data.write 6 (leBytes 4 next)

def getPrevLeaf (page : Nat) : PagerM Nat := do
  let pg ← Pager.getPage page
  return prevLeaf pg.data

def setPrevLeaf (page prev : Nat) : PagerM Unit :=
  Pager.writePage page fun data => data.write 10 (leBytes 4 prev)

def initLeafPage (page : Nat) : PagerM Unit := writePageHeader page LEAF_TABLE 0

def initInteriorPage (page rightChild : Nat) : PagerM Unit :=
  writePageHeader page INTERIOR_TABLE rightChild

def createTable : PagerM Nat := do
  let page ← Pager.allocatePage
  initLeafPage page
  return page

-- The `chunks` of a payload: all but the last are full. The length of the payload is more than
-- their number.
def chunksFrom : Nat → List UInt8 → List (List UInt8)
  | 0, _ => []
  | _ + 1, [] => []
  | fuel + 1, b :: bytes =>
      (b :: bytes).take OVERFLOW_DATA_SIZE :: chunksFrom fuel ((b :: bytes).drop OVERFLOW_DATA_SIZE)

def chunks (payload : List UInt8) : List (List UInt8) := chunksFrom payload.length payload

-- The bytes behind the last chunk are cleared.
def fillOverflow (next : Nat) (chunk : List UInt8) (data : PageData) : PageData :=
  let data := (data.write 0 (leBytes 4 next)).write 4 chunk
  if next = 0 ∧ chunk.length < OVERFLOW_DATA_SIZE then
    data.write (4 + chunk.length) (List.replicate (PAGE_SIZE - (4 + chunk.length)) 0)
  else data

-- The loop of `write_overflow_chain`: the next page is allocated before this one is filled.
def writeChunks : List (List UInt8) → Nat → PagerM Unit
  | [], _ => return ()
  | [chunk], page => Pager.writePage page (fillOverflow 0 chunk)
  | chunk :: chunk' :: rest, page => do
      let next ← Pager.allocatePage
      Pager.writePage page (fillOverflow next chunk)
      writeChunks (chunk' :: rest) next

def writeOverflowChain (payload : List UInt8) : PagerM Nat := do
  let first ← Pager.allocatePage
  writeChunks (chunks payload) first
  return first

-- The loop of `read_cell_payload`. Every turn reads at least one of the missing bytes, so
-- their number is enough fuel.
def readChain (total : Nat) : Nat → Nat → List UInt8 → PagerM (List UInt8)
  | 0, _, acc => return acc
  | fuel + 1, page, acc =>
      if page = 0 ∨ total ≤ acc.length then return acc
      else do
        let pg ← Pager.getPage page
        readChain total fuel (pg.data.u32 0)
          (acc ++ pg.data.slice 4 (min (total - acc.length) OVERFLOW_DATA_SIZE))

def readCellPayload (rawSize start : Nat) (data : PageData) : PagerM (List UInt8) :=
  if rawSize < OVERFLOW_FLAG then
    if PAGE_SIZE < start + rawSize then
      throw (corrupt ("inline payload extends beyond page boundary: offset " ++ toString start ++
        " + len " ++ toString rawSize ++ " > page_size " ++ toString PAGE_SIZE))
    else return data.slice start rawSize
  else if PAGE_SIZE < start + 8 then
    throw (corrupt "overflow header extends beyond page boundary")
  else if PAGE_SIZE < start + 8 + (rawSize - OVERFLOW_FLAG) then
    throw (corrupt "overflow inline bytes extend beyond page boundary")
  else
    readChain (data.u32 start) (data.u32 start) (data.u32 (start + 4))
      (data.slice (start + 8) (rawSize - OVERFLOW_FLAG))

def freeChain : Nat → Nat → PagerM Unit
  | 0, _ => throw .Hang
  | fuel + 1, page =>
      if page = 0 then return ()
      else do
        let pg ← Pager.getPage page
        Pager.freePage page
        freeChain fuel (pg.data.u32 0)

-- The links are followed while the pages are freed, which turns some of them around, so a walk
-- that ends may pass a page more than once.
def freeOverflowChain (first : Nat) : PagerM Unit := do
  let s ← get
  freeChain ((s.header.totalPages + 1) * (s.header.totalPages + 1)) first

inductive InsertResult where
  | Done
  | Split (dividerKey : Int64) (newPage : Nat)
  deriving DecidableEq, Repr

def makeLeafCell (rowid : Int64) (payload : List UInt8) : List UInt8 :=
  leBytes 4 payload.length ++ (rowidBytes rowid ++ payload)

def makeOverflowCell (rowid : Int64) (totalPayloadLen overflowFirstPage : Nat) : List UInt8 :=
  leBytes 4 OVERFLOW_FLAG ++ (rowidBytes rowid ++ (leBytes 4 totalPayloadLen ++
    leBytes 4 overflowFirstPage))

def makeInteriorCell (leftChild : Nat) (key : Int64) : List UInt8 :=
  leBytes 4 leftChild ++ rowidBytes key

def probeRowid (validate : Option Nat) (data : PageData) (rowid : Int64) (i : Nat) : Res Ordering := do
  let off ← cellOffset LEAF_HEADER_SIZE validate data i
  let mid ← readRowid data (off + 4)
  return if mid = rowid then .eq else if mid < rowid then .lt else .gt

def probeKey (validate : Option Nat) (data : PageData) (rowid : Int64) (i : Nat) : Res Ordering := do
  let off ← cellOffset INTERIOR_HEADER_SIZE validate data i
  let key ← readRowid data (off + 4)
  return if rowid < key then .gt else .lt

def leafInsertIndex (data : PageData) (rowid : Int64) : Res Nat :=
  match bisect (probeRowid none data rowid) (cellCount data) 0 (cellCount data) with
  | .error e => .error e
  | .ok (true, _) =>
      .error (.Err (.ConstraintViolation ("UNIQUE constraint failed: rowid " ++ toString rowid)))
  | .ok (false, idx) => .ok idx

-- Write a cell below the others, move the pointers behind its place up and update the header.
-- The slices panic where the cell or the pointer array would leave the page.
def placeCell (kind : String) (hdr : Nat) (cell : List UInt8) (idx : Nat) (data : PageData) :
    Res PageData :=
  if cellContentOffset data < cell.length then
    .error (corrupt (kind ++ " page overflow: cell_content_offset < cell size"))
  else if PAGE_SIZE < cellContentOffset data ∨ PAGE_SIZE < hdr + 2 * (cellCount data + 1) then
    .error .Panic
  else
    let new := cellContentOffset data - cell.length
    .ok (((putCell hdr data (cellCount data) idx new cell).write 1
      (leBytes 2 (cellCount data + 1))).write 3 (leBytes 2 new))

-- The three writers of a leaf cell do the same with cells built differently.
def insertCellIntoLeaf (page : Nat) (rowid : Int64) (cell : List UInt8) : PagerM Unit :=
  Pager.modifyPage page fun data =>
    match leafInsertIndex data rowid with
    | .error e => .error e
    | .ok idx => (placeCell "leaf" LEAF_HEADER_SIZE cell idx data).map fun data => ((), data)

def insertCellIntoLeafRaw (page : Nat) (rowid : Int64) (payload : List UInt8) : PagerM Unit :=
  insertCellIntoLeaf page rowid (makeLeafCell rowid payload)

def insertOverflowCellRaw (page : Nat) (rowid : Int64) (totalPayloadLen overflowFirstPage : Nat) :
    PagerM Unit :=
  insertCellIntoLeaf page rowid (makeOverflowCell rowid totalPayloadLen overflowFirstPage)

-- One of the raw cells that `split_leaf` collects, with its rowid.
def leafCell (data : PageData) (i : Nat) : Res (Int64 × List UInt8) := do
  let off ← cellOffset LEAF_HEADER_SIZE (some 12) data i
  let rawSize ← readU32 data off
  let rowid ← readRowid data (off + 4)
  let len := if OVERFLOW_FLAG ≤ rawSize then 20 else 12 + rawSize
  validateCellOffset off len
  return (rowid, data.slice off len)

def leafCells (data : PageData) : Res (List (Int64 × List UInt8)) :=
  (List.range (cellCount data)).mapM (leafCell data)

def fillLeaf (page : Nat) : List (Int64 × List UInt8) → PagerM Unit
  | [] => return ()
  | (rowid, cell) :: cells => do
      insertCellIntoLeaf page rowid cell
      fillLeaf page cells

-- Behind the last cell the whole page stays on the left.
def splitAt (insertPos len : Nat) : Nat := if insertPos = len - 1 then len - 1 else len / 2

def splitLeaf (page : Nat) (rowid : Int64) (cell : List UInt8) : PagerM InsertResult := do
  let oldNext ← getNextLeaf page
  let oldPrev ← getPrevLeaf page
  let pg ← Pager.getPage page
  let old ← ofRes (leafCells pg.data)
  let insertPos := old.findIdx fun c => rowid < c.1
  let cells := old.insertIdx insertPos (rowid, cell)
  let mid := splitAt insertPos cells.length
  match cells[mid]? with
  | none => throw .Panic
  | some (dividerKey, _) =>
      initLeafPage page
      fillLeaf page (cells.take mid)
      let right ← Pager.allocatePage
      initLeafPage right
      fillLeaf right (cells.drop mid)
      setNextLeaf page right
      setPrevLeaf page oldPrev
      setNextLeaf right oldNext
      setPrevLeaf right page
      if oldNext ≠ 0 then setPrevLeaf oldNext right
      return .Split dividerKey right

def insertInteriorCell (page : Nat) (key : Int64) (leftChild : Nat) : PagerM Unit :=
  Pager.modifyPage page fun data =>
    match bisect (probeKey none data key) (cellCount data) 0 (cellCount data) with
    | .error e => .error e
    | .ok (_, idx) =>
        (placeCell "interior" INTERIOR_HEADER_SIZE (makeInteriorCell leftChild key) idx data).map
          fun data => ((), data)

def interiorCell (data : PageData) (i : Nat) : Res (Nat × Int64) := do
  let off ← cellOffset INTERIOR_HEADER_SIZE (some 12) data i
  let child ← readU32 data off
  let key ← readRowid data (off + 4)
  return (child, key)

def interiorCells (data : PageData) : Res (List (Nat × Int64)) :=
  (List.range (cellCount data)).mapM (interiorCell data)

def fillInterior (page : Nat) : List (Nat × Int64) → PagerM Unit
  | [] => return ()
  | (child, key) :: cells => do
      insertInteriorCell page key child
      fillInterior page cells

-- The cell after the new one, or the right child, gets the new page.
def relink (insertPos newPage oldRight : Nat) (cells : List (Nat × Int64)) :
    List (Nat × Int64) × Nat :=
  match cells[insertPos + 1]? with
  | some (_, key) => (cells.set (insertPos + 1) (newPage, key), oldRight)
  | none => (cells, newPage)

def splitInterior (page : Nat) (newKey : Int64) (leftChild rightChildOfNew : Nat) :
    PagerM InsertResult := do
  let pg ← Pager.getPage page
  let old ← ofRes (interiorCells pg.data)
  let insertPos := old.findIdx fun c => newKey < c.2
  let (cells, finalRightChild) := relink insertPos rightChildOfNew (rightChild pg.data)
    (old.insertIdx insertPos (leftChild, newKey))
  let mid := splitAt insertPos cells.length
  match cells[mid]? with
  | none => throw .Panic
  | some (leftRightChild, promotedKey) =>
      initInteriorPage page leftRightChild
      fillInterior page (cells.take mid)
      let newPage ← Pager.allocatePage
      initInteriorPage newPage finalRightChild
      fillInterior newPage (cells.drop (mid + 1))
      return .Split promotedKey newPage

-- The loop of `replace_child_pointer`: the first cell with the divider as its key.
def dividerIndex (data : PageData) (dividerKey : Int64) : Nat → Nat → Res (Option Nat)
  | 0, _ => .ok none
  | count + 1, i => do
      let off ← cellOffset INTERIOR_HEADER_SIZE (some 12) data i
      let key ← readRowid data (off + 4)
      if key = dividerKey then return some i else dividerIndex data dividerKey count (i + 1)

def replaceChild (dividerKey : Int64) (newPage : Nat) (data : PageData) : Res PageData := do
  match ← dividerIndex data dividerKey (cellCount data) 0 with
  | none => throw (.Err (.BTreeError "divider key not found after insert"))
  | some i =>
      if i + 1 < cellCount data then do
        let off ← cellOffset INTERIOR_HEADER_SIZE none data (i + 1)
        if PAGE_SIZE < off + 4 then throw .Panic
        return data.write off (leBytes 4 newPage)
      else return data.write 6 (leBytes 4 newPage)

def replaceChildPointer (page : Nat) (dividerKey : Int64) (newPage : Nat) : PagerM Unit :=
  Pager.modifyPage page fun data => (replaceChild dividerKey newPage data).map fun data => ((), data)

def childFor (data : PageData) (rowid : Int64) : Res Nat :=
  if cellCount data = 0 then .ok (rightChild data)
  else
    match bisect (probeKey (some 12) data rowid) (cellCount data) 0 (cellCount data) with
    | .error e => .error e
    | .ok (_, idx) =>
        if idx < cellCount data then do
          let off ← cellOffset INTERIOR_HEADER_SIZE (some 4) data idx
          readU32 data off
        else .ok (rightChild data)

def findChildPage (page : Nat) (rowid : Int64) : PagerM Nat := do
  let pg ← Pager.getPage page
  ofRes (childFor pg.data rowid)

def available (hdr : Nat) (data : PageData) : Nat :=
  cellContentOffset data - (hdr + 2 * cellCount data)

def needsOverflow (payload : List UInt8) : Bool := MAX_INLINE_PAYLOAD < payload.length

def cellLen (payload : List UInt8) : Nat := if needsOverflow payload then 12 + 8 else 12 + payload.length

-- The leaf branch of `insert_into_page`.
def insertIntoLeaf (page : Nat) (data : PageData) (rowid : Int64) (payload : List UInt8) :
    PagerM InsertResult :=
  if cellLen payload + 2 ≤ available LEAF_HEADER_SIZE data then
    if needsOverflow payload then do
      let first ← writeOverflowChain payload
      insertOverflowCellRaw page rowid payload.length first
      return .Done
    else do
      insertCellIntoLeafRaw page rowid payload
      return .Done
  else
    if needsOverflow payload then do
      let first ← writeOverflowChain payload
      splitLeaf page rowid (makeOverflowCell rowid payload.length first)
    else splitLeaf page rowid (makeLeafCell rowid payload)

-- What the interior branch does with a split below it.
def addChild (page : Nat) (dividerKey : Int64) (child newPage : Nat) : PagerM InsertResult := do
  let pg ← Pager.getPage page
  if 12 + 2 ≤ available INTERIOR_HEADER_SIZE pg.data then do
    insertInteriorCell page dividerKey child
    replaceChildPointer page dividerKey newPage
    return .Done
  else splitInterior page dividerKey child newPage

-- The recursions along child pages take as fuel one more than the number of pages: a longer
-- path passes a page twice and would go on forever.
def depthLimit : PagerM Nat := do
  let s ← get
  return s.header.totalPages + 1

def insertIntoPage (rowid : Int64) (payload : List UInt8) : Nat → Nat → PagerM InsertResult
  | 0, _ => throw .Hang
  | fuel + 1, page =>
      if U32_MAX < payload.length then
        throw (.Err (.BTreeError ("payload too large: " ++ toString payload.length ++
          " bytes exceeds u32::MAX")))
      else do
        let pg ← Pager.getPage page
        if pageType pg.data = LEAF_TABLE then insertIntoLeaf page pg.data rowid payload
        else if pageType pg.data = INTERIOR_TABLE then do
          let child ← findChildPage page rowid
          match ← insertIntoPage rowid payload fuel child with
          | .Done => return .Done
          | .Split dividerKey newPage => addChild page dividerKey child newPage
        else throw (invalidPageType "invalid" (pageType pg.data))

-- A split of the root puts a new root above the two halves.
def insertPayload (root : Nat) (rowid : Int64) (payload : List UInt8) : PagerM Nat := do
  let fuel ← depthLimit
  match ← insertIntoPage rowid payload fuel root with
  | .Done => return root
  | .Split dividerKey newPage => do
      let newRoot ← Pager.allocatePage
      initInteriorPage newRoot newPage
      insertInteriorCell newRoot dividerKey root
      return newRoot

def insert (root : Nat) (rowid : Int64) (row : Row) : PagerM Nat :=
  insertPayload root rowid (serializeRow row)

-- The buffer is cleared before the row is written to it.
def insertWithBuf (root : Nat) (rowid : Int64) (row : Row) (_buf : List UInt8) : PagerM Nat :=
  insertPayload root rowid (serializeRow row)

end Pages

section Readers

variable [Lz4Flex]

def findLeftmost : Nat → Nat → PagerM Nat
  | 0, _ => throw .Hang
  | fuel + 1, cur => do
      let pg ← Pager.getPage cur
      if pageType pg.data = LEAF_TABLE then return cur
      else if 0 < cellCount pg.data then do
        let off ← ofRes (cellOffset INTERIOR_HEADER_SIZE (some 4) pg.data 0)
        let child ← ofRes (readU32 pg.data off)
        findLeftmost fuel child
      else findLeftmost fuel (rightChild pg.data)

def findLeftmostLeaf (root : Nat) : PagerM Nat := do
  let fuel ← depthLimit
  findLeftmost fuel root

def findRightmost : Nat → Nat → PagerM Nat
  | 0, _ => throw .Hang
  | fuel + 1, cur => do
      let pg ← Pager.getPage cur
      if pageType pg.data = LEAF_TABLE then return cur
      else if pageType pg.data = INTERIOR_TABLE then findRightmost fuel (rightChild pg.data)
      else throw (invalidPageType "unexpected" (pageType pg.data))

def findRightmostLeaf (root : Nat) : PagerM Nat := do
  let fuel ← depthLimit
  findRightmost fuel root

-- The row of the cell at place `i`, as the scans without rowids read it.
def scanRow (validate : Option Nat) (data : PageData) (i : Nat) : PagerM Row := do
  let off ← ofRes (cellOffset LEAF_HEADER_SIZE validate data i)
  let rawSize ← ofRes (readU32 data off)
  let payload ← readCellPayload rawSize (off + 12) data
  ofRes (deserializeRow payload)

def scanEntry (validate : Option Nat) (data : PageData) (i : Nat) : PagerM (Int64 × Row) := do
  let off ← ofRes (cellOffset LEAF_HEADER_SIZE validate data i)
  let rawSize ← ofRes (readU32 data off)
  let rowid ← ofRes (readRowid data (off + 4))
  let payload ← readCellPayload rawSize (off + 12) data
  let row ← ofRes (deserializeRow payload)
  return (rowid, row)

section Chain

variable {α : Type} (entry : PageData → Nat → PagerM α) (places : Nat → List Nat)
  (link : PageData → Nat) (limit : Option Nat)

def reached (limit : Option Nat) (acc : List α) : Bool :=
  match limit with
  | some n => n ≤ acc.length
  | none => false

-- The loop over the cells of one leaf; the flag tells that the limit was reached.
def scanCells (data : PageData) : List Nat → List α → PagerM (Bool × List α)
  | [], acc => return (false, acc)
  | i :: is, acc =>
      if reached limit acc then return (true, acc)
      else do
        let e ← entry data i
        scanCells data is (acc ++ [e])

-- The loop that the scans share: which way the cells and the leaves are visited, what is read
-- of a cell and whether there is a limit are parameters.
def scanFrom : Nat → Nat → List α → PagerM (List α)
  | 0, _, _ => throw .Hang
  | fuel + 1, cur, acc =>
      if cur = 0 then return acc
      else do
        let pg ← Pager.getPage cur
        match ← scanCells entry limit pg.data (places (cellCount pg.data)) acc with
        | (true, acc) => return acc
        | (false, acc) => scanFrom fuel (link pg.data) acc

-- Going around a cycle of leaves ends only by the limit.
def scanLeaves (first : Nat) : PagerM (List α) := do
  let s ← get
  scanFrom entry places link limit ((limit.getD 0 + 1) * (s.header.totalPages + 1)) first []

end Chain

def backward (count : Nat) : List Nat := (List.range count).reverse

def scanAll (root : Nat) : PagerM (List (Int64 × Row)) := do
  let first ← findLeftmostLeaf root
  scanLeaves (scanEntry none) List.range nextLeaf none first

def scanRows (root : Nat) : PagerM (List Row) := do
  let first ← findLeftmostLeaf root
  scanLeaves (scanRow (some 4)) List.range nextLeaf none first

-- `Vec::with_capacity` panics when the rows would take more than `isize::MAX` bytes.
def reserveRows (limit : Nat) : PagerM Unit :=
  if ISIZE_MAX < ROW_SIZE * limit then throw .Panic else return ()

def scanRowsLimit (root limit : Nat) : PagerM (List Row) := do
  let first ← findLeftmostLeaf root
  reserveRows limit
  scanLeaves (scanRow (some 4)) List.range nextLeaf (some limit) first

def scanAllReverse (root : Nat) : PagerM (List (Int64 × Row)) := do
  let last ← findRightmostLeaf root
  scanLeaves (scanEntry (some 12)) backward prevLeaf none last

def scanRowsReverseLimit (root limit : Nat) : PagerM (List Row) := do
  let last ← findRightmostLeaf root
  reserveRows limit
  scanLeaves (scanRow (some 4)) backward prevLeaf (some limit) last

def findCell (data : PageData) (rowid : Int64) : Res (Option (Nat × Nat)) :=
  match bisect (probeRowid (some 12) data rowid) (cellCount data) 0 (cellCount data) with
  | .error e => .error e
  | .ok (true, idx) => do
      let off ← cellOffset LEAF_HEADER_SIZE (some 12) data idx
      let rawSize ← readU32 data off
      return some (off, rawSize)
  | .ok (false, _) => .ok none

def find : Nat → Nat → Int64 → PagerM (Option (Int64 × Row))
  | 0, _, _ => throw .Hang
  | fuel + 1, page, rowid => do
      let pg ← Pager.getPage page
      if pageType pg.data = LEAF_TABLE then do
        match ← ofRes (findCell pg.data rowid) with
        | none => return none
        | some (off, rawSize) => do
            let pg ← Pager.getPage page
            let payload ← readCellPayload rawSize (off + 12) pg.data
            let row ← ofRes (deserializeRow payload)
            return some (rowid, row)
      else if pageType pg.data = INTERIOR_TABLE then do
        let child ← findChildPage page rowid
        find fuel child rowid
      else throw (invalidPageType "unexpected" (pageType pg.data))

def findByRowid (root : Nat) (rowid : Int64) : PagerM (Option (Int64 × Row)) := do
  let fuel ← depthLimit
  find fuel root rowid

def overflowPointer (data : PageData) (off rawSize : Nat) : Res (Option Nat) :=
  if OVERFLOW_FLAG ≤ rawSize then (readU32 data (off + 16)).map some else .ok none

-- Take the cell's pointer out of the array; the cell's bytes stay behind.
def removeCell (idx : Nat) (data : PageData) : Res (Option Nat × PageData) := do
  let off ← cellOffset LEAF_HEADER_SIZE (some 12) data idx
  let rawSize ← readU32 data off
  let first ← overflowPointer data off rawSize
  if idx + 1 < cellCount data ∧ PAGE_SIZE < LEAF_HEADER_SIZE + 2 * cellCount data then .error .Panic
  else .ok (first, (dropPointer LEAF_HEADER_SIZE data (cellCount data) idx).write 1
    (leBytes 2 (cellCount data - 1)))

def deleteFromLeaf (rowid : Int64) (data : PageData) : Res (Option (Option Nat) × PageData) :=
  match bisect (probeRowid (some 12) data rowid) (cellCount data) 0 (cellCount data) with
  | .error e => .error e
  | .ok (true, idx) => (removeCell idx data).map fun r => (some r.1, r.2)
  | .ok (false, _) => .ok (none, data)

def deleteFromPage (rowid : Int64) : Nat → Nat → PagerM Bool
  | 0, _ => throw .Hang
  | fuel + 1, page => do
      let pg ← Pager.getPage page
      if pageType pg.data = LEAF_TABLE then do
        match ← Pager.modifyPage page (deleteFromLeaf rowid) with
        | none => return false
        | some none => return true
        | some (some first) => do
            freeOverflowChain first
            return true
      else if pageType pg.data = INTERIOR_TABLE then do
        let child ← findChildPage page rowid
        deleteFromPage rowid fuel child
      else throw (invalidPageType "unexpected" (pageType pg.data))

def deleteByRowid (root : Nat) (rowid : Int64) : PagerM (Bool × Nat) := do
  let fuel ← depthLimit
  let deleted ← deleteFromPage rowid fuel root
  return (deleted, root)

def updateRow (root : Nat) (rowid : Int64) (newRow : Row) : PagerM Nat := do
  let (_, currentRoot) ← deleteByRowid root rowid
  insert currentRoot rowid newRow

def updateRowWithBuf (root : Nat) (rowid : Int64) (newRow : Row) (buf : List UInt8) : PagerM Nat := do
  let (_, currentRoot) ← deleteByRowid root rowid
  insertWithBuf currentRoot rowid newRow buf

-- The children of an interior page in order. The array they are kept in has a fixed size.
def childPages (data : PageData) : Res (List Nat) := do
  let left ← (List.range (min (cellCount data) MAX_INTERIOR_CHILDREN)).mapM fun i => do
    let off ← cellOffset INTERIOR_HEADER_SIZE (some 4) data i
    readU32 data off
  if MAX_INTERIOR_CHILDREN ≤ cellCount data then throw .Panic
  return left ++ [rightChild data]

def count : Nat → Nat → PagerM Nat
  | 0, _ => throw .Hang
  | fuel + 1, page => do
      let pg ← Pager.getPage page
      if pageType pg.data = LEAF_TABLE then return cellCount pg.data
      else if pageType pg.data = INTERIOR_TABLE then do
        let children ← ofRes (childPages pg.data)
        let counts ← children.mapM (count fuel)
        return counts.sum
      else return 0

def countRows (root : Nat) : PagerM Nat := do
  let fuel ← depthLimit
  count fuel root

end Readers

end BTree

end Kkdb
