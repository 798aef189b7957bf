import Kkdb.BTree.Layout
import Kkdb.Lib.Slotted

namespace Kkdb

open Lib

namespace BTree

section Defragment

def pageSizeToU16Val (v : Nat) : Nat := if 65536 ≤ v then 0 else v

-- The length of a cell by its first four bytes. What is more than a page can hold is the flag of an
-- overflow cell, which is taken for one with four bytes behind its rowid.
def collectedLen (payloadSize : Nat) : Nat := 4 + 8 + if PAGE_SIZE - 12 < payloadSize then 4 else payloadSize

def collectCells (data : PageData) : Nat → Nat → List (Nat × List UInt8)
  | 0, _ => []
  | count + 1, i =>
      if PAGE_SIZE < LEAF_HEADER_SIZE + 2 * i + 2 then []
      else
        let off := u16ToPageSize (data.u16 (LEAF_HEADER_SIZE + 2 * i))
        if PAGE_SIZE < off + 4 then collectCells data count (i + 1)
        else
          let finish := min (off + collectedLen (data.u32 off)) PAGE_SIZE
          (i, data.slice off (finish - off)) :: collectCells data count (i + 1)

def packCells : List (Nat × List UInt8) → Nat → PageData → Res (Nat × PageData)
  | [], offset, data => .ok (offset, data)
  | (i, cell) :: cells, offset, data =>
      if offset < cell.length then .error .Panic
      else packCells cells (offset - cell.length) ((data.write (offset - cell.length) cell).write
        (LEAF_HEADER_SIZE + 2 * i) (leBytes 2 (pageSizeToU16Val (offset - cell.length))))

-- All behind the pointers is cleared first.
def rewriteLeaf (count : Nat) (cells : List (Nat × List UInt8)) (data : PageData) : Res PageData :=
  let ptrEnd := LEAF_HEADER_SIZE + 2 * count
  if PAGE_SIZE < ptrEnd then .error .Panic
  else do
    let (offset, data) ← packCells cells PAGE_SIZE
      (data.write ptrEnd (List.replicate (PAGE_SIZE - ptrEnd) 0))
    return (data.write 3 (leBytes 2 (pageSizeToU16Val offset))).write 5 [0]

def fragmentedBytes (data : PageData) : UInt8 := data.byte 5

def defragmentLeaf [Lz4Flex] (page : Nat) : PagerM Bool := do
  let pg ← Pager.getPage page
  let count := cellCount pg.data
  if pageType pg.data ≠ LEAF_TABLE ∨ fragmentedBytes pg.data = 0 then return false
  else do
    let pg ← Pager.getPage page
    let cells := collectCells pg.data count 0
    Pager.modifyPage page fun data => (rewriteLeaf count cells data).map fun data => ((), data)
    return true

end Defragment

section Reading

variable [Lz4Flex]

def readCell (validate : Option Nat) (data : PageData) (i : Nat) : PagerM (Int64 × List UInt8) := do
  let off ← ofRes (cellOffset LEAF_HEADER_SIZE validate data i)
  let rawSize ← ofRes (readU32 data off)
  let rowid ← ofRes (readRowid data (off + 4))
  let payload ← readCellPayload rawSize (off + 12) data
  return (rowid, payload)

def readCells (validate : Option Nat) (data : PageData) : PagerM (List (Int64 × List UInt8)) :=
  (List.range (cellCount data)).mapM (readCell validate data)

end Reading

section Place

variable {d : PageData} {top : Nat} {slots : List (Nat × List UInt8)}

def collected (data : PageData) (i : Nat) : List UInt8 :=
  data.slice (cellPointer data i) (collectedLen (data.u32 (cellPointer data i)))

theorem packCells_slotted (f : Nat → List UInt8) (count : Nat) (h : Slotted LEAF_HEADER_SIZE top d slots)
    (hroom : LEAF_HEADER_SIZE + 2 * (slots.length + count) +
      totalLength ((List.range' slots.length count).map f) ≤ top) :
    ∃ d', packCells ((List.range' slots.length count).map fun i => (i, f i)) top d =
        .ok (top - totalLength ((List.range' slots.length count).map f), d') ∧
      Slotted LEAF_HEADER_SIZE (top - totalLength ((List.range' slots.length count).map f)) d'
        (slots ++ packed top ((List.range' slots.length count).map f)) ∧
      ∀ i < LEAF_HEADER_SIZE, d'.byte i = d.byte i := by
  induction count generalizing top d slots with
  | zero =>
      refine ⟨d, rfl, ?_, fun _ _ => rfl⟩
      rw [List.range'_zero, List.map_nil, packed, List.append_nil, totalLength_nil, Nat.sub_zero]
      exact h
  | succ count ih =>
      have htop := h.lo_le
      have hpage : PAGE_SIZE = 4096 := rfl
      rw [List.range'_succ, List.map_cons, totalLength_cons] at hroom
      have hput := h.append (Nat.sub_add_cancel (show (f slots.length).length ≤ top by omega)) (by omega)
      have hlen : (slots ++ [(top - (f slots.length).length, f slots.length)]).length = slots.length + 1 := by
        rw [List.length_append, List.length_singleton]
      have hrec := ih hput
      rw [hlen] at hrec
      obtain ⟨d', hok, hslotted, hheader⟩ := hrec (by omega)
      refine ⟨d', ?_, ?_, fun i hi => ?_⟩
      · rw [List.range'_succ, List.map_cons, packCells, if_neg (by omega), pageSizeToU16Val, if_neg (by omega),
          hok, List.map_cons, totalLength_cons, Nat.sub_sub]
      · rw [List.range'_succ, List.map_cons, totalLength_cons, packed, ← Nat.sub_sub]
        rwa [List.append_assoc, List.singleton_append] at hslotted
      · rw [hheader i hi, Buf.byte_write_of_notMem _ _ _ (by omega), Buf.byte_write_of_notMem _ _ _ (by omega)]

-- The cells end up packed in the order of their pointers, and the other fields stay.
theorem rewriteLeaf_packed (f : Nat → List UInt8)
    (hroom : LEAF_HEADER_SIZE + 2 * cellCount d + totalLength ((List.range (cellCount d)).map f) ≤ PAGE_SIZE) :
    ∃ d', rewriteLeaf (cellCount d) ((List.range (cellCount d)).map fun i => (i, f i)) d = .ok d' ∧
      Slotted LEAF_HEADER_SIZE (PAGE_SIZE - totalLength ((List.range (cellCount d)).map f)) d'
        (packed PAGE_SIZE ((List.range (cellCount d)).map f)) ∧
      d'.u16 3 = PAGE_SIZE - totalLength ((List.range (cellCount d)).map f) ∧
      ∀ i < LEAF_HEADER_SIZE, i < 3 ∨ 5 < i → d'.byte i = d.byte i := by
  have hhdr : LEAF_HEADER_SIZE = 14 := rfl
  have hpage : PAGE_SIZE = 4096 := rfl
  have hnil : Slotted LEAF_HEADER_SIZE PAGE_SIZE (d.write (LEAF_HEADER_SIZE + 2 * cellCount d)
      (List.replicate (PAGE_SIZE - (LEAF_HEADER_SIZE + 2 * cellCount d)) 0)) [] :=
    slotted_nil (by decide) (Nat.le_refl _) (by decide)
  have hpack := packCells_slotted f (cellCount d) hnil
  rw [List.length_nil, Nat.zero_add, ← List.range_eq_range', List.nil_append] at hpack
  obtain ⟨d', hok, hslotted, hheader⟩ := hpack hroom
  refine ⟨(d'.write 3 (leBytes 2 (PAGE_SIZE - totalLength ((List.range (cellCount d)).map f)))).write 5 [0],
    ?_, ?_, ?_, fun i hi hne => ?_⟩
  · rw [rewriteLeaf, if_neg (by omega), hok]
    show Except.ok _ = _
    rw [pageSizeToU16Val, if_neg (by omega)]
  · refine hslotted.congr (fun i hi _ => ?_) fun i hi _ => ?_
    all_goals
      have := hslotted.array
      rw [Buf.byte_write_of_notMem _ _ _ (by simp; omega), Buf.byte_write_of_notMem _ _ _ (by simp; omega)]
  · rw [Buf.u16_write_of_disjoint _ (by simp), Buf.u16_write_same _ (by omega) (by omega)]
  · rw [Buf.byte_write_of_notMem _ _ _ (by simp; omega), Buf.byte_write_of_notMem _ _ _ (by simp; omega),
      hheader i hi, Buf.byte_write_of_notMem _ _ _ (by omega)]

end Place

section Layout

variable {d d' : PageData} {i : Nat}

theorem collectedLen_inline {raw : Nat} (h : 12 + raw ≤ PAGE_SIZE) : collectedLen raw = 12 + raw := by
  rw [collectedLen, if_neg (by omega)]

theorem collectedLen_stub {raw : Nat} (h : OVERFLOW_FLAG ≤ raw) : collectedLen raw = 16 := by
  have hflag : OVERFLOW_FLAG = 2147483648 := rfl
  have hpage : PAGE_SIZE = 4096 := rfl
  rw [collectedLen, if_pos (by omega)]

theorem LayoutOk.cellFits (h : LayoutOk d) (hleaf : pageType d = LEAF_TABLE) (hi : i < cellCount d) :
    LEAF_HEADER_SIZE + 2 * cellCount d ≤ cellPointer d i ∧ cellContentOffset d ≤ cellPointer d i ∧
      cellPointer d i + cellSpan d i ≤ PAGE_SIZE := by
  obtain ⟨-, harray, hcells, -⟩ := h
  rw [headerSize, if_pos hleaf] at harray
  obtain ⟨habove, hwithin⟩ := hcells i hi
  exact ⟨by omega, habove, hwithin⟩

theorem LayoutOk.cellSpan_of_inline (h : LayoutOk d) (hleaf : pageType d = LEAF_TABLE) (hi : i < cellCount d)
    (hinline : d.u32 (cellPointer d i) < OVERFLOW_FLAG) :
    cellSpan d i = 12 + d.u32 (cellPointer d i) ∧ collectedLen (d.u32 (cellPointer d i)) = cellSpan d i := by
  have hspan : cellSpan d i = 12 + d.u32 (cellPointer d i) := by
    rw [cellSpan, if_pos hleaf, if_neg (by omega)]
  obtain ⟨-, -, hwithin⟩ := h.cellFits hleaf hi
  exact ⟨hspan, by rw [hspan, collectedLen_inline (by omega)]⟩

theorem LayoutOk.collectedLen_le (h : LayoutOk d) (hleaf : pageType d = LEAF_TABLE) (hi : i < cellCount d) :
    collectedLen (d.u32 (cellPointer d i)) ≤ cellSpan d i := by
  by_cases hstub : OVERFLOW_FLAG ≤ d.u32 (cellPointer d i)
  · rw [collectedLen_stub hstub, cellSpan, if_pos hleaf, if_pos hstub]
    decide
  · exact (h.cellSpan_of_inline hleaf hi (by omega)).2.le

theorem LayoutOk.totalLength_le (h : LayoutOk d) (hleaf : pageType d = LEAF_TABLE) :
    LEAF_HEADER_SIZE + 2 * cellCount d + totalLength ((List.range (cellCount d)).map (collected d)) ≤
      PAGE_SIZE := by
  have hsum : ∑ i ∈ Finset.range (cellCount d), (collected d i).length ≤
      PAGE_SIZE - (LEAF_HEADER_SIZE + 2 * cellCount d) := by
    refine sum_apart_le (fun i hi => (?_ : _ ≤ cellPointer d i ∧ _)) fun i hi j hj => ?_
    · obtain ⟨habove, -, hwithin⟩ := h.cellFits hleaf hi
      have hle := h.collectedLen_le hleaf hi
      rw [collected, Buf.length_slice]
      omega
    · have hle := h.collectedLen_le hleaf hi
      have hle' := h.collectedLen_le hleaf (Nat.lt_trans hj hi)
      rw [collected, collected, Buf.length_slice, Buf.length_slice]
      have hapart := (h.2.2.2 i hi j hj).2
      omega
  have hroom : LEAF_HEADER_SIZE + 2 * cellCount d ≤ PAGE_SIZE := by
    by_cases hzero : cellCount d = 0
    · rw [hzero]
      decide
    · obtain ⟨habove, -, hwithin⟩ := h.cellFits hleaf (Nat.pos_of_ne_zero hzero)
      omega
  rw [totalLength_map_range]
  omega

theorem collectCells_layout (h : LayoutOk d) (hleaf : pageType d = LEAF_TABLE) (count i : Nat)
    (hcount : i + count = cellCount d) :
    collectCells d count i = (List.range' i count).map fun j => (j, collected d j) := by
  induction count generalizing i with
  | zero => rfl
  | succ count ih =>
      obtain ⟨habove, -, hwithin⟩ := h.cellFits hleaf (show i < cellCount d by omega)
      have hle := h.collectedLen_le hleaf (show i < cellCount d by omega)
      have hpointer : d.u16 (LEAF_HEADER_SIZE + 2 * i) = cellPointer d i := by
        rw [cellPointer, headerSize, if_pos hleaf]
      have hsize : u16ToPageSize (cellPointer d i) = cellPointer d i := by
        have hhdr : LEAF_HEADER_SIZE = 14 := rfl
        rw [u16ToPageSize, if_neg (by omega)]
      have hlong : 12 ≤ collectedLen (d.u32 (cellPointer d i)) := by
        rw [collectedLen]
        omega
      rw [collectCells, if_neg (by omega), hpointer, hsize, if_neg (by omega), ih (i + 1) (by omega),
        List.range'_succ, List.map_cons, Nat.min_eq_left (by omega)]
      simp only [Nat.add_sub_cancel_left]
      rfl

structure Rewritten (d d' : PageData) : Prop where
  slots : Slotted LEAF_HEADER_SIZE
    (PAGE_SIZE - totalLength ((List.range (cellCount d)).map (collected d))) d'
    (packed PAGE_SIZE ((List.range (cellCount d)).map (collected d)))
  offset : d'.u16 3 = PAGE_SIZE - totalLength ((List.range (cellCount d)).map (collected d))
  header : ∀ i < LEAF_HEADER_SIZE, i < 3 ∨ 5 < i → d'.byte i = d.byte i

theorem rewriteLeaf_layout (h : LayoutOk d) (hleaf : pageType d = LEAF_TABLE) :
    ∃ d', rewriteLeaf (cellCount d) (collectCells d (cellCount d) 0) d = .ok d' ∧ Rewritten d d' := by
  obtain ⟨d', hok, hslots, hoffset, hheader⟩ := rewriteLeaf_packed (collected d) (h.totalLength_le hleaf)
  rw [collectCells_layout h hleaf (cellCount d) 0 (Nat.zero_add _), ← List.range_eq_range']
  exact ⟨d', hok, hslots, hoffset, hheader⟩

theorem Rewritten.type (h : Rewritten d d') : pageType d' = pageType d :=
    h.header 0 (by decide) (.inl (by decide))

theorem Rewritten.count (h : Rewritten d d') : cellCount d' = cellCount d :=
  Buf.u16_congr (h.header 1 (by decide) (.inl (by decide))) (h.header 2 (by decide) (.inl (by decide)))

theorem Rewritten.links (h : Rewritten d d') : nextLeaf d' = nextLeaf d ∧ prevLeaf d' = prevLeaf d := by
  have hhdr : LEAF_HEADER_SIZE = 14 := rfl
  constructor
  all_goals
    refine congrArg leNat (Buf.slice_congr fun i hi => h.header _ (by omega) (.inr (by omega)))

theorem Rewritten.slot (h : Rewritten d d') (hleaf : pageType d = LEAF_TABLE) (hi : i < cellCount d) :
    (packed PAGE_SIZE ((List.range (cellCount d)).map (collected d)))[i]? =
        some (cellPointer d' i, collected d i) ∧
      cellPointer d' i + (collected d i).length ≤ PAGE_SIZE ∧
      d'.slice (cellPointer d' i) (collected d i).length = collected d i := by
  have hlen : i < (packed PAGE_SIZE ((List.range (cellCount d)).map (collected d))).length := by
    rw [length_packed, List.length_map, List.length_range]
    exact hi
  have hpointer := h.slots.pointer i hlen
  have hmem := List.getElem_mem hlen
  have hcell : ((packed PAGE_SIZE ((List.range (cellCount d)).map (collected d)))[i]).2 = collected d i := by
    have hmap := congrArg (·[i]?) (map_snd_packed PAGE_SIZE ((List.range (cellCount d)).map (collected d)))
    simp only [List.getElem?_map, List.getElem?_range hi, Option.map_some,
      List.getElem?_eq_getElem hlen] at hmap
    exact Option.some.inj hmap
  have hp : cellPointer d' i = ((packed PAGE_SIZE ((List.range (cellCount d)).map (collected d)))[i]).1 := by
    rw [← hpointer, cellPointer, headerSize, if_pos (h.type.trans hleaf)]
  have hwithin := h.slots.within _ hmem
  have hslice := h.slots.cell _ hmem
  rw [← hp, hcell] at hwithin hslice
  exact ⟨by rw [List.getElem?_eq_getElem hlen, hp, ← hcell], hwithin, hslice⟩

end Layout

section Kept

variable {d d' : PageData} {i : Nat} {validate : Option Nat}

def AllInline (data : PageData) : Prop := ∀ i < cellCount data, data.u32 (cellPointer data i) < OVERFLOW_FLAG

instance (data : PageData) : Decidable (AllInline data) := inferInstanceAs (Decidable (∀ i < _, _))

theorem LayoutOk.cellOffset (h : LayoutOk d) (hleaf : pageType d = LEAF_TABLE) (hi : i < cellCount d)
    (hv : ∀ needed, validate = some needed → needed ≤ 12) :
    BTree.cellOffset LEAF_HEADER_SIZE validate d i = .ok (cellPointer d i) := by
  obtain ⟨habove, -, hwithin⟩ := h.cellFits hleaf hi
  have hlong : 12 ≤ cellSpan d i := by
    rw [cellSpan, if_pos hleaf]
    split_ifs <;> omega
  have hread : readU16 d (LEAF_HEADER_SIZE + 2 * i) = .ok (cellPointer d i) := by
    rw [readU16, if_pos (by omega), cellPointer, headerSize, if_pos hleaf]
  rw [BTree.cellOffset, hread]
  cases validate with
  | none => rfl
  | some needed =>
      have hle := hv needed rfl
      have hvalid : validateCellOffset (cellPointer d i) needed = .ok () := by
        rw [validateCellOffset, if_neg (by omega)]
      show (validateCellOffset (cellPointer d i) needed >>= fun _ => pure (cellPointer d i)) = _
      rw [hvalid]
      rfl

theorem head_collected (d : PageData) (i : Nat) : cellHead (collected d i) = d.u32 (cellPointer d i) := by
  have hlong : 12 ≤ collectedLen (d.u32 (cellPointer d i)) := by
    rw [collectedLen]
    omega
  have htake := Buf.drop_take_slice d (cellPointer d i) (collectedLen (d.u32 (cellPointer d i))) 0 4 (by omega)
  rw [List.drop_zero, Nat.add_zero] at htake
  rw [cellHead, collected, htake, Buf.u32]

theorem key_collected (d : PageData) (i : Nat) : cellKey (collected d i) = cellRowid d i := by
  have hlong : 12 ≤ collectedLen (d.u32 (cellPointer d i)) := by
    rw [collectedLen]
    omega
  rw [cellKey, collected, cellRowid, Buf.drop_take_slice d _ _ 4 8 (by omega)]

theorem length_collected (h : LayoutOk d) (hleaf : pageType d = LEAF_TABLE) (hi : i < cellCount d)
    (hinline : d.u32 (cellPointer d i) < OVERFLOW_FLAG) :
    (collected d i).length = 12 + cellHead (collected d i) := by
  obtain ⟨hspan, hlen⟩ := h.cellSpan_of_inline hleaf hi hinline
  rw [head_collected, collected, Buf.length_slice, hlen, hspan]

theorem Rewritten.laid (h : Rewritten d d') (hleaf : pageType d = LEAF_TABLE) :
    Laid LEAF_TABLE LEAF_HEADER_SIZE d' ((List.range (cellCount d)).map (collected d))
      (PAGE_SIZE - totalLength ((List.range (cellCount d)).map (collected d))) where
  type := h.type.trans hleaf
  count := by rw [h.count, List.length_map, List.length_range]
  offset := h.offset
  slots := ⟨_, map_snd_packed _ _, h.slots⟩
  long := fun c hc => by
    obtain ⟨i, -, rfl⟩ := List.mem_map.mp hc
    rw [collected, Buf.length_slice, collectedLen]
    omega
  header := by decide

theorem Rewritten.layout (h : Rewritten d d') (hlayout : LayoutOk d) (hleaf : pageType d = LEAF_TABLE)
    (hinline : AllInline d) : LayoutOk d' := by
  have hlaid := h.laid hleaf
  refine layoutOk_of_laid hlaid (.inl rfl) (by rw [headerSize, hlaid.type, if_pos rfl]) (fun c hc => ?_) ?_
  · obtain ⟨i, hi, rfl⟩ := List.mem_map.mp hc
    rw [List.mem_range] at hi
    have hraw := hinline i hi
    rw [if_pos rfl, cellSize, head_collected, if_neg (by omega), length_collected hlayout hleaf hi hraw,
      head_collected]
  · rw [List.map_map, List.pairwise_iff_getElem]
    intro j i hj hi hlt
    rw [List.length_map, List.length_range] at hj hi
    rw [List.getElem_map, List.getElem_map, List.getElem_range, List.getElem_range]
    simp only [Function.comp_apply, key_collected]
    exact (hlayout.2.2.2 i hi j hlt).1

-- Four bytes of a stub are cut off, so the cell before it, or the end of the page, is in its way.
theorem Rewritten.allInline (h : Rewritten d d') (hlayout : LayoutOk d) (hleaf : pageType d = LEAF_TABLE)
    (hlayout' : LayoutOk d') : AllInline d := by
  intro i hi
  by_contra hstub
  have hleaf' : pageType d' = LEAF_TABLE := h.type.trans hleaf
  have htotal := hlayout.totalLength_le hleaf
  obtain ⟨hslot, -, hslice⟩ := h.slot hleaf hi
  have hlen : (collected d i).length = 16 := by
    rw [collected, Buf.length_slice, collectedLen_stub (by omega)]
  have hraw : d'.u32 (cellPointer d' i) = d.u32 (cellPointer d i) := by
    have htake := Buf.drop_take_slice d' (cellPointer d' i) 16 0 4 (by omega)
    rw [List.drop_zero, Nat.add_zero] at htake
    rw [← head_collected d i, cellHead, ← hslice, hlen, htake, Buf.u32]
  have hspan : cellSpan d' i = 20 := by rw [cellSpan, if_pos hleaf', if_pos (by omega)]
  obtain ⟨-, -, hwithin⟩ := hlayout'.cellFits hleaf' (h.count.symm ▸ hi)
  cases i with
  | zero =>
      have hplace := packed_zero (by omega) hslot
      simp only at hplace
      omega
  | succ j =>
      obtain ⟨hslot', -, -⟩ := h.slot hleaf (show j < cellCount d by omega)
      have hplace := packed_succ (by omega) hslot' hslot
      have hapart := (hlayout'.2.2.2 (j + 1) (h.count.symm ▸ hi) j (by omega)).2
      simp only at hplace
      omega

end Kept

section Keeps

variable [Lz4Flex] {d d' : PageData} {i off : Nat} {cell : List UInt8} {validate : Option Nat}

structure Defragmented (d d' : PageData) : Prop where
  cells : ∀ validate : Option Nat, (∀ needed, validate = some needed → needed ≤ 12) →
    readCells validate d' = readCells validate d
  next : nextLeaf d' = nextLeaf d
  prev : prevLeaf d' = prevLeaf d
  layout : LayoutOk d'

theorem readCell_inline (hoff : cellOffset LEAF_HEADER_SIZE validate d i = .ok off)
    (hfit : off + cell.length ≤ PAGE_SIZE) (hslice : d.slice off cell.length = cell)
    (hlen : cell.length = 12 + cellHead cell) (hinline : cellHead cell < OVERFLOW_FLAG) :
    readCell validate d i = pure (cellKey cell, cell.drop 12) := by
  have hlong : 12 ≤ cell.length := by omega
  have hpayload : d.slice (off + 12) (cellHead cell) = cell.drop 12 := by
    rw [← Buf.drop_take_slice d off cell.length 12 (cellHead cell) (by omega), hslice,
      List.take_of_length_le (by rw [List.length_drop]; omega)]
  simp only [readCell, hoff, ofRes, pure_bind, readU32_of_slice hfit hlong hslice,
    readRowid_of_slice hfit hlong hslice]
  rw [readCellPayload, if_pos hinline, if_neg (by omega), hpayload, pure_bind]

theorem Rewritten.cells (h : Rewritten d d') (hlayout : LayoutOk d) (hleaf : pageType d = LEAF_TABLE)
    (hinline : AllInline d) (hv : ∀ needed, validate = some needed → needed ≤ 12) :
    readCells validate d' = readCells validate d := by
  rw [readCells, readCells, h.count]
  refine mapM_congr fun i hi => ?_
  rw [List.mem_range] at hi
  have hraw := hinline i hi
  obtain ⟨hspan, hlen⟩ := hlayout.cellSpan_of_inline hleaf hi hraw
  obtain ⟨-, -, hwithin⟩ := hlayout.cellFits hleaf hi
  obtain ⟨-, hwithin', hslice⟩ := h.slot hleaf hi
  have hsize := length_collected hlayout hleaf hi hraw
  have hhead : cellHead (collected d i) < OVERFLOW_FLAG := (head_collected d i).le.trans_lt hraw
  have hcell : d.slice (cellPointer d i) (collected d i).length = collected d i := by
    rw [collected, Buf.length_slice]
  have hoff' := (h.layout hlayout hleaf hinline).cellOffset (h.type.trans hleaf) (h.count.symm ▸ hi) hv
  have hfit : cellPointer d i + (collected d i).length ≤ PAGE_SIZE := by
    rw [collected, Buf.length_slice, hlen]
    exact hwithin
  have hread := readCell_inline (hlayout.cellOffset hleaf hi hv) hfit hcell hsize hhead
  have hread' := readCell_inline hoff' hwithin' hslice hsize hhead
  rw [hread, hread']

theorem Rewritten.defragmented_iff (h : Rewritten d d') (hlayout : LayoutOk d)
    (hleaf : pageType d = LEAF_TABLE) :
    Defragmented d d' ↔ AllInline d := by
  constructor
  · exact fun hkept => h.allInline hlayout hleaf hkept.layout
  · intro hinline
    obtain ⟨hnext, hprev⟩ := h.links
    exact ⟨fun _ hv => h.cells hlayout hleaf hinline hv, hnext, hprev, h.layout hlayout hleaf hinline⟩

-- Every leaf that is well laid out and has fragmented bytes is rewritten, and keeps its rows, links and
-- layout exactly when none of its rows has an overflow chain.
theorem defragmentLeaf_keeps_iff {lo base page : Nat} {s : Pager} (hs : Pager.Coherent lo base s)
    (hlo : lo < page) (hle : page ≤ s.header.totalPages) (hleaf : pageType (s.content lo page) = LEAF_TABLE)
    (hlayout : LayoutOk (s.content lo page)) (hfrag : fragmentedBytes (s.content lo page) ≠ 0) :
    ∃ d' s', defragmentLeaf page s = .ok true s' ∧ Pager.Coherent lo base s' ∧
      s'.content lo = Function.update (s.content lo) page d' ∧
      (Defragmented (s.content lo page) d' ↔ AllInline (s.content lo page)) := by
  obtain ⟨d', hok, hrewritten⟩ := rewriteLeaf_layout hlayout hleaf
  obtain ⟨s₁, hget₁, hload₁, -, hdata₁⟩ := Pager.getPage_spec hs hlo hle
  have hle₁ : page ≤ s₁.header.totalPages := by rw [hload₁.header]; exact hle
  obtain ⟨s₂, hget₂, hload₂, hl₂, hdata₂⟩ := Pager.getPage_spec hload₁.coherent hlo hle₁
  have hle₂ : page ≤ s₂.header.totalPages := by rw [hload₂.header]; exact hle₁
  rw [hload₁.content] at hdata₂
  have hcontent₂ : s₂.content lo = s.content lo := hload₂.content.trans hload₁.content
  obtain ⟨f, hf⟩ : ∃ f : PageData → Res (Unit × PageData), f = fun data =>
      (rewriteLeaf (cellCount (s.content lo page))
        (collectCells (s.content lo page) (cellCount (s.content lo page)) 0) data).map fun data => ((), data) :=
    ⟨_, rfl⟩
  have hstep : f (s₂.content lo page) = .ok ((), d') := by
    simp only [hf, hcontent₂, hok]
    rfl
  obtain ⟨s₃, hmod, hload₃, hl₃, -⟩ := Pager.modifyPage_spec hload₂.coherent hlo hle₂ (.inl hl₂) hstep
  have hle₃ : page ≤ s₃.header.totalPages := by rw [hload₃.header]; exact hle₂
  refine ⟨d', s₃.mutate page d', ?_, Pager.mutate_coherent d' hload₃.coherent (by omega) hle₃ hl₃, ?_,
    hrewritten.defragmented_iff hlayout hleaf⟩
  · rw [defragmentLeaf, bind_ok hget₁]
    simp only [hdata₁]
    rw [if_neg (by rw [not_or, not_not]; exact ⟨hleaf, hfrag⟩), bind_ok hget₂]
    simp only [hdata₂]
    rw [← hf, bind_ok hmod]
    rfl
  · rw [Pager.content_mutate d' hload₃.coherent hlo hle₃ hl₃, hload₃.content, hcontent₂]

end Keeps

section Samples

attribute [local instance] Lz4Flex.incompressible

def fragmentedLeaf (data : PageData) : PageData :=
  ((placeCell "leaf" LEAF_HEADER_SIZE (makeLeafCell 1 [7, 8]) 0 data).toOption.getD data).write 5 [1]

def fragmentedPager : Pager :=
  (Pager.SpaceOp.step (.Write 3 fragmentedLeaf)
    (Pager.openMemory Buf.zero, Pager.Space.start Pager.createdLedger)).1

theorem fragmentedPager_coherent : Pager.Coherent 2 0 fragmentedPager :=
  (Pager.space_step (.Write 3 fragmentedLeaf) (Pager.ready_openMemory Buf.zero).space
    ⟨by decide, .inl (by decide)⟩).sys.coherent

set_option maxRecDepth 10000 in
theorem defragmentLeaf_keeps_short :
    ∃ d' s', defragmentLeaf 3 fragmentedPager = .ok true s' ∧ Pager.Coherent 2 0 s' ∧
      s'.content 2 = Function.update (fragmentedPager.content 2) 3 d' ∧
      (Defragmented (fragmentedPager.content 2 3) d' ↔ AllInline (fragmentedPager.content 2 3)) :=
  defragmentLeaf_keeps_iff fragmentedPager_coherent (by decide) (by decide +kernel) (by decide +kernel)
    (by decide +kernel) (by decide +kernel)

def stubPager : Pager :=
  left (do
    let root ← insertPayload 3 1 (List.replicate 2100 7)
    Pager.writePage root fun data => data.write 5 [1]) (Pager.openMemory Buf.zero)

def rowsOn (page : Nat) (s : Pager) : Option (List (Int64 × List UInt8)) :=
  match (do
    let pg ← Pager.getPage page
    readCells none pg.data : PagerM (List (Int64 × List UInt8))) s with
  | .ok rows _ => some rows
  | .error _ _ => none

set_option maxRecDepth 10000 in
theorem stub_cut :
    pageType (stubPager.content 2 3) = LEAF_TABLE ∧ LayoutOk (stubPager.content 2 3) ∧
      fragmentedBytes (stubPager.content 2 3) ≠ 0 ∧
      (rowsOn 3 stubPager).map (·.map fun row => (row.1, row.2.length)) = some [(1, 2100)] ∧
      ¬LayoutOk ((left (defragmentLeaf 3) stubPager).content 2 3) ∧
      rowsOn 3 (left (defragmentLeaf 3) stubPager) = none := by
  decide +kernel

end Samples

end BTree

end Kkdb
