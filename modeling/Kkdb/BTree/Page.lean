import Kkdb.BTree

namespace Kkdb

open Lib

namespace BTree

-- The key of a cell: the rowid of a leaf cell, the divider of an interior one. Both follow four
-- bytes, the size of the payload or the child page.
def cellKey (cell : List UInt8) : Int64 := rowidOf ((cell.drop 4).take 8)

def cellHead (cell : List UInt8) : Nat := leNat (cell.take 4)

@[simp] theorem length_rowidBytes (rowid : Int64) : (rowidBytes rowid).length = 8 :=
  length_leBytes 8 _

@[simp] theorem rowidOf_rowidBytes (rowid : Int64) : rowidOf (rowidBytes rowid) = rowid := by
  have h : rowid.toUInt64.toNat < 256 ^ 8 := rowid.toUInt64.toNat_lt
  rw [rowidOf, rowidBytes, leNat_leBytes_of_lt h, UInt64.ofNat_toNat]
  rfl

theorem cellKey_append {head tail : List UInt8} {rowid : Int64} (h : head.length = 4) :
    cellKey (head ++ (rowidBytes rowid ++ tail)) = rowid := by
  rw [cellKey, List.drop_left' h, List.take_left' (length_rowidBytes rowid), rowidOf_rowidBytes]

theorem cellHead_append {value : Nat} {tail : List UInt8} (h : value < 2 ^ 32) :
    cellHead (leBytes 4 value ++ tail) = value := by
  rw [cellHead, List.take_left' (length_leBytes 4 value), leNat_leBytes_of_lt (by simpa using h)]

@[simp] theorem length_makeLeafCell (rowid : Int64) (payload : List UInt8) :
    (makeLeafCell rowid payload).length = 12 + payload.length := by
  simp only [makeLeafCell, List.length_append, length_leBytes, length_rowidBytes]
  omega

@[simp] theorem length_makeOverflowCell (rowid : Int64) (total first : Nat) :
    (makeOverflowCell rowid total first).length = 20 := by
  simp [makeOverflowCell]

@[simp] theorem length_makeInteriorCell (child : Nat) (key : Int64) :
    (makeInteriorCell child key).length = 12 := by
  simp [makeInteriorCell]

@[simp] theorem cellKey_makeLeafCell (rowid : Int64) (payload : List UInt8) :
    cellKey (makeLeafCell rowid payload) = rowid := cellKey_append (length_leBytes 4 _)

@[simp] theorem cellKey_makeOverflowCell (rowid : Int64) (total first : Nat) :
    cellKey (makeOverflowCell rowid total first) = rowid := cellKey_append (length_leBytes 4 _)

@[simp] theorem cellKey_makeInteriorCell (child : Nat) (key : Int64) :
    cellKey (makeInteriorCell child key) = key := by
  have h : cellKey (leBytes 4 child ++ (rowidBytes key ++ [])) = key :=
    cellKey_append (length_leBytes 4 child)
  rwa [List.append_nil] at h

-- A page of the tree with its cells in pointer order. The area above `lo` holds them, and may
-- hold cells that no pointer leads to any more.
structure Laid (ty : UInt8) (hdr : Nat) (d : PageData) (cells : List (List UInt8)) (lo : Nat) :
    Prop where
  type : pageType d = ty
  count : cellCount d = cells.length
  offset : d.u16 3 = lo
  slots : ∃ slots : List (Nat × List UInt8), slots.map Prod.snd = cells ∧ Slotted hdr lo d slots
  long : ∀ c ∈ cells, 12 ≤ c.length
  header : 10 ≤ hdr

section Read

variable {ty : UInt8} {hdr lo i : Nat} {d d' : PageData} {cells : List (List UInt8)}

theorem Laid.array (h : Laid ty hdr d cells lo) : hdr + 2 * cells.length ≤ lo := by
  obtain ⟨slots, rfl, hs⟩ := h.slots
  rw [List.length_map]
  exact hs.array

theorem Laid.lo_le (h : Laid ty hdr d cells lo) : lo ≤ PAGE_SIZE := by
  obtain ⟨slots, rfl, hs⟩ := h.slots
  exact hs.lo_le

theorem Laid.contentOffset (h : Laid ty hdr d cells lo) : cellContentOffset d = lo := by
  have := h.array
  have := h.header
  rw [cellContentOffset, h.offset, u16ToPageSize, if_neg (by omega)]

theorem Laid.available (h : Laid ty hdr d cells lo) :
    available hdr d = lo - (hdr + 2 * cells.length) := by
  rw [BTree.available, h.contentOffset, h.count]

theorem Laid.cell {cell : List UInt8} (h : Laid ty hdr d cells lo) (validate : Option Nat)
    (hget : cells[i]? = some cell) (hv : ∀ needed, validate = some needed → needed ≤ cell.length) :
    ∃ off, cellOffset hdr validate d i = .ok off ∧ off + cell.length ≤ PAGE_SIZE ∧
      d.slice off cell.length = cell := by
  have hlo := h.lo_le
  have harray := h.array
  obtain ⟨slots, rfl, hs⟩ := h.slots
  rw [List.getElem?_map, Option.map_eq_some_iff] at hget
  obtain ⟨slot, hslot, rfl⟩ := hget
  obtain ⟨hi, rfl⟩ := List.getElem?_eq_some_iff.mp hslot
  have hmem := List.getElem_mem hi
  have hwithin := hs.within _ hmem
  rw [List.length_map] at harray
  refine ⟨slots[i].1, ?_, hwithin, hs.cell _ hmem⟩
  have hread : readU16 d (hdr + 2 * i) = .ok slots[i].1 := by
    rw [readU16, if_pos (by omega), hs.pointer i hi]
  rw [cellOffset, hread]
  cases validate with
  | none => rfl
  | some needed =>
      have hle := hv needed rfl
      have hvalid : validateCellOffset slots[i].1 needed = .ok () := by
        rw [validateCellOffset, if_neg (by omega)]
      show (validateCellOffset slots[i].1 needed >>= fun _ => pure slots[i].1) = _
      rw [hvalid]
      rfl

theorem readRowid_of_slice {off : Nat} {cell : List UInt8} (hfit : off + cell.length ≤ PAGE_SIZE)
    (hlong : 12 ≤ cell.length) (hcell : d.slice off cell.length = cell) :
    readRowid d (off + 4) = .ok (cellKey cell) := by
  rw [readRowid, if_pos (by omega), cellKey]
  congr 2
  conv => rhs; rw [← hcell]
  exact (Buf.drop_take_slice d off cell.length 4 8 (by omega)).symm

theorem readU32_of_slice {off : Nat} {cell : List UInt8} (hfit : off + cell.length ≤ PAGE_SIZE)
    (hlong : 12 ≤ cell.length) (hcell : d.slice off cell.length = cell) :
    readU32 d off = .ok (cellHead cell) := by
  rw [readU32, if_pos (by omega), cellHead, Buf.u32]
  congr 2
  conv => rhs; rw [← hcell]
  exact (Buf.drop_take_slice d off cell.length 0 4 (by omega)).symm

theorem Laid.key {cell : List UInt8} (h : Laid ty hdr d cells lo) (validate : Option Nat)
    (hget : cells[i]? = some cell) (hv : ∀ needed, validate = some needed → needed ≤ 12) :
    ∃ off, cellOffset hdr validate d i = .ok off ∧ off + cell.length ≤ PAGE_SIZE ∧
      d.slice off cell.length = cell ∧ readU32 d off = .ok (cellHead cell) ∧
      readRowid d (off + 4) = .ok (cellKey cell) := by
  have hlong := h.long cell (List.mem_of_getElem? hget)
  obtain ⟨off, hoff, hfit, hcell⟩ := h.cell validate hget fun needed hn => Nat.le_trans (hv needed hn) hlong
  exact ⟨off, hoff, hfit, hcell, readU32_of_slice hfit hlong hcell, readRowid_of_slice hfit hlong hcell⟩

end Read

section Search

variable {hdr lo : Nat} {d : PageData} {cells pre post : List (List UInt8)} {cell : List UInt8}
  {rowid : Int64} {validate : Option Nat}

def rowidSide (rowid : Int64) (cell : List UInt8) : Ordering :=
  if cellKey cell = rowid then .eq else if cellKey cell < rowid then .lt else .gt

def keySide (rowid : Int64) (cell : List UInt8) : Ordering :=
  if rowid < cellKey cell then .gt else .lt

theorem rowidSide_lt (h : (cellKey cell).toInt < rowid.toInt) : rowidSide rowid cell = .lt := by
  have hne : cellKey cell ≠ rowid := by
    rintro rfl
    exact Int.lt_irrefl _ h
  rw [rowidSide, if_neg hne, if_pos (Int64.lt_iff_toInt_lt.mpr h)]

theorem rowidSide_gt (h : rowid.toInt < (cellKey cell).toInt) : rowidSide rowid cell = .gt := by
  have hne : cellKey cell ≠ rowid := by
    rintro rfl
    exact Int.lt_irrefl _ h
  rw [rowidSide, if_neg hne, if_neg (fun hlt => by have := Int64.lt_iff_toInt_lt.mp hlt; omega)]

theorem keySide_gt (h : rowid.toInt < (cellKey cell).toInt) : keySide rowid cell = .gt :=
  if_pos (Int64.lt_iff_toInt_lt.mpr h)

theorem keySide_lt (h : (cellKey cell).toInt ≤ rowid.toInt) : keySide rowid cell = .lt :=
  if_neg fun hlt => by
    have := Int64.lt_iff_toInt_lt.mp hlt
    omega

theorem probeRowid_laid {ty : UInt8} (h : Laid ty LEAF_HEADER_SIZE d cells lo)
    (hv : ∀ needed, validate = some needed → needed ≤ 12) (i : Nat) (cell : List UInt8)
    (hget : cells[i]? = some cell) :
    probeRowid validate d rowid i = .ok (rowidSide rowid cell) := by
  obtain ⟨off, hoff, -, -, -, hkey⟩ := h.key validate hget hv
  simp only [probeRowid, hoff, hkey, bind, Except.bind, pure, Except.pure, rowidSide]

theorem probeKey_laid {ty : UInt8} (h : Laid ty INTERIOR_HEADER_SIZE d cells lo)
    (hv : ∀ needed, validate = some needed → needed ≤ 12) (i : Nat) (cell : List UInt8)
    (hget : cells[i]? = some cell) :
    probeKey validate d rowid i = .ok (keySide rowid cell) := by
  obtain ⟨off, hoff, -, -, -, hkey⟩ := h.key validate hget hv
  simp only [probeKey, hoff, hkey, bind, Except.bind, pure, Except.pure, keySide]

def Below (rowid : Int64) (cells : List (List UInt8)) : Prop :=
  ∀ c ∈ cells, (cellKey c).toInt < rowid.toInt

def Above (rowid : Int64) (cells : List (List UInt8)) : Prop :=
  ∀ c ∈ cells, rowid.toInt < (cellKey c).toInt

theorem search_miss (h : Laid LEAF_TABLE LEAF_HEADER_SIZE d (pre ++ post) lo)
    (hv : ∀ needed, validate = some needed → needed ≤ 12) (hpre : Below rowid pre)
    (hpost : Above rowid post) :
    bisect (probeRowid validate d rowid) (cellCount d) 0 (cellCount d) = .ok (false, pre.length) := by
  rw [h.count]
  exact bisect_miss (probeRowid_laid h hv) (fun c hc => rowidSide_lt (hpre c hc))
    fun c hc => rowidSide_gt (hpost c hc)

theorem search_hit (h : Laid LEAF_TABLE LEAF_HEADER_SIZE d (pre ++ cell :: post) lo)
    (hv : ∀ needed, validate = some needed → needed ≤ 12) (hpre : Below rowid pre)
    (hcell : cellKey cell = rowid) (hpost : Above rowid post) :
    bisect (probeRowid validate d rowid) (cellCount d) 0 (cellCount d) = .ok (true, pre.length) := by
  rw [h.count]
  exact bisect_hit (probeRowid_laid h hv) (fun c hc => rowidSide_lt (hpre c hc))
    (by rw [rowidSide, if_pos hcell]) fun c hc => rowidSide_gt (hpost c hc)

-- The search in an interior page goes behind the keys up to the rowid.
theorem search_key (h : Laid INTERIOR_TABLE INTERIOR_HEADER_SIZE d (pre ++ post) lo)
    (hv : ∀ needed, validate = some needed → needed ≤ 12)
    (hpre : ∀ c ∈ pre, (cellKey c).toInt ≤ rowid.toInt) (hpost : Above rowid post) :
    bisect (probeKey validate d rowid) (cellCount d) 0 (cellCount d) = .ok (false, pre.length) := by
  rw [h.count]
  exact bisect_miss (probeKey_laid h hv) (fun c hc => keySide_lt (hpre c hc))
    fun c hc => keySide_gt (hpost c hc)

theorem no_needed (needed : Nat) (h : (none : Option Nat) = some needed) : needed ≤ 12 := by
  cases h

theorem leafInsertIndex_miss (h : Laid LEAF_TABLE LEAF_HEADER_SIZE d (pre ++ post) lo)
    (hpre : Below rowid pre) (hpost : Above rowid post) :
    leafInsertIndex d rowid = .ok pre.length := by
  rw [leafInsertIndex, search_miss h no_needed hpre hpost]

def duplicateRowid (rowid : Int64) : Fault :=
  .Err (.ConstraintViolation ("UNIQUE constraint failed: rowid " ++ toString rowid))

theorem leafInsertIndex_hit (h : Laid LEAF_TABLE LEAF_HEADER_SIZE d (pre ++ cell :: post) lo)
    (hpre : Below rowid pre) (hcell : cellKey cell = rowid) (hpost : Above rowid post) :
    leafInsertIndex d rowid = .error (duplicateRowid rowid) := by
  rw [leafInsertIndex, search_hit h no_needed hpre hcell hpost]
  rfl

end Search

section Write

variable {ty : UInt8} {hdr lo idx : Nat} {d d' : PageData} {cells pre post : List (List UInt8)}
  {cell : List UInt8}

-- The links behind the header fields that every change of the cells rewrites.
def SameLinks (hdr : Nat) (d d' : PageData) : Prop := ∀ i, 5 ≤ i → i < hdr → d'.byte i = d.byte i

theorem SameLinks.u32 (h : SameLinks hdr d d') {off : Nat} (hlo : 5 ≤ off) (hhi : off + 4 ≤ hdr) :
    d'.u32 off = d.u32 off := by
  unfold Buf.u32
  congr 1
  exact Buf.slice_congr fun i hi => h _ (by omega) (by omega)

theorem Laid.congr (h : Laid ty hdr d cells lo) (htype : d'.byte 0 = d.byte 0)
    (hcount : d'.u16 1 = d.u16 1) (hoffset : d'.u16 3 = d.u16 3)
    (hbody : ∀ i, hdr ≤ i → d'.byte i = d.byte i) : Laid ty hdr d' cells lo := by
  have harray := h.array
  refine ⟨htype.trans h.type, hcount.trans h.count, hoffset.trans h.offset, ?_, h.long, h.header⟩
  obtain ⟨slots, hcells, hs⟩ := h.slots
  exact ⟨slots, hcells, hs.congr (fun i hi _ => hbody i hi) fun i hi _ => hbody i (by omega)⟩

theorem Laid.writeLink (h : Laid ty hdr d cells lo) (off : Nat) (bs : List UInt8) (hlo : 5 ≤ off)
    (hhi : off + bs.length ≤ hdr) : Laid ty hdr (d.write off bs) cells lo :=
  h.congr (Buf.byte_write_of_notMem _ _ _ (by omega)) (Buf.u16_write_of_disjoint _ (by omega))
    (Buf.u16_write_of_disjoint _ (by omega)) fun i hi => Buf.byte_write_of_notMem _ _ _ (by omega)

theorem laid_header {count : Nat} {slots : List (Nat × List UInt8)} (hhdr : 10 ≤ hdr)
    (hcount : count < 65536) (hlen : slots.length = count) (htype : d.byte 0 = ty)
    (hs : Slotted hdr lo d slots) (hlong : ∀ s ∈ slots, 12 ≤ s.2.length) :
    Laid ty hdr ((d.write 1 (leBytes 2 count)).write 3 (leBytes 2 lo)) (slots.map Prod.snd) lo := by
  have hlo := hs.lo_le
  have harray := hs.array
  have hpage : PAGE_SIZE = 4096 := rfl
  refine ⟨?_, ?_, ?_, ⟨slots, rfl, ?_⟩, ?_, hhdr⟩
  · rw [pageType, Buf.byte_write_of_notMem _ _ _ (by omega), Buf.byte_write_of_notMem _ _ _ (by omega)]
    exact htype
  · rw [cellCount, Buf.u16_write_of_disjoint _ (by omega), Buf.u16_write_same _ (by omega) hcount,
      List.length_map, hlen]
  · rw [Buf.u16_write_same _ (by omega) (by omega)]
  · refine hs.congr (fun i hi _ => ?_) fun i hi _ => ?_
    · rw [Buf.byte_write_of_notMem _ _ _ (by simp; omega),
        Buf.byte_write_of_notMem _ _ _ (by simp; omega)]
    · rw [Buf.byte_write_of_notMem _ _ _ (by simp; omega),
        Buf.byte_write_of_notMem _ _ _ (by simp; omega)]
  · intro c hc
    obtain ⟨s, hs', rfl⟩ := List.mem_map.mp hc
    exact hlong s hs'

theorem Laid.place (kind : String) (h : Laid ty hdr d (pre ++ post) lo) (hlong : 12 ≤ cell.length)
    (hroom : hdr + 2 * ((pre ++ post).length + 1) + cell.length ≤ lo) :
    ∃ d', placeCell kind hdr cell pre.length d = .ok d' ∧
      Laid ty hdr d' (pre ++ cell :: post) (lo - cell.length) ∧ SameLinks hdr d d' := by
  have hlo := h.lo_le
  have hpage : PAGE_SIZE = 4096 := rfl
  have hhdr := h.header
  have hlongs := h.long
  obtain ⟨slots, hcells, hs⟩ := h.slots
  have hlen : slots.length = (pre ++ post).length := by rw [← hcells, List.length_map]
  have hidx : pre.length ≤ slots.length := by rw [hlen]; simp
  have hfits : lo - cell.length + cell.length = lo := by omega
  have hput := hs.put hidx hfits (by omega)
  have hbyte : ∀ i, i < hdr →
      (putCell hdr d slots.length pre.length (lo - cell.length) cell).byte i = d.byte i := fun i hi =>
    byte_putCell_of_header (by omega) hidx (by omega) hi
  refine ⟨((putCell hdr d (cellCount d) pre.length (lo - cell.length) cell).write 1
      (leBytes 2 (cellCount d + 1))).write 3 (leBytes 2 (lo - cell.length)), ?_, ?_, ?_⟩
  · rw [placeCell, h.contentOffset, if_neg (by omega), if_neg (by rw [h.count]; omega)]
  · have hresult : (slots.insertIdx pre.length (lo - cell.length, cell)).map Prod.snd =
        pre ++ cell :: post := by
      rw [List.map_insertIdx, hcells]
      exact insertIdx_append_length pre post cell
    rw [← hresult, h.count, ← hlen]
    refine laid_header hhdr (by omega) (List.length_insertIdx_of_le_length hidx _)
      ((hbyte 0 (by omega)).trans h.type) hput fun s hs' => ?_
    rcases (List.mem_insertIdx hidx).mp hs' with rfl | hs'
    · exact hlong
    · exact hlongs s.2 (hcells ▸ List.mem_map_of_mem hs')
  · intro i hi hi'
    rw [Buf.byte_write_of_notMem _ _ _ (by simp; omega), Buf.byte_write_of_notMem _ _ _ (by simp; omega),
      h.count, ← hlen, hbyte i hi']

theorem Laid.patchHead {bs : List UInt8} (h : Laid ty hdr d (pre ++ cell :: post) lo)
    (hbs : bs.length = 4) :
    ∃ off, cellOffset hdr none d pre.length = .ok off ∧ off + 4 ≤ PAGE_SIZE ∧
      Laid ty hdr (d.write off bs) (pre ++ (bs ++ cell.drop 4) :: post) lo ∧
      SameLinks hdr d (d.write off bs) := by
  have hget : (pre ++ cell :: post)[pre.length]? = some cell := by simp
  have hlong := h.long cell (by simp)
  have hlongs := h.long
  have hlo := h.lo_le
  have harray := h.array
  have hhdr := h.header
  obtain ⟨slots, hcells, hs⟩ := h.slots
  have hslot := hget
  rw [← hcells, List.getElem?_map, Option.map_eq_some_iff] at hslot
  obtain ⟨⟨off, cell'⟩, hslot, rfl⟩ := hslot
  obtain ⟨hidx, hslot'⟩ := List.getElem?_eq_some_iff.mp hslot
  simp only at hlong hlongs hget hcells harray ⊢
  have hmem : (off, cell') ∈ slots := List.mem_of_getElem? hslot
  have habove := hs.above _ hmem
  have hwithin := hs.within _ hmem
  simp only at habove hwithin
  have hlen : slots.length = (pre ++ cell' :: post).length := by rw [← hcells, List.length_map]
  have hread : readU16 d (hdr + 2 * pre.length) = .ok off := by
    rw [readU16, if_pos (by omega), hs.pointer _ hidx, hslot']
  have hpatch := hs.patch hslot (by omega : bs.length ≤ cell'.length)
  have hbody : ∀ i, i < lo → (d.write off bs).byte i = d.byte i := fun i hi =>
    Buf.byte_write_of_notMem _ _ _ (by omega)
  have hresult : (slots.set pre.length (off, bs ++ cell'.drop bs.length)).map Prod.snd =
      pre ++ (bs ++ cell'.drop 4) :: post := by
    rw [List.map_set, hcells, hbs, List.set_append_right _ _ (Nat.le_refl _)]
    simp
  refine ⟨off, ?_, by omega, ?_, fun i _ hi => hbody i (by omega)⟩
  · rw [cellOffset, hread]
    rfl
  · refine ⟨(hbody 0 (by omega)).trans h.type, ?_, ?_, ⟨_, hresult, hpatch⟩, ?_, hhdr⟩
    · rw [cellCount, Buf.u16_congr (hbody 1 (by omega)) (hbody 2 (by omega))]
      rw [show d.u16 1 = _ from h.count]
      simp
    · rw [Buf.u16_congr (hbody 3 (by omega)) (hbody 4 (by omega))]
      exact h.offset
    · intro c hc
      rcases List.mem_append.mp hc with hc | hc
      · exact hlongs c (List.mem_append_left _ hc)
      · rcases List.mem_cons.mp hc with rfl | hc
        · simp only [List.length_append, List.length_drop]
          omega
        · exact hlongs c (List.mem_append_right _ (List.mem_cons_of_mem _ hc))

def overflowFirst (cell : List UInt8) : Option Nat :=
  if OVERFLOW_FLAG ≤ cellHead cell then some (leNat ((cell.drop 16).take 4)) else none

theorem Laid.remove (h : Laid LEAF_TABLE LEAF_HEADER_SIZE d (pre ++ cell :: post) lo)
    (hstub : OVERFLOW_FLAG ≤ cellHead cell → 20 ≤ cell.length) :
    ∃ d', removeCell pre.length d = .ok (overflowFirst cell, d') ∧
      Laid LEAF_TABLE LEAF_HEADER_SIZE d' (pre ++ post) lo ∧ SameLinks LEAF_HEADER_SIZE d d' := by
  have hget : (pre ++ cell :: post)[pre.length]? = some cell := by simp
  obtain ⟨off, hoff, hfit, hcell, hhead, -⟩ := h.key (some 12) hget (by simp)
  have hlo := h.lo_le
  have harray := h.array
  have hcount := h.count
  have hlongs := h.long
  have hpage : PAGE_SIZE = 4096 := rfl
  have hhdr : LEAF_HEADER_SIZE = 14 := rfl
  obtain ⟨slots, hcells, hs⟩ := h.slots
  have hlen : slots.length = cellCount d := by rw [hcount, ← hcells, List.length_map]
  have hidx : pre.length < slots.length := by rw [hlen, hcount]; simp
  have hdrop := hs.drop hidx
  have hbyte : ∀ i, i < LEAF_HEADER_SIZE →
      (dropPointer LEAF_HEADER_SIZE d slots.length pre.length).byte i = d.byte i := fun i hi => by
    rw [byte_dropPointer hidx (by have := hs.array; omega), if_neg (by omega)]
  have herase : (slots.eraseIdx pre.length).map Prod.snd = pre ++ post := by
    rw [← List.eraseIdx_map, hcells, List.eraseIdx_append_of_length_le (Nat.le_refl _)]
    simp
  refine ⟨(dropPointer LEAF_HEADER_SIZE d (cellCount d) pre.length).write 1
    (leBytes 2 (cellCount d - 1)), ?_, ?_, ?_⟩
  · have hfirst : overflowPointer d off (cellHead cell) = .ok (overflowFirst cell) := by
      unfold overflowPointer overflowFirst
      split_ifs with hflag
      · have h20 := hstub hflag
        rw [readU32, if_pos (by omega), Buf.u32, ← Buf.drop_take_slice d off cell.length 16 4 (by omega),
          hcell]
        rfl
      · rfl
    have hpanic : ¬(pre.length + 1 < cellCount d ∧ PAGE_SIZE < LEAF_HEADER_SIZE + 2 * cellCount d) := by
      rw [hcount]
      omega
    simp only [removeCell, hoff, hhead, bind, Except.bind, hfirst]
    rw [if_neg hpanic]
  · rw [← herase]
    refine ⟨?_, ?_, ?_, ⟨_, rfl, ?_⟩, ?_, h.header⟩
    · rw [pageType, Buf.byte_write_of_notMem _ _ _ (by omega), ← hlen, hbyte 0 (by omega)]
      exact h.type
    · rw [cellCount, Buf.u16_write_same _ (by omega) (by omega), List.length_map,
        List.length_eraseIdx_of_lt hidx, hlen]
    · rw [Buf.u16_write_of_disjoint _ (by simp), ← hlen,
        Buf.u16_congr (hbyte 3 (by omega)) (hbyte 4 (by omega))]
      exact h.offset
    · rw [← hlen]
      exact hdrop.congr (fun i hi _ => Buf.byte_write_of_notMem _ _ _ (by simp; omega))
        fun i hi _ => Buf.byte_write_of_notMem _ _ _ (by simp; omega)
    · intro c hc
      rw [herase] at hc
      refine hlongs c ?_
      rcases List.mem_append.mp hc with hc | hc
      · exact List.mem_append_left _ hc
      · exact List.mem_append_right _ (List.mem_cons_of_mem _ hc)
  · intro i hi hi'
    rw [Buf.byte_write_of_notMem _ _ _ (by simp; omega), ← hlen, hbyte i hi']

theorem laid_fresh (ty : UInt8) (hdr : Nat) (d₀ : PageData) (ext : Nat) (hhdr : 10 ≤ hdr)
    (hle : hdr ≤ PAGE_SIZE)
    (hd : d = ((((d₀.write 0 [ty]).write 1 (leBytes 2 0)).write 3 (leBytes 2 pageSizeToU16)).write 5
      [0]).write 6 (leBytes 4 ext)) : Laid ty hdr d [] PAGE_SIZE := by
  have hsize : pageSizeToU16 = PAGE_SIZE := by decide
  have hpage : PAGE_SIZE = 4096 := rfl
  subst hd
  refine ⟨?_, ?_, ?_, ⟨[], rfl, slotted_nil hle (Nat.le_refl _) (by omega)⟩,
    fun c hc => absurd hc List.not_mem_nil, hhdr⟩
  · rw [pageType, Buf.byte_write_of_notMem _ _ _ (by simp), Buf.byte_write_of_notMem _ _ _ (by simp),
      Buf.byte_write_of_notMem _ _ _ (by simp), Buf.byte_write_of_notMem _ _ _ (by simp),
      Buf.byte_write _ (by simp; omega), if_pos (by simp)]
    rfl
  · rw [cellCount, Buf.u16_write_of_disjoint _ (by simp), Buf.u16_write_of_disjoint _ (by simp),
      Buf.u16_write_of_disjoint _ (by simp), Buf.u16_write_same _ (by omega) (by omega)]
    rfl
  · rw [Buf.u16_write_of_disjoint _ (by simp), Buf.u16_write_of_disjoint _ (by simp),
      Buf.u16_write_same _ (by omega) (by omega), hsize]

theorem laid_writeHeader_leaf (d : PageData) :
    Laid LEAF_TABLE LEAF_HEADER_SIZE (writeHeader LEAF_TABLE 0 d) [] PAGE_SIZE ∧
      nextLeaf (writeHeader LEAF_TABLE 0 d) = 0 ∧ prevLeaf (writeHeader LEAF_TABLE 0 d) = 0 := by
  have hpage : PAGE_SIZE = 4096 := rfl
  have h := laid_fresh LEAF_TABLE LEAF_HEADER_SIZE d 0 (by decide) (by decide) rfl
  refine ⟨h.writeLink 10 (leBytes 4 0) (by omega) (by decide), ?_, ?_⟩
  · show Buf.u32 (Buf.write _ 10 (leBytes 4 0)) 6 = 0
    rw [Buf.u32_write_of_disjoint _ (by simp), Buf.u32_write_same _ (by omega) (by omega)]
  · exact Buf.u32_write_same _ (by omega) (by omega)

theorem laid_writeHeader_interior {ext : Nat} (d : PageData) (hext : ext < 2 ^ 32) :
    Laid INTERIOR_TABLE INTERIOR_HEADER_SIZE (writeHeader INTERIOR_TABLE ext d) [] PAGE_SIZE ∧
      rightChild (writeHeader INTERIOR_TABLE ext d) = ext := by
  have hpage : PAGE_SIZE = 4096 := rfl
  exact ⟨laid_fresh INTERIOR_TABLE INTERIOR_HEADER_SIZE d ext (by decide) (by decide) rfl,
    Buf.u32_write_same _ (by omega) (by simpa using hext)⟩

end Write

section Collect

variable {lo : Nat} {d : PageData} {cells : List (List UInt8)}

def cellSize (cell : List UInt8) : Nat := if OVERFLOW_FLAG ≤ cellHead cell then 20 else 12 + cellHead cell

theorem leafCells_laid (h : Laid LEAF_TABLE LEAF_HEADER_SIZE d cells lo)
    (hsize : ∀ c ∈ cells, cellSize c = c.length) :
    leafCells d = .ok (cells.map fun c => (cellKey c, c)) := by
  have hlen : cellCount d = (cells.map fun c => (cellKey c, c)).length := by
    rw [h.count, List.length_map]
  rw [leafCells, hlen]
  refine mapM_range_ok fun i x hx => ?_
  rw [List.getElem?_map, Option.map_eq_some_iff] at hx
  obtain ⟨cell, hget, rfl⟩ := hx
  obtain ⟨off, hoff, hfit, hcell, hhead, hkey⟩ := h.key (some 12) hget (by simp)
  have hcellSize := hsize cell (List.mem_of_getElem? hget)
  have hvalid : validateCellOffset off cell.length = .ok () := by
    rw [validateCellOffset, if_neg (by omega)]
  rw [cellSize] at hcellSize
  simp only [leafCell, hoff, hhead, hkey, bind, Except.bind, hcellSize, hvalid, hcell]
  rfl

end Collect

end BTree

end Kkdb
