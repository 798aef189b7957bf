import Kkdb.BTree.MaxRowid

namespace Kkdb

open Lib

abbrev TracedM := EStateM Fault (Pager × List Nat)

namespace BTree

section Stats

variable [Lz4Flex]

def tracedGetPage (page : Nat) : TracedM Page := fun sys =>
  match Pager.getPage page sys.1 with
  | .ok pg s => .ok pg (s, sys.2 ++ [page])
  | .error e s => .error e (s, sys.2 ++ [page])

-- The offsets of the cells, without those of cells that would begin too near the end of the page.
def cellOffsets (hdr needed : Nat) (data : PageData) : Nat → Nat → List Nat
  | 0, _ => []
  | count + 1, i =>
      if PAGE_SIZE < hdr + 2 * i + 2 then []
      else
        let off := u16ToPageSize (data.u16 (hdr + 2 * i))
        if PAGE_SIZE < off + needed then cellOffsets hdr needed data count (i + 1)
        else off :: cellOffsets hdr needed data count (i + 1)

def overflowStart (data : PageData) (off : Nat) : Option Nat :=
  if PAGE_SIZE - 12 < data.u32 off then some (data.u32 (off + 8)) else none

def overflowStarts (data : PageData) : List Nat :=
  (cellOffsets LEAF_HEADER_SIZE 12 data (cellCount data) 0).filterMap (overflowStart data)

def statsChildren (data : PageData) : List Nat :=
  (cellOffsets INTERIOR_HEADER_SIZE 4 data (cellCount data) 0).map (fun off => data.u32 off) ++
  [rightChild data]

structure FragStats where
  leaves : Nat
  frag : Nat
  overflow : Nat
  free : Nat
  deriving DecidableEq, Repr

def countOverflowPages : Nat → Nat → TracedM Nat
  | 0, _ => throw .Hang
  | fuel + 1, cur =>
      if cur = 0 then return 0
      else do
        let pg ← tracedGetPage cur
        let count ← countOverflowPages fuel (pg.data.u32 0)
        return count + 1

def addOverflow (limit : Nat) (acc : FragStats) (first : Nat) : TracedM FragStats := do
  let count ← countOverflowPages limit first
  return { acc with overflow := acc.overflow + count }

def addLeaf (data : PageData) (acc : FragStats) : FragStats where
  leaves := acc.leaves + 1
  frag := acc.frag + (data.byte 5).toNat
  overflow := acc.overflow
  free := acc.free + (cellContentOffset data - (LEAF_HEADER_SIZE + 2 * cellCount data))

-- The page is read a second time for its cells. The links that end are no longer than the number of
-- pages, and so are the paths down the tree.
def collectFragStats (limit : Nat) : Nat → Nat → FragStats → TracedM FragStats
  | 0, _, _ => throw .Hang
  | fuel + 1, page, acc => do
      let pg ← tracedGetPage page
      if pageType pg.data = LEAF_TABLE then do
        let acc := addLeaf pg.data acc
        let pg ← tracedGetPage page
        (overflowStarts pg.data).foldlM (addOverflow limit) acc
      else if pageType pg.data = INTERIOR_TABLE then do
        let pg ← tracedGetPage page
        (statsChildren pg.data).foldlM (fun acc child => collectFragStats limit fuel child acc) acc
      else return acc

def fragmentationStats (root : Nat) : TracedM FragStats := do
  let sys ← get
  collectFragStats (sys.1.header.totalPages + 1) (sys.1.header.totalPages + 1) root ⟨0, 0, 0, 0⟩

end Stats

section Heap

variable [Lz4Flex] {H : Heap} {total page : Nat} {s s' : Pager} {log log' : List Nat} {pg : Page} {d : PageData}

theorem tracedGetPage_owns (hO : Owns H total s) (hp : H page = some d) :
    Yields (tracedGetPage page) (s, log) fun pg sys =>
      pg.data = d ∧ sys.2 = log ++ [page] ∧ Owns H total sys.1 := by
  obtain ⟨pg, s', hget, hdata, hO'⟩ := getPage_owns hO hp
  exact ⟨pg, (s', log ++ [page]), by rw [tracedGetPage, hget], hdata, rfl, hO'⟩

theorem tracedGetPage_ok (hO : Owns H total s) (hrun : tracedGetPage page (s, log) = .ok pg (s', log')) :
    log' = log ++ [page] ∧ Owns H total s' ∧ ∀ d, H page = some d → pg.data = d := by
  rw [tracedGetPage] at hrun
  cases hget : Pager.getPage page s with
  | error e s₁ =>
      rw [hget] at hrun
      cases hrun
  | ok pg' s₁ =>
      rw [hget] at hrun
      obtain ⟨rfl, hsys⟩ := EStateM.Result.ok.inj hrun
      obtain ⟨rfl, rfl⟩ := Prod.mk.inj hsys
      have hkeeps := getPage_keeps hO page
      rw [left_ok hget] at hkeeps
      refine ⟨rfl, hkeeps, fun d hd => ?_⟩
      exact ((getPage_owns hO hd).ok hget).1

end Heap

def followAll (view : Nat → PageData) (limit : Nat) (starts : List Nat) : Option (List Nat) :=
  (starts.mapM fun first => followLinks view (fun data => data.u32 0) limit first).map List.flatten

section Follow

variable {view : Nat → PageData} {limit : Nat} {first : Nat} {starts starts' walk walk' : List Nat}

theorem followAll_nil : followAll view limit [] = some [] := rfl

theorem followAll_cons_iff : followAll view limit (first :: starts) = some walk ↔
    ∃ w ws, followLinks view (fun data => data.u32 0) limit first = some w ∧
      followAll view limit starts = some ws ∧ walk = w ++ ws := by
  rw [followAll, List.mapM_cons]
  cases hfirst : followLinks view (fun data => data.u32 0) limit first with
  | none => simp
  | some w =>
      rw [followAll]
      cases hrest : starts.mapM fun first => followLinks view (fun data => data.u32 0) limit first with
      | none => simp
      | some ws => simp [eq_comm]

theorem followAll_append_iff : followAll view limit (starts ++ starts') = some walk ↔
    ∃ w w', followAll view limit starts = some w ∧ followAll view limit starts' = some w' ∧ walk = w ++ w' := by
  induction starts generalizing walk with
  | nil => simp [followAll_nil, eq_comm]
  | cons first starts ih =>
      rw [List.cons_append, followAll_cons_iff]
      constructor
      · rintro ⟨w, ws, hw, hws, rfl⟩
        obtain ⟨w₁, w₂, h₁, h₂, rfl⟩ := ih.mp hws
        exact ⟨w ++ w₁, w₂, followAll_cons_iff.mpr ⟨w, w₁, hw, h₁, rfl⟩, h₂, (List.append_assoc ..).symm⟩
      · rintro ⟨ws, w₂, hws, h₂, rfl⟩
        obtain ⟨w, w₁, hw, h₁, rfl⟩ := followAll_cons_iff.mp hws
        exact ⟨w, w₁ ++ w₂, hw, ih.mpr ⟨w₁, w₂, h₁, h₂, rfl⟩, List.append_assoc ..⟩

end Follow

def Owned (H : Heap) (ps : List Nat) : Prop := ∀ p ∈ ps, ∃ d, H p = some d

theorem owned_append {H : Heap} {ps qs : List Nat} : Owned H (ps ++ qs) ↔ Owned H ps ∧ Owned H qs :=
  List.forall_mem_append

section Count

variable [Lz4Flex] {H : Heap} {view : Nat → PageData} {total limit fuel cur count : Nat} {s s' : Pager}
  {log log' starts walk : List Nat} {acc acc' : FragStats}

theorem countOverflowPages_owns (hview : ∀ p d, H p = some d → view p = d) (hO : Owns H total s)
    (hwalk : followLinks view (fun data => data.u32 0) fuel cur = some walk) (howned : Owned H walk) :
    Yields (countOverflowPages fuel cur) (s, log) fun count sys =>
      count = walk.length ∧ sys.2 = log ++ walk ∧ Owns H total sys.1 := by
  induction fuel generalizing cur s log walk with
  | zero => cases hwalk
  | succ fuel ih =>
      rw [followLinks] at hwalk
      rw [countOverflowPages]
      by_cases hzero : cur = 0
      · rw [if_pos hzero] at hwalk ⊢
        obtain rfl := Option.some.inj hwalk
        exact .pure ⟨rfl, (List.append_nil log).symm, hO⟩
      · rw [if_neg hzero, Option.map_eq_some_iff] at hwalk
        obtain ⟨rest, hrest, rfl⟩ := hwalk
        obtain ⟨d, hd⟩ := howned cur List.mem_cons_self
        rw [if_neg hzero]
        refine (tracedGetPage_owns hO hd).bind fun pg sys hstep => ?_
        obtain ⟨hdata, hlog, hO₁⟩ := hstep
        rw [hview cur d hd, ← hdata] at hrest
        refine (ih hO₁ hrest fun p hp => howned p (List.mem_cons_of_mem _ hp)).bind fun n sys hstep => ?_
        obtain ⟨hn, hlog', hO₂⟩ := hstep
        refine .pure ⟨?_, ?_, hO₂⟩
        · rw [hn, List.length_cons]
        · rw [hlog', hlog, List.append_assoc, List.singleton_append]

theorem countOverflowPages_ok (hview : ∀ p d, H p = some d → view p = d) (hO : Owns H total s)
    (hrun : countOverflowPages fuel cur (s, log) = .ok count (s', log')) :
    ∃ walk, count = walk.length ∧ log' = log ++ walk ∧ Owns H total s' ∧
      (Owned H walk → followLinks view (fun data => data.u32 0) fuel cur = some walk) := by
  induction fuel generalizing cur s log count with
  | zero => cases hrun
  | succ fuel ih =>
      rw [countOverflowPages] at hrun
      by_cases hzero : cur = 0
      · rw [if_pos hzero] at hrun
        obtain ⟨rfl, hsys⟩ := EStateM.Result.ok.inj hrun
        obtain ⟨rfl, rfl⟩ := Prod.mk.inj hsys
        refine ⟨[], rfl, (List.append_nil log).symm, hO, fun _ => ?_⟩
        rw [followLinks, if_pos hzero]
      · rw [if_neg hzero] at hrun
        obtain ⟨pg, ⟨s₁, log₁⟩, hget, hrun⟩ := ok_of_bind_state hrun
        obtain ⟨n, ⟨s₂, log₂⟩, hcount, hrun⟩ := ok_of_bind_state hrun
        obtain ⟨rfl, hsys⟩ := EStateM.Result.ok.inj hrun
        obtain ⟨rfl, rfl⟩ := Prod.mk.inj hsys
        obtain ⟨rfl, hO₁, hdata⟩ := tracedGetPage_ok hO hget
        obtain ⟨walk, rfl, rfl, hO₂, hwalk⟩ := ih hO₁ hcount
        refine ⟨cur :: walk, rfl, by rw [List.append_assoc, List.singleton_append], hO₂, fun howned => ?_⟩
        obtain ⟨d, hd⟩ := howned cur List.mem_cons_self
        have hlink := hwalk fun p hp => howned p (List.mem_cons_of_mem _ hp)
        rw [hdata d hd] at hlink
        rw [followLinks, if_neg hzero, hview cur d hd, hlink, Option.map_some]

theorem foldOverflow_owns (hview : ∀ p d, H p = some d → view p = d) (hO : Owns H total s)
    (hwalk : followAll view limit starts = some walk) (howned : Owned H walk) :
    Yields (starts.foldlM (addOverflow limit) acc) (s, log) fun acc' sys =>
      acc'.overflow = acc.overflow + walk.length ∧ sys.2 = log ++ walk ∧ Owns H total sys.1 := by
  induction starts generalizing s log walk acc with
  | nil =>
      obtain rfl := Option.some.inj hwalk
      exact .pure ⟨rfl, (List.append_nil log).symm, hO⟩
  | cons first starts ih =>
      obtain ⟨w, ws, hw, hws, rfl⟩ := followAll_cons_iff.mp hwalk
      obtain ⟨hown, hown'⟩ := owned_append.mp howned
      rw [List.foldlM_cons, addOverflow, bind_assoc]
      refine (countOverflowPages_owns hview hO hw hown).bind fun n sys hstep => ?_
      obtain ⟨hn, hlog, hO₁⟩ := hstep
      rw [pure_bind]
      refine (ih hO₁ hws hown').mono fun acc' sys' hstep => ?_
      obtain ⟨hacc, hlog', hO₂⟩ := hstep
      refine ⟨?_, ?_, hO₂⟩
      · rw [hacc, hn, List.length_append, Nat.add_assoc]
      · rw [hlog', hlog, List.append_assoc]

theorem foldOverflow_ok (hview : ∀ p d, H p = some d → view p = d) (hO : Owns H total s)
    (hrun : starts.foldlM (addOverflow limit) acc (s, log) = .ok acc' (s', log')) :
    ∃ walk, acc'.overflow = acc.overflow + walk.length ∧ log' = log ++ walk ∧ Owns H total s' ∧
      (Owned H walk → followAll view limit starts = some walk) := by
  induction starts generalizing s log acc with
  | nil =>
      obtain ⟨rfl, hsys⟩ := EStateM.Result.ok.inj hrun
      obtain ⟨rfl, rfl⟩ := Prod.mk.inj hsys
      exact ⟨[], rfl, (List.append_nil log).symm, hO, fun _ => rfl⟩
  | cons first starts ih =>
      rw [List.foldlM_cons] at hrun
      obtain ⟨acc₁, ⟨s₁, log₁⟩, hfirst, hrun⟩ := ok_of_bind_state hrun
      obtain ⟨n, ⟨s₂, log₂⟩, hcount, hfirst⟩ := ok_of_bind_state hfirst
      obtain ⟨rfl, hsys⟩ := EStateM.Result.ok.inj hfirst
      obtain ⟨rfl, rfl⟩ := Prod.mk.inj hsys
      obtain ⟨w, rfl, rfl, hO₁, hw⟩ := countOverflowPages_ok hview hO hcount
      obtain ⟨ws, hacc, rfl, hO₂, hws⟩ := ih hO₁ hrun
      refine ⟨w ++ ws, ?_, List.append_assoc .., hO₂, fun howned => ?_⟩
      · rw [hacc, List.length_append, Nat.add_assoc]
      · obtain ⟨hown, hown'⟩ := owned_append.mp howned
        exact followAll_cons_iff.mpr ⟨w, ws, hw hown, hws hown', rfl⟩

end Count

section Cells

variable {α : Type} {ty : UInt8} {hdr needed lo : Nat} {d : PageData} {cells : List (List UInt8)} {f : Nat → α}
  {g : List UInt8 → α}

theorem Slotted.cellOffsets {slots : List (Nat × List UInt8)} (h : Slotted hdr lo d slots) (hhdr : 10 ≤ hdr)
    (hlong : ∀ slot ∈ slots, needed ≤ slot.2.length) (count i : Nat) (hcount : i + count = slots.length) :
    BTree.cellOffsets hdr needed d count i = (slots.drop i).map Prod.fst := by
  induction count generalizing i with
  | zero =>
      rw [List.drop_of_length_le (by omega)]
      rfl
  | succ count ih =>
      have hi : i < slots.length := by omega
      have hmem := List.getElem_mem hi
      have harray := h.array
      have hlo := h.lo_le
      have habove := h.above _ hmem
      have hwithin := h.within _ hmem
      have hneeded := hlong _ hmem
      have hsize : u16ToPageSize slots[i].1 = slots[i].1 := by rw [u16ToPageSize, if_neg (by omega)]
      rw [BTree.cellOffsets, if_neg (by omega), h.pointer i hi, hsize, if_neg (by omega), ih (i + 1) (by omega),
        List.drop_eq_getElem_cons hi, List.map_cons]

theorem Laid.cellOffsets (h : Laid ty hdr d cells lo) (hneeded : needed ≤ 12)
    (hread : ∀ off, ∀ c ∈ cells, off + c.length ≤ PAGE_SIZE → d.slice off c.length = c → f off = g c) :
    (BTree.cellOffsets hdr needed d (cellCount d) 0).map f = cells.map g := by
  have hcount := h.count
  have hlong := h.long
  obtain ⟨slots, rfl, hs⟩ := h.slots
  rw [List.length_map] at hcount
  have hneed : ∀ slot ∈ slots, needed ≤ slot.2.length := fun slot hslot =>
    Nat.le_trans hneeded (hlong _ (List.mem_map_of_mem hslot))
  rw [Slotted.cellOffsets hs h.header hneed (cellCount d) 0 (by omega), List.drop_zero, List.map_map,
    List.map_map]
  exact List.map_congr_left fun slot hslot =>
    hread _ _ (List.mem_map_of_mem hslot) (hs.within _ hslot) (hs.cell _ hslot)

end Cells

def upperHalf (rowid : Int64) : Nat := rowid.toUInt64.toNat / 2 ^ 32

theorem leBytes_succ_drop (width value : Nat) : (leBytes (width + 4) value).drop 4 = leBytes width
    (value / 2 ^ 32) := by
  simp only [leBytes, List.drop_succ_cons, List.drop_zero, Nat.div_div_eq_div_mul]
  rfl

theorem rowidBytes_upper (rowid : Int64) : leNat ((rowidBytes rowid).drop 4) = upperHalf rowid := by
  have hlt : rowid.toUInt64.toNat < 2 ^ 64 := rowid.toUInt64.toNat_lt
  rw [rowidBytes, leBytes_succ_drop, leNat_leBytes_of_lt (by omega), upperHalf]

def Cell.overflows (c : Cell) : Bool := needsOverflow c.payload

section Leaf

variable {d : PageData} {cells : List Cell} {lo next prev : Nat}

theorem cell_upper (c : Cell) : leNat ((c.bytes.drop 8).take 4) = upperHalf c.rowid := by
  have hshape : ∃ head tail : List UInt8, head.length = 4 ∧ c.bytes = head ++ (rowidBytes c.rowid ++ tail) := by
    rw [Cell.bytes]
    split_ifs
    · exact ⟨_, _, length_leBytes 4 _, rfl⟩
    · exact ⟨_, _, length_leBytes 4 _, rfl⟩
  obtain ⟨head, tail, hhead, hbytes⟩ := hshape
  have hlen := length_rowidBytes c.rowid
  rw [hbytes, show 8 = 4 + 4 from rfl, ← List.drop_drop, List.drop_left' hhead,
    List.drop_append_of_le_length (by omega), List.take_left' (by rw [List.length_drop]; omega), rowidBytes_upper]

theorem overflowStart_slice {off : Nat} {cell : List UInt8} (hlong : 12 ≤ cell.length)
    (hcell : d.slice off cell.length = cell) :
    overflowStart d off = if PAGE_SIZE - 12 < cellHead cell then some
      (leNat ((cell.drop 8).take 4)) else none := by
  have hhead := Buf.drop_take_slice d off cell.length 0 4 (by omega)
  have hupper := Buf.drop_take_slice d off cell.length 8 4 (by omega)
  rw [hcell] at hhead hupper
  rw [List.drop_zero, Nat.add_zero] at hhead
  rw [overflowStart, Buf.u32, Buf.u32, ← hhead, ← hupper, cellHead]

theorem large_cellHead (c : Cell) : PAGE_SIZE - 12 < cellHead c.bytes ↔ c.overflows = true := by
  have hpage : PAGE_SIZE = 4096 := rfl
  have hflag : OVERFLOW_FLAG = 2147483648 := rfl
  rw [Cell.cellHead_bytes, Cell.overflows]
  cases hover : needsOverflow c.payload with
  | true => simp only [if_true, hflag, hpage, iff_true]; omega
  | false =>
      have hsmall := Cell.inline_small hover
      simp only [Bool.false_eq_true, if_false, iff_false]
      omega

theorem filterMap_filter {α β : Type} (p : α → Bool) (f : α → β) (xs : List α) :
    xs.filterMap (fun x => if p x then some (f x) else none) = (xs.filter p).map f := by
  induction xs with
  | nil => rfl
  | cons x xs ih =>
      cases hx : p x with
      | true => rw [List.filterMap_cons, List.filter_cons, hx, if_pos rfl, if_pos rfl, ih, List.map_cons]
      | false => rw [List.filterMap_cons, List.filter_cons, hx, if_neg Bool.false_ne_true,
            if_neg Bool.false_ne_true, ih]

-- The words that are taken for the first pages of chains are the upper halves of rowids.
theorem LeafAt.overflowStarts (h : LeafAt d cells lo next prev) :
    BTree.overflowStarts d = (cells.filter Cell.overflows).map fun c => upperHalf c.rowid := by
  have hread : ∀ off, ∀ cell ∈ cells.map Cell.bytes, off + cell.length ≤ PAGE_SIZE →
      d.slice off cell.length = cell → overflowStart d off =
        if PAGE_SIZE - 12 < cellHead cell then some (leNat ((cell.drop 8).take 4)) else none :=
    fun off cell hmem _ hcell => overflowStart_slice (h.laid.long cell hmem) hcell
  have hmap := congrArg (List.filterMap id) (h.laid.cellOffsets (Nat.le_refl 12) hread)
  rw [List.filterMap_map, Function.id_comp, List.map_map, List.filterMap_map, Function.id_comp] at hmap
  rw [BTree.overflowStarts, hmap, ← filterMap_filter]
  congr 1
  funext c
  simp only [Function.comp_apply, large_cellHead, cell_upper]

end Leaf

theorem InteriorAt.statsChildren {d : PageData} {entries : List (Nat × Int64)} {right : Nat}
    (h : InteriorAt d entries right) : BTree.statsChildren d = entries.map Prod.fst ++ [right] := by
  have hread : ∀ off, ∀ cell ∈ entries.map (fun e => makeInteriorCell e.1 e.2), off + cell.length ≤ PAGE_SIZE →
      d.slice off cell.length = cell → d.u32 off = cellHead cell := fun off cell hmem _ hcell => by
    have hlong := h.laid.long cell hmem
    have hhead := Buf.drop_take_slice d off cell.length 0 4 (by omega)
    rw [hcell, List.drop_zero, Nat.add_zero] at hhead
    rw [Buf.u32, ← hhead, cellHead]
  have hright : rightChild d = right := h.link
  rw [BTree.statsChildren, h.laid.cellOffsets (by decide) hread, hright, List.map_map]
  congr 1
  refine List.map_congr_left fun e he => ?_
  rw [Function.comp_apply, makeInteriorCell, cellHead_append (h.small e he)]

def takenStarts (leaves : List Leaf) : List Nat :=
  ((cellsOf leaves).filter Cell.overflows).map fun c => upperHalf c.rowid

theorem takenStarts_append (xs ys : List Leaf) : takenStarts (xs ++ ys) = takenStarts xs ++ takenStarts ys := by
  rw [takenStarts, cellsOf_append, List.filter_append, List.map_append]
  rfl

theorem items_map {entries : List (Nat × Int64)} {right : Nat} (hi : Int) :
    entries.map Prod.fst ++ [right] = (items entries right hi).map Prod.fst := by
  rw [items, List.map_append, List.map_map]
  rfl

section Traverse

variable [Lz4Flex] {H : Heap} {view : Nat → PageData} {total limit fuel depth page : Nat} {lo hi : Int}
  {leaves : List Leaf} {inner log log' walk : List Nat} {s s' : Pager} {acc acc' : FragStats}

theorem collectFragStats_owns (hview : ∀ p d, H p = some d → view p = d) (hO : Owns H total s)
    (h : Sub H depth page lo hi leaves inner)
    (hleaf : ∀ l ∈ leaves, ∃ d lo next prev, H l.page = some d ∧ LeafAt d l.cells lo next prev)
    (hfuel : depth < fuel) (hwalk : followAll view limit (takenStarts leaves) = some walk)
    (howned : Owned H walk) :
    Yields (collectFragStats limit fuel page acc) (s, log) fun acc' sys =>
      acc'.overflow = acc.overflow + walk.length ∧
        (∀ p ∈ sys.2, p ∈ log ∨ p ∈ inner ∨ p ∈ leafPages leaves ∨ p ∈ walk) ∧ Owns H total sys.1 := by
  induction depth generalizing page lo hi leaves inner fuel s log walk acc with
  | zero =>
      obtain ⟨cells, rfl, rfl, -⟩ := h
      obtain ⟨d, _, _, _, hd, hat⟩ := hleaf ⟨page, cells⟩ List.mem_cons_self
      obtain ⟨fuel, rfl⟩ : ∃ n, fuel = n + 1 := ⟨fuel - 1, by omega⟩
      rw [collectFragStats]
      refine (tracedGetPage_owns hO hd).bind fun pg sys hstep => ?_
      obtain ⟨hdata, hlog, hO₁⟩ := hstep
      rw [hdata, hat.laid.type, if_pos rfl]
      refine (tracedGetPage_owns hO₁ hd).bind fun pg sys₂ hstep => ?_
      obtain ⟨hdata₂, hlog₂, hO₂⟩ := hstep
      have hstarts : takenStarts [⟨page, cells⟩] = overflowStarts pg.data := by
        rw [hdata₂, hat.overflowStarts, takenStarts, cellsOf_cons, cellsOf_nil, List.append_nil]
      rw [hstarts] at hwalk
      refine (foldOverflow_owns hview hO₂ hwalk howned).mono fun acc' sys₃ hstep => ?_
      obtain ⟨hacc, hlog₃, hO₃⟩ := hstep
      refine ⟨hacc, fun p hp => ?_, hO₃⟩
      rw [hlog₃, hlog₂, hlog] at hp
      simp only [List.mem_append, List.mem_singleton] at hp
      rcases hp with ((hp | rfl) | rfl) | hp
      · exact .inl hp
      · exact .inr (.inr (.inl (by simp)))
      · exact .inr (.inr (.inl (by simp)))
      · exact .inr (.inr (.inr hp))
  | succ depth ih =>
      obtain ⟨d, entries, right, below, hd, hint, rfl, -, -, hkids⟩ := h
      obtain ⟨fuel, rfl⟩ : ∃ n, fuel = n + 1 := ⟨fuel - 1, by omega⟩
      rw [collectFragStats]
      refine (tracedGetPage_owns hO hd).bind fun pg sys hstep => ?_
      obtain ⟨hdata, hlog, hO₁⟩ := hstep
      rw [hdata, hint.laid.type, if_neg interior_ne_leaf, if_pos rfl]
      refine (tracedGetPage_owns hO₁ hd).bind fun pg sys₂ hstep => ?_
      obtain ⟨hdata₂, hlog₂, hO₂⟩ := hstep
      -- one child after the other
      have hall : ∀ (xs : List (Nat × Int)) (lo : Int) (leaves : List Leaf) (inner log walk : List Nat)
          (s : Pager)
          (acc : FragStats), Owns H total s → Kids (Sub H depth) lo xs leaves inner →
          (∀ l ∈ leaves, ∃ d lo next prev, H l.page = some d ∧ LeafAt d l.cells lo next prev) →
          followAll view limit (takenStarts leaves) = some walk → Owned H walk →
          Yields ((xs.map Prod.fst).foldlM (fun acc child => collectFragStats limit fuel child acc) acc)
            (s, log)
            fun acc' sys => acc'.overflow = acc.overflow + walk.length ∧
              (∀ p ∈ sys.2, p ∈ log ∨ p ∈ inner ∨ p ∈ leafPages leaves ∨ p ∈ walk) ∧ Owns H total sys.1 := by
        intro xs
        induction xs with
        | nil =>
            rintro lo leaves inner log walk s acc hO ⟨rfl, -⟩ - hwalk -
            obtain rfl := Option.some.inj hwalk
            exact .pure ⟨rfl, fun p hp => .inl hp, hO⟩
        | cons x xs ihx =>
            rintro lo leaves inner log walk s acc hO ⟨l₁, l₂, i₁, i₂, rfl, rfl, hchild,
              hrest⟩ hleaf hwalk howned
            rw [takenStarts_append] at hwalk
            obtain ⟨w₁, w₂, hw₁, hw₂, rfl⟩ := followAll_append_iff.mp hwalk
            obtain ⟨hown₁, hown₂⟩ := owned_append.mp howned
            rw [List.map_cons, List.foldlM_cons]
            refine (ih hO hchild (fun l hl => hleaf l (List.mem_append_left _ hl)) (by omega) hw₁ hown₁).bind
              fun acc₁ sys hstep => ?_
            obtain ⟨hacc₁, hlog₁, hO₁⟩ := hstep
            refine (ihx _ _ _ _ _ _ _ hO₁ hrest
              (fun l hl => hleaf l (List.mem_append_right _ hl)) hw₂ hown₂).mono
              fun acc₂ sys₂ hstep => ?_
            obtain ⟨hacc₂, hlog₂, hO₂⟩ := hstep
            refine ⟨by rw [hacc₂, hacc₁, List.length_append, Nat.add_assoc], fun p hp => ?_, hO₂⟩
            simp only [leafPages_append, List.mem_append]
            rcases hlog₂ p hp with hp | hp | hp | hp
            · rcases hlog₁ p hp with hp | hp | hp | hp
              · exact .inl hp
              · exact .inr (.inl (.inl hp))
              · exact .inr (.inr (.inl (.inl hp)))
              · exact .inr (.inr (.inr (.inl hp)))
            · exact .inr (.inl (.inr hp))
            · exact .inr (.inr (.inl (.inr hp)))
            · exact .inr (.inr (.inr (.inr hp)))
      rw [hdata₂, hint.statsChildren, items_map hi]
      refine (hall _ _ _ _ _ _ _ _ hO₂ hkids hleaf hwalk howned).mono fun acc' sys₃ hstep => ?_
      obtain ⟨hacc, hlog₃, hO₃⟩ := hstep
      refine ⟨hacc, fun p hp => ?_, hO₃⟩
      rcases hlog₃ p hp with hp | hp | hp | hp
      · rw [hlog₂, hlog] at hp
        simp only [List.mem_append, List.mem_singleton] at hp
        rcases hp with (hp | rfl) | rfl
        · exact .inl hp
        · exact .inr (.inl List.mem_cons_self)
        · exact .inr (.inl List.mem_cons_self)
      · exact .inr (.inl (List.mem_cons_of_mem _ hp))
      · exact .inr (.inr (.inl hp))
      · exact .inr (.inr (.inr hp))

theorem collectFragStats_ok (hview : ∀ p d, H p = some d → view p = d) (hO : Owns H total s)
    (h : Sub H depth page lo hi leaves inner)
    (hleaf : ∀ l ∈ leaves, ∃ d lo next prev, H l.page = some d ∧ LeafAt d l.cells lo next prev)
    (hrun : collectFragStats limit fuel page acc (s, log) = .ok acc' (s', log')) :
    ∃ walk, acc'.overflow = acc.overflow + walk.length ∧ (∀ p ∈ walk, p ∈ log') ∧ (∀ p ∈ log, p ∈ log') ∧
      Owns H total s' ∧ (Owned H walk → followAll view limit (takenStarts leaves) = some walk) := by
  induction depth generalizing page lo hi leaves inner fuel s log acc acc' s' log' with
  | zero =>
      obtain ⟨cells, rfl, rfl, -⟩ := h
      obtain ⟨d, _, _, _, hd, hat⟩ := hleaf ⟨page, cells⟩ List.mem_cons_self
      cases fuel with
      | zero => cases hrun
      | succ fuel =>
          rw [collectFragStats] at hrun
          obtain ⟨pg, ⟨s₁, log₁⟩, hget, hrun⟩ := ok_of_bind_state hrun
          obtain ⟨rfl, hO₁, hdata⟩ := tracedGetPage_ok hO hget
          rw [hdata d hd, hat.laid.type, if_pos rfl] at hrun
          obtain ⟨pg₂, ⟨s₂, log₂⟩, hget₂, hrun⟩ := ok_of_bind_state hrun
          obtain ⟨rfl, hO₂, hdata₂⟩ := tracedGetPage_ok hO₁ hget₂
          obtain ⟨walk, hacc, rfl, hO₃, hwalk⟩ := foldOverflow_ok hview hO₂ hrun
          refine ⟨walk, hacc, fun p hp => List.mem_append_right _ hp, fun p hp => by simp [hp], hO₃,
            fun howned => ?_⟩
          rw [takenStarts, cellsOf_cons, cellsOf_nil, List.append_nil, ← hat.overflowStarts, ← hdata₂ d hd]
          exact hwalk howned
  | succ depth ih =>
      obtain ⟨d, entries, right, below, hd, hint, rfl, -, -, hkids⟩ := h
      cases fuel with
      | zero => cases hrun
      | succ fuel =>
          rw [collectFragStats] at hrun
          obtain ⟨pg, ⟨s₁, log₁⟩, hget, hrun⟩ := ok_of_bind_state hrun
          obtain ⟨rfl, hO₁, hdata⟩ := tracedGetPage_ok hO hget
          rw [hdata d hd, hint.laid.type, if_neg interior_ne_leaf, if_pos rfl] at hrun
          obtain ⟨pg₂, ⟨s₂, log₂⟩, hget₂, hrun⟩ := ok_of_bind_state hrun
          obtain ⟨rfl, hO₂, hdata₂⟩ := tracedGetPage_ok hO₁ hget₂
          rw [hdata₂ d hd, hint.statsChildren, items_map hi] at hrun
          have hall : ∀ (xs : List (Nat × Int)) (lo : Int) (leaves : List Leaf) (inner log : List Nat)
              (s : Pager)
              (acc : FragStats), Owns H total s → Kids (Sub H depth) lo xs leaves inner →
              (∀ l ∈ leaves, ∃ d lo next prev, H l.page = some d ∧ LeafAt d l.cells lo next prev) →
              (xs.map Prod.fst).foldlM (fun acc child => collectFragStats limit fuel child acc) acc (s, log) =
                .ok acc' (s', log') →
              ∃ walk, acc'.overflow = acc.overflow + walk.length ∧ (∀ p ∈ walk, p ∈ log') ∧
                (∀ p ∈ log, p ∈ log') ∧ Owns H total s' ∧
                (Owned H walk → followAll view limit (takenStarts leaves) = some walk) := by
            intro xs
            induction xs with
            | nil =>
                rintro lo leaves inner log s acc hO ⟨rfl, -⟩ - hrun
                obtain ⟨rfl, hsys⟩ := EStateM.Result.ok.inj hrun
                obtain ⟨rfl, rfl⟩ := Prod.mk.inj hsys
                exact ⟨[], rfl, fun p hp => absurd hp List.not_mem_nil, fun p hp => hp, hO, fun _ => rfl⟩
            | cons x xs ihx =>
                rintro lo leaves inner log s acc hO ⟨l₁, l₂, i₁, i₂, rfl, rfl, hchild, hrest⟩ hleaf hrun
                rw [List.map_cons, List.foldlM_cons] at hrun
                obtain ⟨acc₁, ⟨s₁, log₁⟩, hfirst, hrun⟩ := ok_of_bind_state hrun
                obtain ⟨w₁, hacc₁, hin₁, hlog₁, hO₁, hw₁⟩ :=
                  ih hO hchild (fun l hl => hleaf l (List.mem_append_left _ hl)) hfirst
                obtain ⟨w₂, hacc₂, hin₂, hlog₂, hO₂, hw₂⟩ :=
                  ihx _ _ _ _ _ _ hO₁ hrest (fun l hl => hleaf l (List.mem_append_right _ hl)) hrun
                refine ⟨w₁ ++ w₂, by rw [hacc₂, hacc₁, List.length_append, Nat.add_assoc], fun p hp => ?_,
                  fun p hp => hlog₂ p (hlog₁ p hp), hO₂, fun howned => ?_⟩
                · exact (List.mem_append.mp hp).elim (fun hp => hlog₂ p (hin₁ p hp)) (hin₂ p)
                · obtain ⟨hown₁, hown₂⟩ := owned_append.mp howned
                  rw [takenStarts_append]
                  exact followAll_append_iff.mpr ⟨w₁, w₂, hw₁ hown₁, hw₂ hown₂, rfl⟩
          obtain ⟨walk, hacc, hin, hlog, hO₃, hwalk⟩ := hall _ _ _ _ _ _ _ hO₂ hkids hleaf hrun
          exact ⟨walk, hacc, hin, fun p hp => hlog p (by simp [hp]), hO₃, hwalk⟩

end Traverse

end BTree

end Kkdb
