import Kkdb.BTree.Table

namespace Kkdb

open Lib

namespace BTree

section Layout

def headerSize (data : PageData) : Nat :=
  if pageType data = LEAF_TABLE then LEAF_HEADER_SIZE else INTERIOR_HEADER_SIZE

def cellPointer (data : PageData) (i : Nat) : Nat := data.u16 (headerSize data + 2 * i)

def cellSpan (data : PageData) (i : Nat) : Nat :=
  if pageType data = LEAF_TABLE then
    if OVERFLOW_FLAG ≤ data.u32 (cellPointer data i) then 20 else 12 + data.u32 (cellPointer data i)
  else 12

def cellRowid (data : PageData) (i : Nat) : Int64 := rowidOf (data.slice (cellPointer data i + 4) 8)

-- The pointers end before the cells begin, the cells lie on the page and apart from each other, and
-- their rowids increase.
def LayoutOk (data : PageData) : Prop :=
  (pageType data = LEAF_TABLE ∨ pageType data = INTERIOR_TABLE) ∧
    headerSize data + 2 * cellCount data ≤ cellContentOffset data ∧
    (∀ i < cellCount data, cellContentOffset data ≤ cellPointer data i ∧
      cellPointer data i + cellSpan data i ≤ PAGE_SIZE) ∧
    ∀ i < cellCount data, ∀ j < i,
      (cellRowid data j).toInt < (cellRowid data i).toInt ∧
        (cellPointer data j + cellSpan data j ≤ cellPointer data i ∨
          cellPointer data i + cellSpan data i ≤ cellPointer data j)

instance (data : PageData) : Decidable (LayoutOk data) := by
  unfold LayoutOk
  infer_instance

variable {ty : UInt8} {hdr lo : Nat} {d : PageData} {cells : List (List UInt8)}

theorem layoutOk_of_laid (h : Laid ty hdr d cells lo) (hty : ty = LEAF_TABLE ∨ ty = INTERIOR_TABLE)
    (hhdr : headerSize d = hdr)
    (hspan : ∀ c ∈ cells, (if ty = LEAF_TABLE then cellSize c else 12) = c.length)
    (hsorted : (cells.map fun c => (cellKey c).toInt).Pairwise (· < ·)) : LayoutOk d := by
  have hcount := h.count
  have hcontent := h.contentOffset
  have hlongs := h.long
  obtain ⟨slots, hslots, hs⟩ := h.slots
  have hlen : slots.length = cellCount d := by rw [hcount, ← hslots, List.length_map]
  have hpointer : ∀ i (hi : i < slots.length), cellPointer d i = slots[i].1 := fun i hi => by
    rw [cellPointer, hhdr, hs.pointer i hi]
  have hslice : ∀ i (hi : i < slots.length), 12 ≤ slots[i].2.length ∧
      d.slice slots[i].1 slots[i].2.length = slots[i].2 ∧ slots[i].2 ∈ cells := fun i hi => by
    have hmem : slots[i].2 ∈ cells := by
      rw [← hslots]
      exact List.mem_map_of_mem (List.getElem_mem hi)
    exact ⟨hlongs _ hmem, hs.cell _ (List.getElem_mem hi), hmem⟩
  have hcellSpan : ∀ i (hi : i < slots.length), cellSpan d i = slots[i].2.length := fun i hi => by
    obtain ⟨hlong, hcell, hmem⟩ := hslice i hi
    have hhead : d.u32 slots[i].1 = cellHead slots[i].2 := by
      have htake := Buf.drop_take_slice d slots[i].1 slots[i].2.length 0 4 (by omega)
      rw [hcell, List.drop_zero, Nat.add_zero] at htake
      rw [Buf.u32, cellHead, htake]
    rw [← hspan _ hmem, cellSpan, h.type, hpointer i hi, hhead, cellSize]
  have hkey : ∀ i (hi : i < slots.length), cellRowid d i = cellKey slots[i].2 := fun i hi => by
    obtain ⟨hlong, hcell, -⟩ := hslice i hi
    rw [cellRowid, hpointer i hi, cellKey, ← Buf.drop_take_slice d slots[i].1 slots[i].2.length 4 8 (by omega),
      hcell]
  refine ⟨by rw [h.type]; exact hty, ?_, fun i hi => ?_, fun i hi j hj => ?_⟩
  · rw [hcontent, hhdr, hcount]
    exact h.array
  · rw [← hlen] at hi
    rw [hcontent, hpointer i hi, hcellSpan i hi]
    exact ⟨hs.above _ (List.getElem_mem hi), hs.within _ (List.getElem_mem hi)⟩
  · rw [← hlen] at hi
    have hj' : j < slots.length := by omega
    rw [hpointer i hi, hpointer j hj', hcellSpan i hi, hcellSpan j hj', hkey i hi, hkey j hj']
    constructor
    · rw [← hslots, List.map_map] at hsorted
      have hlt := List.pairwise_iff_getElem.mp hsorted j i (by rw [List.length_map]; omega)
        (by rw [List.length_map]; omega) hj
      rw [List.getElem_map, List.getElem_map] at hlt
      exact hlt
    · exact List.pairwise_iff_getElem.mp hs.disjoint j i hj' hi hj

theorem layoutOk_leaf {cells : List Cell} {next prev : Nat} (h : LeafAt d cells lo next prev) : LayoutOk d := by
  refine layoutOk_of_laid h.laid (.inl rfl) (by rw [headerSize, h.laid.type, if_pos rfl]) (fun b hb => ?_) ?_
  · obtain ⟨c, -, rfl⟩ := List.mem_map.mp hb
    rw [if_pos rfl, Cell.cellSize_bytes]
  · rw [List.map_map]
    have hkeys : ((fun b => (cellKey b).toInt) ∘ Cell.bytes) = fun c => c.rowid.toInt := by
      funext c
      simp
    rw [hkeys]
    exact h.sorted

theorem layoutOk_interior {entries : List (Nat × Int64)} {right : Nat} (h : InteriorAt d entries right)
    (hsorted : Increasing entries) : LayoutOk d := by
  refine layoutOk_of_laid h.laid (.inr rfl) (by rw [headerSize, h.laid.type, if_neg interior_ne_leaf])
    (fun b hb => ?_) ?_
  · obtain ⟨e, -, rfl⟩ := List.mem_map.mp hb
    rw [if_neg interior_ne_leaf, length_makeInteriorCell]
  · rw [List.map_map]
    have hkeys : ((fun b => (cellKey b).toInt) ∘ fun e : Nat × Int64 => makeInteriorCell e.1 e.2) =
        fun e => e.2.toInt := by
      funext e
      simp
    rw [hkeys]
    exact hsorted

end Layout

def treePages (view : Nat → PageData) : Nat → Nat → Option (List Nat)
  | 0, _ => none
  | fuel + 1, page =>
      if pageType (view page) = LEAF_TABLE then some [page]
      else
        match childPages (view page) with
        | .ok children => (children.mapM (treePages view fuel)).map fun pages => page :: pages.flatten
        | .error _ => none

section Pages

variable {H : Heap} {view : Nat → PageData} {depth fuel page : Nat} {lo hi : Int} {leaves : List Leaf}
  {inner : List Nat}

theorem treePages_sub (hview : ∀ p d, H p = some d → view p = d) (h : Sub H depth page lo hi leaves inner)
    (hleaf : ∀ l ∈ leaves, ∃ d lo next prev, H l.page = some d ∧ LeafAt d l.cells lo next prev)
    (hfuel : depth < fuel) :
    ∃ pages, treePages view fuel page = some pages ∧ ∀ p ∈ pages, LayoutOk (view p) := by
  induction depth generalizing page lo hi leaves inner fuel with
  | zero =>
      obtain ⟨cells, rfl, -, -⟩ := h
      obtain ⟨d, _, _, _, hd, hat⟩ := hleaf ⟨page, cells⟩ List.mem_cons_self
      obtain ⟨fuel, rfl⟩ : ∃ n, fuel = n + 1 := ⟨fuel - 1, by omega⟩
      refine ⟨[page], by rw [treePages, hview page d hd, hat.laid.type, if_pos rfl], fun p hp => ?_⟩
      rw [List.mem_singleton.mp hp, hview page d hd]
      exact layoutOk_leaf hat
  | succ depth ih =>
      obtain ⟨d, entries, right, below, hd, hint, -, hinc, -, hkids⟩ := h
      obtain ⟨fuel, rfl⟩ : ∃ n, fuel = n + 1 := ⟨fuel - 1, by omega⟩
      have hall : ∀ (xs : List (Nat × Int)) (lo : Int) (leaves : List Leaf) (inner : List Nat),
          Kids (Sub H depth) lo xs leaves inner →
          (∀ l ∈ leaves, ∃ d lo next prev, H l.page = some d ∧ LeafAt d l.cells lo next prev) →
          ∃ pages, (xs.map Prod.fst).mapM (treePages view fuel) = some pages ∧
            ∀ p ∈ pages.flatten, LayoutOk (view p) := by
        intro xs
        induction xs with
        | nil => exact fun _ _ _ _ _ => ⟨[], rfl, fun p hp => (by cases hp)⟩
        | cons x xs ihx =>
            rintro lo leaves inner ⟨l₁, l₂, i₁, i₂, rfl, rfl, hchild, hrest⟩ hleaf
            obtain ⟨first, hfirst, hok⟩ := ih hchild (fun l hl => hleaf l (List.mem_append_left _ hl))
              (show depth < fuel by omega)
            obtain ⟨pages, hpages, hoks⟩ := ihx _ _ _ hrest fun l hl => hleaf l (List.mem_append_right _ hl)
            refine ⟨first :: pages, by rw [List.map_cons, List.mapM_cons, hfirst, hpages]; rfl, fun p hp => ?_⟩
            rw [List.flatten_cons, List.mem_append] at hp
            exact hp.elim (hok p) (hoks p)
      have hmap : entries.map Prod.fst ++ [right] = (items entries right hi).map Prod.fst := by
        rw [items, List.map_append, List.map_map]
        rfl
      obtain ⟨pages, hpages, hoks⟩ := hall _ _ _ _ hkids hleaf
      refine ⟨page :: pages.flatten, ?_, fun p hp => ?_⟩
      · rw [treePages, hview page d hd, hint.laid.type, if_neg interior_ne_leaf, hint.childPages, hmap]
        simp only [hpages, Option.map_some]
      · rcases List.mem_cons.mp hp with rfl | hmem
        · rw [hview p d hd]
          exact layoutOk_interior hint hinc
        · exact hoks p hmem

end Pages

section Runs

variable [Lz4Flex]

-- The conditions under which the tree stays well laid out: a payload is refused for its length, or its
-- cell can be placed.
def TableOp.Kept (op : TableOp) (c : Table × Rows) : Prop :=
  match op with
  | Insert rowid row => U32_MAX < (serializeRow row).length ∨ Placeable c.1.pager c.1.root rowid row
  | InsertWithBuf rowid row _ => U32_MAX < (serializeRow row).length ∨ Placeable c.1.pager c.1.root rowid row
  | Delete _ => True
  | Update rowid row => U32_MAX < (serializeRow row).length ∨
      Placeable (left (deleteByRowid c.1.root rowid) c.1.pager) c.1.root rowid row
  | UpdateWithBuf rowid row _ => U32_MAX < (serializeRow row).length ∨
      Placeable (left (deleteByRowid c.1.root rowid) c.1.pager) c.1.root rowid row

instance keptDecidable (op : TableOp) (c : Table × Rows) : Decidable (op.Kept c) :=
  match op with
  | .Insert _ _ => inferInstanceAs (Decidable (_ ∨ Placeable _ _ _ _))
  | .InsertWithBuf _ _ _ => inferInstanceAs (Decidable (_ ∨ Placeable _ _ _ _))
  | .Delete _ => instDecidableTrue
  | .Update _ _ => inferInstanceAs (Decidable (_ ∨ Placeable _ _ _ _))
  | .UpdateWithBuf _ _ _ => inferInstanceAs (Decidable (_ ∨ Placeable _ _ _ _))

def LayoutKept (t : Table) : Prop :=
  ∃ pages, treePages (view t.pager) (t.pager.header.totalPages + 1) t.root = some pages ∧
    ∀ p ∈ pages, LayoutOk (view t.pager p)

variable {t : Table} {leaves : List Leaf} {rowid : Int64} {row : Row}

theorem layoutKept_of_planted (h : Planted t leaves) : LayoutKept t := by
  obtain ⟨H, total, hO, hT⟩ := h
  obtain ⟨depth, inner, hsub, hnodup⟩ := hT.index
  rw [LayoutKept, hO.total]
  exact treePages_sub hO.view hsub hT.leafAt (Tree.depth_lt hO hsub hnodup)

theorem insert_standing (h : Planted t leaves)
    (hkept : U32_MAX < (serializeRow row).length ∨ Placeable t.pager t.root rowid row) :
    ∃ leaves', Planted (t.after (insertPayload t.root rowid (serializeRow row))) leaves' := by
  obtain ⟨H, total, hO, hT⟩ := h
  rcases hkept with hlong | ⟨hshort, hadmits⟩
  · obtain ⟨s, hrun, rfl⟩ := insertPayload_long t.root rowid t.pager hlong
    rw [Table.after_error hrun]
    exact ⟨leaves, H, total, hO, hT⟩
  · rw [hO.total] at hadmits
    by_cases hhas : Has leaves rowid
    · obtain ⟨s, hrun, H', total', hT', hO'⟩ := insertPayload_fails hO hT hhas hshort hadmits
      rw [Table.after_error hrun]
      exact ⟨leaves, H', total', hO', hT'⟩
    · obtain ⟨root, s, hok, H', leaves', total', c, hT', -, -, -, hO'⟩ :=
        insertPayload_owns hO hT hhas hshort hadmits
      rw [Table.after_ok hok]
      exact ⟨leaves', H', total', hO', hT'⟩

theorem update_standing (h : Planted t leaves)
    (hkept : U32_MAX < (serializeRow row).length ∨
      Placeable (left (deleteByRowid t.root rowid) t.pager) t.root rowid row) :
    ∃ leaves', Planted (t.after (updateRow t.root rowid row)) leaves' := by
  obtain ⟨s, hok, hP⟩ := delete_placed rowid h
  rw [left_ok hok] at hkept
  obtain ⟨leaves', hP'⟩ := insert_standing (t := ⟨s, t.root⟩) hP hkept
  have hsame : t.after (updateRow t.root rowid row) =
      Table.after ⟨s, t.root⟩ (insertPayload t.root rowid (serializeRow row)) := by
    have hrun : updateRow t.root rowid row t.pager = insertPayload t.root rowid (serializeRow row) s :=
        bind_ok hok
    rw [Table.after, Table.after, hrun]
  rw [hsame]
  exact ⟨leaves', hP'⟩

theorem step_standing {op : TableOp} {c : Table × Rows} (h : ∃ leaves, Planted c.1 leaves) (hop : op.Kept c) :
    ∃ leaves, Planted (op.step c).1 leaves := by
  obtain ⟨leaves, hP⟩ := h
  cases op with
  | Insert rowid row => exact insert_standing hP hop
  | InsertWithBuf rowid row buf => exact insert_standing hP hop
  | Delete rowid =>
      obtain ⟨s, hok, hP'⟩ := delete_placed rowid hP
      have hrun : (TableOp.Delete rowid).call c.1.root c.1.pager = .ok c.1.root s := bind_ok hok
      rw [TableOp.step, Table.after_ok hrun]
      exact ⟨_, hP'⟩
  | Update rowid row => exact update_standing hP hop
  | UpdateWithBuf rowid row buf => exact update_standing hP hop

theorem run_standing {base : Nat} {l : Pager.Ledger} {s : Pager} (ops : List TableOp)
    (hs : Pager.Ready base s l) (hwal : s.wal = none) (hroom : s.header.totalPages < MAX_PAGES)
    (hops : Meets TableOp.step TableOp.Kept ops (Table.start s)) :
    ∃ leaves, Planted (run TableOp.step ops (Table.start s)).1 leaves := by
  have hstart : ∃ leaves, Planted (Table.start s).1 leaves := by
    obtain ⟨p, hP⟩ := createTable_planted hs hwal hroom
    exact ⟨_, hP⟩
  exact run_invariant (fun c : Table × Rows => ∃ leaves, Planted c.1 leaves) hstart
    (fun _ _ h hop => step_standing h hop) hops

-- Every page of the tree is well laid out in every state that such calls reach.
theorem run_layoutKept {base : Nat} {l : Pager.Ledger} {s : Pager} (ops : List TableOp)
    (hs : Pager.Ready base s l) (hwal : s.wal = none) (hroom : s.header.totalPages < MAX_PAGES)
    (hops : Meets TableOp.step TableOp.Kept ops (Table.start s)) :
    LayoutKept (run TableOp.step ops (Table.start s)).1 := by
  obtain ⟨leaves, hP⟩ := run_standing ops hs hwal hroom hops
  exact layoutKept_of_planted hP

end Runs

section Samples

attribute [local instance] Lz4Flex.incompressible

def repeatedRun : List TableOp :=
  mixedRun ++ [.Insert 6 (blobRow 3), .Insert 6 (blobRow 2500), .Update 9 (blobRow 700), .Delete 5]

set_option maxRecDepth 10000 in
theorem run_layoutKept_repeated :
    LayoutKept (run TableOp.step repeatedRun (Table.start (Pager.openMemory Buf.zero))).1 :=
  run_layoutKept repeatedRun (Pager.ready_openMemory Buf.zero) rfl (by decide) (by decide +kernel)

-- Two long rows, then short ones, and a row of middle length between them: the left half by number has
-- the two long rows and that one.
def crowdedRun : List TableOp :=
  [.Insert 1 (blobRow 1996), .Insert 2 (blobRow 1996), .Insert 4 [.Null], .Insert 5 [.Null], .Insert 6 [.Null],
    .Insert 3 (blobRow 45)]

def badPages (t : Table) : List Nat :=
  ((treePages (view t.pager) (t.pager.header.totalPages + 1) t.root).getD []).filter
    fun p => !decide (LayoutOk (view t.pager p))

set_option maxRecDepth 10000 in
theorem crowdedRun_badPages :
    badPages (run TableOp.step crowdedRun (Table.start (Pager.openMemory Buf.zero))).1 = [4] := by
  decide +kernel

-- The split writes the third cell over the pointers of the page.
theorem crowded_half_overlaps :
    ¬LayoutKept (run TableOp.step crowdedRun (Table.start (Pager.openMemory Buf.zero))).1 := by
  rintro ⟨pages, hpages, hok⟩
  have hbad := crowdedRun_badPages
  rw [badPages, hpages, Option.getD_some] at hbad
  have hmem : 4 ∈ pages.filter fun p => !decide (LayoutOk (view
      (run TableOp.step crowdedRun (Table.start (Pager.openMemory Buf.zero))).1.pager p)) := by
    rw [hbad]
    exact List.mem_singleton_self 4
  rw [List.mem_filter] at hmem
  have hlayout := hok 4 hmem.1
  rw [decide_eq_true hlayout] at hmem
  exact Bool.false_ne_true hmem.2

end Samples

end BTree

end Kkdb
