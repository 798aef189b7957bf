import Kkdb.BTree.Layout
import Kkdb.BTree.Order

namespace Kkdb

open Lib

namespace BTree

def lastRowid (data : PageData) : Res Int64 :=
  if cellCount data = 0 then .ok 0
  else do
    let off ← cellOffset LEAF_HEADER_SIZE (some 12) data (cellCount data - 1)
    readRowid data (off + 4)

section Calls

variable [Lz4Flex]

def maxRowidFrom : Nat → Nat → PagerM Int64
  | 0, _ => throw .Hang
  | fuel + 1, page => do
      let pg ← Pager.getPage page
      if pageType pg.data = LEAF_TABLE then ofRes (lastRowid pg.data)
      else if pageType pg.data = INTERIOR_TABLE then maxRowidFrom fuel (rightChild pg.data)
      else throw (invalidPageType "unexpected" (pageType pg.data))

def maxRowid (root : Nat) : PagerM Int64 := do
  let fuel ← depthLimit
  maxRowidFrom fuel root

-- What `VM::open` computes for a table: an error counts as the rowid 0.
def openNextRowid (root : Nat) : PagerM Int64 := fun s =>
  match maxRowid root s with
  | .ok rowid s' => .ok (rowid + 1) s'
  | .error (.Err _) s' => .ok 1 s'
  | .error fault s' => .error fault s'

end Calls

def pageRowids (data : PageData) : List Int64 := (List.range (cellCount data)).map (cellRowid data)

def topRowid (cells : List Cell) : Int64 := (cells.getLast?.map Cell.rowid).getD 0

section Leaf

variable {d : PageData} {cells : List Cell} {lo next prev : Nat} {rowid : Int64}

theorem topRowid_concat (cells : List Cell) (c : Cell) : topRowid (cells ++ [c]) = c.rowid := by
  rw [topRowid, List.getLast?_concat]
  rfl

theorem LeafAt.lastRowid (h : LeafAt d cells lo next prev) : lastRowid d = .ok (topRowid cells) := by
  rw [BTree.lastRowid, h.count]
  rcases List.eq_nil_or_concat cells with rfl | ⟨front, c, rfl⟩
  · rfl
  · rw [List.concat_eq_append] at h ⊢
    have hlen : (front ++ [c]).length - 1 = front.length := by simp
    have hget : (front ++ [c])[front.length]? = some c := List.getElem?_concat_length
    obtain ⟨off, hoff, -, -, -, hkey⟩ := h.cell (some 12) hget fun needed hn => (Option.some.inj hn).ge
    rw [if_neg (by simp), hlen, hoff, topRowid_concat]
    exact hkey

theorem LeafAt.cellRowid {i : Nat} {c : Cell} (h : LeafAt d cells lo next prev) (hget : cells[i]? = some c) :
    cellRowid d i = c.rowid := by
  obtain ⟨off, hoff, -, -, -, hkey⟩ := h.cell none hget no_needed
  have hptr : cellPointer d i = off := by
    rw [cellPointer, headerSize, h.laid.type, if_pos rfl]
    unfold cellOffset readU16 at hoff
    split_ifs at hoff
    · exact Except.ok.inj hoff
    · cases hoff
  unfold readRowid at hkey
  split_ifs at hkey
  rw [BTree.cellRowid, hptr]
  exact Except.ok.inj hkey

theorem LeafAt.pageRowids (h : LeafAt d cells lo next prev) : pageRowids d = cells.map Cell.rowid := by
  rw [BTree.pageRowids, h.count]
  refine List.ext_getElem (by simp) fun i hi hi' => ?_
  rw [List.length_map] at hi'
  rw [List.getElem_map, List.getElem_map, List.getElem_range]
  exact h.cellRowid (List.getElem?_eq_getElem hi')

theorem greatest_concat {c : Cell} {g : Int64} (h : Ascending (cells ++ [c]))
    (hg : g ∈ (cells ++ [c]).map Cell.rowid) (hmax : ∀ r ∈ (cells ++ [c]).map Cell.rowid, r.toInt ≤ g.toInt) :
    g = c.rowid := by
  obtain ⟨x, hx, rfl⟩ := List.mem_map.mp hg
  rcases List.mem_append.mp hx with hfront | hlast
  · have hlt := (ascending_append.mp h).2.2.1 x hfront
    have hle := hmax c.rowid (List.mem_map_of_mem (List.mem_append_right _ List.mem_cons_self))
    omega
  · rw [List.mem_singleton.mp hlast]

end Leaf

section Descend

variable [Lz4Flex] {H : Heap} {total root depth fuel page : Nat} {lo hi : Int} {leaves ls : List Leaf}
  {l : Leaf}
  {inner : List Nat} {s : Pager}

theorem maxRowidFrom_owns (hO : Owns H total s) (h : Sub H depth page lo hi leaves inner)
    (hlast : leaves = ls ++ [l])
    (hleaf : ∀ l ∈ leaves, ∃ d lo next prev, H l.page = some d ∧ LeafAt d l.cells lo next prev)
    (hfuel : depth < fuel) :
    Yields (maxRowidFrom fuel page) s fun r s' => r = topRowid l.cells ∧ Owns H total s' := by
  induction depth generalizing page lo hi leaves ls inner fuel s with
  | zero =>
      obtain ⟨cells, rfl, -, -⟩ := h
      obtain ⟨d, _, _, _, hd, hat⟩ := hleaf ⟨page, cells⟩ List.mem_cons_self
      obtain ⟨fuel, rfl⟩ : ∃ n, fuel = n + 1 := ⟨fuel - 1, by omega⟩
      have hl : l = ⟨page, cells⟩ := by
        have hsame := congrArg List.getLast? hlast
        rw [List.getLast?_concat] at hsame
        exact (Option.some.inj hsame).symm
      rw [maxRowidFrom]
      refine (getPage_owns hO hd).bind fun pg s₁ hpg => ?_
      obtain ⟨hdata, hO₁⟩ := hpg
      rw [hdata, hat.laid.type, if_pos rfl, hat.lastRowid, hl]
      exact .pure ⟨rfl, hO₁⟩
  | succ depth ih =>
      obtain ⟨d, entries, right, below, hd, hint, -, -, -, hkids⟩ := h
      obtain ⟨fuel, rfl⟩ : ∃ n, fuel = n + 1 := ⟨fuel - 1, by omega⟩
      rw [maxRowidFrom]
      refine (getPage_owns hO hd).bind fun pg s₁ hpg => ?_
      obtain ⟨hdata, hO₁⟩ := hpg
      have hright : rightChild d = right := hint.link
      rw [hdata, hint.laid.type, if_neg interior_ne_leaf, if_pos rfl, hright]
      rw [items, kids_append] at hkids
      obtain ⟨l₁, l₂, i₁, i₂, rfl, -, -, ⟨l₃, l₄, i₃, i₄, rfl, -, hchild, rfl, -⟩⟩ := hkids
      rw [List.append_nil] at hleaf hlast
      -- the right child has the last leaf
      obtain ⟨x, xs, hx⟩ := hchild.first
      rcases List.eq_nil_or_concat l₃ with rfl | ⟨front, y, rfl⟩
      · cases hx
      · rw [List.concat_eq_append] at hlast hleaf hchild
        have hy : y = l := by
          have hsame := congrArg List.getLast? hlast
          rw [← List.append_assoc, List.getLast?_concat, List.getLast?_concat] at hsame
          exact Option.some.inj hsame
        subst hy
        exact ih hO₁ hchild rfl (fun x hx => hleaf x (List.mem_append_right _ hx)) (by omega)

theorem maxRowid_owns (hO : Owns H total s) (h : Tree H root (ls ++ [l])) :
    Yields (maxRowid root) s fun r s' => r = topRowid l.cells ∧ Owns H total s' := by
  obtain ⟨depth, inner, hsub, hnodup⟩ := h.index
  have hdepth := Tree.depth_lt hO hsub hnodup
  rw [← hO.total] at hdepth
  exact maxRowidFrom_owns hO hsub rfl h.leafAt hdepth

end Descend

section Present

variable [Lz4Flex]

def rowids (t : Table) : List Int64 :=
  ((leavesInOrder (view t.pager) (t.pager.header.totalPages + 1) t.root).getD []).flatMap
    fun p => pageRowids (view t.pager p)

def Greatest (t : Table) (rowid : Int64) : Prop :=
  rowid ∈ rowids t ∧ ∀ other ∈ rowids t, other.toInt ≤ rowid.toInt

-- The quantifier runs over the list: the rowids of the type are too many.
instance (t : Table) (rowid : Int64) : Decidable (Greatest t rowid) :=
  @instDecidableAnd _ _ inferInstance
    (List.decidableBAll (fun other : Int64 => other.toInt ≤ rowid.toInt) (rowids t))

def LastLeafHolds (t : Table) : Prop :=
  (((leavesInOrder (view t.pager) (t.pager.header.totalPages + 1) t.root).bind List.getLast?).any
    fun p => cellCount (view t.pager p) ≠ 0) = true

instance (t : Table) : Decidable (LastLeafHolds t) := by
  unfold LastLeafHolds
  infer_instance

variable {t : Table} {H : Heap} {total : Nat} {leaves ls : List Leaf} {l : Leaf}

theorem leavesInOrder_tree (hO : Owns H total t.pager) (hT : Tree H t.root leaves) :
    leavesInOrder (view t.pager) (t.pager.header.totalPages + 1) t.root = some (leafPages leaves) := by
  obtain ⟨depth, inner, hsub, hnodup⟩ := hT.index
  rw [hO.total]
  exact leavesInOrder_sub hO.view hsub hT.leafAt (Tree.depth_lt hO hsub hnodup)

theorem rowids_tree (hO : Owns H total t.pager) (hT : Tree H t.root leaves) :
    rowids t = (cellsOf leaves).map Cell.rowid := by
  rw [rowids, leavesInOrder_tree hO hT, Option.getD_some, leafPages, cellsOf, List.flatMap_map,
    List.map_flatMap]
  refine List.flatMap_congr fun l hl => ?_
  obtain ⟨d, lo, next, prev, hd, hat⟩ := hT.leafAt l hl
  rw [hO.view _ _ hd]
  exact hat.pageRowids

theorem lastLeafHolds_iff (hO : Owns H total t.pager) (hT : Tree H t.root (ls ++ [l])) :
    LastLeafHolds t ↔ l.cells ≠ [] := by
  obtain ⟨d, lo, next, prev, hd, hat⟩ := hT.leafAt l (List.mem_append_right _ List.mem_cons_self)
  have hlast : (leafPages (ls ++ [l])).getLast? = some l.page := by
    rw [leafPages_append, leafPages_cons, leafPages_nil, List.getLast?_concat]
  rw [LastLeafHolds, leavesInOrder_tree hO hT, Option.bind_some, hlast, Option.any_some, decide_eq_true_iff,
    hO.view _ _ hd, hat.count, Ne, List.length_eq_zero_iff]

end Present

section Runs

variable [Lz4Flex] {t : Table} {leaves : List Leaf}

-- `max_rowid` is the greatest rowid, and the one that follows it is free.
structure MaxExact (t : Table) (greatest : Int64) : Prop where
  max : Returns (maxRowid t.root) t.pager greatest
  next : greatest.toInt < 2 ^ 63 - 1 →
    ∃ next, Returns (openNextRowid t.root) t.pager next ∧ next = greatest + 1 ∧ next ∉ rowids t

theorem openNextRowid_returns {g : Int64} (h : Returns (maxRowid t.root) t.pager g) :
    Returns (openNextRowid t.root) t.pager (g + 1) := by
  obtain ⟨s', hok⟩ := h
  exact ⟨s', by rw [openNextRowid, hok]⟩

theorem maxExact_iff {g : Int64} (h : Planted t leaves) (hg : Greatest t g) :
    MaxExact t g ↔ LastLeafHolds t ∨ g = 0 := by
  obtain ⟨H, total, hO, hT⟩ := h
  obtain ⟨hpresent, hmax⟩ := hg
  have hfree : g.toInt < 2 ^ 63 - 1 → g + 1 ∉ rowids t := by
    intro hlt hsome
    have hle := hmax _ hsome
    have hnext : (g + 1).toInt = g.toInt + 1 := by
      rw [Int64.toInt_add]
      have hlow := Int64.le_toInt g
      have hone : (1 : Int64).toInt = 1 := rfl
      rw [hone]
      exact Int.bmod_eq_of_le (by omega) (by omega)
    omega
  have hmaxExact : Returns (maxRowid t.root) t.pager g → MaxExact t g := fun hret =>
    ⟨hret, fun hlt => ⟨g + 1, openNextRowid_returns hret, rfl, hfree hlt⟩⟩
  rw [rowids_tree hO hT] at hpresent hmax
  rcases List.eq_nil_or_concat leaves with rfl | ⟨ls, l, rfl⟩
  · cases hpresent
  rw [List.concat_eq_append] at hT hpresent hmax
  have hret : Returns (maxRowid t.root) t.pager (topRowid l.cells) :=
    returns_of_yields (maxRowid_owns hO hT) fun _ _ hq => hq.1
  rw [lastLeafHolds_iff hO hT]
  constructor
  · intro hexact
    obtain ⟨s₁, hok₁⟩ := hret
    obtain ⟨s₂, hok₂⟩ := hexact.max
    obtain ⟨htop, -⟩ := EStateM.Result.ok.inj (hok₁.symm.trans hok₂)
    by_cases hnil : l.cells = []
    · rw [hnil] at htop
      exact .inr htop.symm
    · exact .inl hnil
  · intro hcond
    apply hmaxExact
    rcases List.eq_nil_or_concat l.cells with hnil | ⟨front, c, hcells⟩
    · have hzero := hcond.resolve_left fun hne => hne hnil
      rw [hnil] at hret
      rw [hzero]
      exact hret
    · rw [List.concat_eq_append] at hcells
      have hall : cellsOf (ls ++ [l]) = (cellsOf ls ++ front) ++ [c] := by
        rw [cellsOf_append, cellsOf_cons, cellsOf_nil, List.append_nil, hcells, List.append_assoc]
      have hasc := hT.ascending
      rw [hall] at hasc hpresent hmax
      have hgc := greatest_concat hasc hpresent hmax
      rw [hcells, topRowid_concat] at hret
      rw [hgc]
      exact hret

-- The same of every table that calls which place their cells have made.
theorem run_maxExact_iff {base : Nat} {l : Pager.Ledger} {s : Pager} (ops : List TableOp) (g : Int64)
    (hs : Pager.Ready base s l) (hwal : s.wal = none) (hroom : s.header.totalPages < MAX_PAGES)
    (hops : Meets TableOp.step TableOp.Kept ops (Table.start s))
    (hg : Greatest (run TableOp.step ops (Table.start s)).1 g) :
    MaxExact (run TableOp.step ops (Table.start s)).1 g ↔
      LastLeafHolds (run TableOp.step ops (Table.start s)).1 ∨ g = 0 := by
  obtain ⟨leaves, hP⟩ := run_standing ops hs hwal hroom hops
  exact maxExact_iff hP hg

end Runs

section Samples

attribute [local instance] Lz4Flex.incompressible

set_option maxRecDepth 10000 in
theorem mixedRun_kept :
    Meets TableOp.step TableOp.Kept mixedRun (Table.start (Pager.openMemory Buf.zero)) := by
  decide +kernel

set_option maxRecDepth 10000 in
theorem mixedRun_greatest : Greatest
    (run TableOp.step mixedRun (Table.start (Pager.openMemory Buf.zero))).1 6 := by
  decide +kernel

theorem run_maxExact_mixed :
    MaxExact (run TableOp.step mixedRun (Table.start (Pager.openMemory Buf.zero))).1 6 ↔
      LastLeafHolds (run TableOp.step mixedRun (Table.start (Pager.openMemory Buf.zero))).1 ∨ (6 : Int64) = 0 :=
  run_maxExact_iff mixedRun 6 (Pager.ready_openMemory Buf.zero) rfl (by decide) mixedRun_kept mixedRun_greatest

def tailRun : List TableOp :=
  [.Insert 1 (blobRow 2000), .Insert 2 (blobRow 2000), .Insert 3 (blobRow 2000), .Delete 3]

set_option maxRecDepth 10000 in
theorem tailRun_kept :
    Meets TableOp.step TableOp.Kept tailRun (Table.start (Pager.openMemory Buf.zero)) := by
  decide +kernel

set_option maxRecDepth 10000 in
theorem tailRun_greatest : Greatest
    (run TableOp.step tailRun (Table.start (Pager.openMemory Buf.zero))).1 2 := by
  decide +kernel

set_option maxRecDepth 10000 in
theorem tailRun_empties : ¬LastLeafHolds
    (run TableOp.step tailRun (Table.start (Pager.openMemory Buf.zero))).1 := by
  decide +kernel

theorem maxRowid_misses_rows :
    Meets TableOp.step TableOp.Kept tailRun (Table.start (Pager.openMemory Buf.zero)) ∧
      Greatest (run TableOp.step tailRun (Table.start (Pager.openMemory Buf.zero))).1 2 ∧
      ¬MaxExact (run TableOp.step tailRun (Table.start (Pager.openMemory Buf.zero))).1 2 := by
  refine ⟨tailRun_kept, tailRun_greatest, fun h => ?_⟩
  obtain ⟨leaves, hP⟩ := run_standing tailRun (Pager.ready_openMemory Buf.zero) rfl (by decide) tailRun_kept
  rcases (maxExact_iff hP tailRun_greatest).mp h with hlast | hzero
  · exact tailRun_empties hlast
  · exact absurd hzero (by decide)

end Samples

end BTree

end Kkdb
