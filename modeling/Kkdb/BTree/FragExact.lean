import Kkdb.BTree.FragStats

namespace Kkdb

open Lib

namespace BTree

section Stubs

def overflowPlaces (data : PageData) : List Nat :=
  (List.range (cellCount data)).filter fun i => decide (OVERFLOW_FLAG ≤ data.u32 (cellPointer data i))

def stubRowids (data : PageData) : List Int64 := (overflowPlaces data).map (cellRowid data)

def stubPages (data : PageData) : List Nat :=
  (overflowPlaces data).map fun i => data.u32 (cellPointer data i + 16)

theorem filter_map_range {α β : Type} {xs : List α} {p : Nat → Bool} {f : Nat → β} {q : α → Bool} {g : α → β}
    (hp : ∀ i x, xs[i]? = some x → p i = q x) (hf : ∀ i x, xs[i]? = some x → q x = true → f i = g x) :
    ((List.range xs.length).filter p).map f = (xs.filter q).map g := by
  induction xs using List.reverseRecOn with
  | nil => rfl
  | append_singleton xs x ih =>
      have hget : (xs ++ [x])[xs.length]? = some x := List.getElem?_concat_length
      have hinit : ∀ i y, xs[i]? = some y → (xs ++ [x])[i]? = some y := fun i y hy => by
        obtain ⟨hi, -⟩ := List.getElem?_eq_some_iff.mp hy
        rw [List.getElem?_append_left hi, hy]
      have hrest := ih (fun i y hy => hp i y (hinit i y hy)) fun i y hy => hf i y (hinit i y hy)
      rw [List.length_append, List.length_singleton, List.range_succ, List.filter_append, List.filter_append,
        List.map_append, List.map_append, hrest]
      congr 1
      cases hq : q x with
      | true => simp [hp _ _ hget, hq, hf _ _ hget hq]
      | false => simp [hp _ _ hget, hq]

variable {d : PageData} {cells : List Cell} {c : Cell} {lo next prev i : Nat}

theorem LeafAt.cellPointer (h : LeafAt d cells lo next prev) (hget : cells[i]? = some c) :
    BTree.cellPointer d i + c.bytes.length ≤ PAGE_SIZE ∧
      d.slice (BTree.cellPointer d i) c.bytes.length = c.bytes := by
  obtain ⟨off, hoff, hfit, hslice, -, -⟩ := h.cell none hget no_needed
  have hptr : BTree.cellPointer d i = off := by
    rw [BTree.cellPointer, headerSize, h.laid.type, if_pos rfl]
    unfold cellOffset readU16 at hoff
    split_ifs at hoff
    · exact Except.ok.inj hoff
    · cases hoff
  rw [hptr]
  exact ⟨hfit, hslice⟩

theorem LeafAt.isStub (h : LeafAt d cells lo next prev) (hget : cells[i]? = some c) :
    decide (OVERFLOW_FLAG ≤ d.u32 (BTree.cellPointer d i)) = c.overflows := by
  obtain ⟨hfit, hslice⟩ := h.cellPointer hget
  have hlong := c.long_bytes
  have hhead := Buf.drop_take_slice d (BTree.cellPointer d i) c.bytes.length 0 4 (by omega)
  rw [hslice, List.drop_zero, Nat.add_zero] at hhead
  rw [Buf.u32, ← hhead, Cell.overflows, Bool.eq_iff_iff, decide_eq_true_iff]
  exact Cell.flag_le_cellHead c

theorem LeafAt.stubRowids (h : LeafAt d cells lo next prev) :
    stubRowids d = (cells.filter Cell.overflows).map Cell.rowid := by
  rw [BTree.stubRowids, overflowPlaces, h.count]
  exact filter_map_range (fun _ _ hget => h.isStub hget) fun _ _ hget _ => h.cellRowid hget

theorem LeafAt.stubPages (h : LeafAt d cells lo next prev) (hsmall : ∀ c ∈ cells, c.chain.headD 0 < 2 ^ 32) :
    stubPages d = (cells.filter Cell.overflows).map fun c => c.chain.headD 0 := by
  rw [BTree.stubPages, overflowPlaces, h.count]
  refine filter_map_range (fun _ _ hget => h.isStub hget) fun i c hget hover => ?_
  obtain ⟨hfit, hslice⟩ := h.cellPointer hget
  have hover' : needsOverflow c.payload = true := hover
  have hlen : c.bytes.length = 20 := by rw [c.length_bytes, cellLen, if_pos hover']
  have hfirst := c.overflowFirst_bytes (hsmall c (List.mem_of_getElem? hget))
  rw [if_pos hover', overflowFirst, if_pos ((Cell.flag_le_cellHead c).mpr hover)] at hfirst
  rw [Buf.u32, ← Buf.drop_take_slice d (BTree.cellPointer d i) c.bytes.length 16 4 (by omega), hslice]
  exact Option.some.inj hfirst

end Stubs

section Pages

variable {H : Heap} {view : Nat → PageData} {depth fuel page first limit : Nat} {lo hi : Int}
  {leaves : List Leaf}
  {inner ps : List Nat} {cs : List (List UInt8)}

theorem mem_treePages (hview : ∀ p d, H p = some d → view p = d) (h : Sub H depth page lo hi leaves inner)
    (hleaf : ∀ l ∈ leaves, ∃ d lo next prev, H l.page = some d ∧ LeafAt d l.cells lo next prev)
    (hfuel : depth < fuel) :
    ∃ pages, treePages view fuel page = some pages ∧ ∀ p, p ∈ pages ↔ p ∈ inner ∨ p ∈ leafPages leaves := by
  induction depth generalizing page lo hi leaves inner fuel with
  | zero =>
      obtain ⟨cells, rfl, rfl, -⟩ := h
      obtain ⟨d, _, _, _, hd, hat⟩ := hleaf ⟨page, cells⟩ List.mem_cons_self
      obtain ⟨fuel, rfl⟩ : ∃ n, fuel = n + 1 := ⟨fuel - 1, by omega⟩
      exact ⟨[page], by rw [treePages, hview page d hd, hat.laid.type, if_pos rfl], by simp⟩
  | succ depth ih =>
      obtain ⟨d, entries, right, below, hd, hint, rfl, -, -, hkids⟩ := h
      obtain ⟨fuel, rfl⟩ : ∃ n, fuel = n + 1 := ⟨fuel - 1, by omega⟩
      have hall : ∀ (xs : List (Nat × Int)) (lo : Int) (leaves : List Leaf) (inner : List Nat),
          Kids (Sub H depth) lo xs leaves inner →
          (∀ l ∈ leaves, ∃ d lo next prev, H l.page = some d ∧ LeafAt d l.cells lo next prev) →
          ∃ pages, (xs.map Prod.fst).mapM (treePages view fuel) = some pages ∧
            ∀ p, p ∈ pages.flatten ↔ p ∈ inner ∨ p ∈ leafPages leaves := by
        intro xs
        induction xs with
        | nil =>
            rintro _ _ _ ⟨rfl, rfl⟩ -
            exact ⟨[], rfl, by simp⟩
        | cons x xs ihx =>
            rintro lo leaves inner ⟨l₁, l₂, i₁, i₂, rfl, rfl, hchild, hrest⟩ hleaf
            obtain ⟨ps, hps, hmem⟩ := ih hchild (fun l hl => hleaf l (List.mem_append_left _ hl))
              (show depth < fuel by omega)
            obtain ⟨pages, hpages, hmems⟩ := ihx _ _ _ hrest fun l hl => hleaf l (List.mem_append_right _ hl)
            refine ⟨ps :: pages, by rw [List.map_cons, List.mapM_cons, hps, hpages]; rfl, fun p => ?_⟩
            simp only [List.flatten_cons, List.mem_append, hmem, hmems, leafPages_append]
            tauto
      obtain ⟨pages, hpages, hmem⟩ := hall _ _ _ _ hkids hleaf
      refine ⟨page :: pages.flatten, ?_, fun p => ?_⟩
      · rw [treePages, hview page d hd, hint.laid.type, if_neg interior_ne_leaf, hint.childPages, items_map hi]
        simp only [hpages, Option.map_some]
      · rw [List.mem_cons, List.mem_cons, hmem, or_assoc]

theorem Links.follow (hview : ∀ p d, H p = some d → view p = d) (h : Links H first ps cs)
    (hlen : ps.length < limit) :
    followLinks view (fun data => data.u32 0) limit first = some ps := by
  induction ps generalizing first cs limit with
  | nil =>
      obtain ⟨limit, rfl⟩ : ∃ n, limit = n + 1 := ⟨limit - 1, by omega⟩
      cases cs with
      | nil => rw [followLinks, if_pos (show first = 0 from h)]
      | cons c cs => exact h.elim
  | cons p ps ih =>
      rw [List.length_cons] at hlen
      obtain ⟨limit, rfl⟩ : ∃ n, limit = n + 1 := ⟨limit - 1, by omega⟩
      cases cs with
      | nil => exact h.elim
      | cons c cs =>
          obtain ⟨rfl, hne, d, hd, -, hrest⟩ := h
          rw [followLinks, if_neg hne, hview _ _ hd, ih hrest (by omega), Option.map_some]

theorem followAll_zero {starts : List Nat} (h : ∀ first ∈ starts, first = 0) :
    followAll view (limit + 1) starts = some [] := by
  induction starts with
  | nil => rfl
  | cons first starts ih =>
      refine followAll_cons_iff.mpr ⟨[], [], ?_, ih fun x hx => h x (List.mem_cons_of_mem _ hx), rfl⟩
      rw [followLinks, if_pos (h first List.mem_cons_self)]

end Pages

section Exact

variable [Lz4Flex]

def leafViews (t : Table) : List PageData :=
  ((leavesInOrder (view t.pager) (t.pager.header.totalPages + 1) t.root).getD []).map (view t.pager)

def overflowRowids (t : Table) : List Int64 := (leafViews t).flatMap stubRowids

def chainStarts (t : Table) : List Nat := (leafViews t).flatMap stubPages

def follow (t : Table) (starts : List Nat) : Option (List Nat) :=
  followAll (view t.pager) (t.pager.header.totalPages + 1) starts

def treeOf (t : Table) : Option (List Nat) := treePages (view t.pager) (t.pager.header.totalPages + 1) t.root

-- The statistics name as many overflow pages as the chains of the live rows have, and only pages of the
-- tree and of these chains are read for them.
def StatsExact (t : Table) : Prop :=
  ∃ tree chains stats s log, treeOf t = some tree ∧ follow t (chainStarts t) = some chains ∧
    fragmentationStats t.root (t.pager, []) = .ok stats (s, log) ∧ stats.overflow = chains.length ∧
    ∀ p ∈ log, p ∈ tree ∨ p ∈ chains

-- The links from the upper halves of the rowids of these rows end, stay on such pages, and pass as many
-- of them as the chains have.
def UpperHalvesLink (t : Table) : Prop :=
  ∃ tree chains walk, treeOf t = some tree ∧ follow t (chainStarts t) = some chains ∧
    follow t ((overflowRowids t).map upperHalf) = some walk ∧ walk.length = chains.length ∧
    ∀ p ∈ walk, p ∈ tree ∨ p ∈ chains

variable {t : Table} {H : Heap} {total : Nat} {leaves : List Leaf}

theorem leafViews_tree (hO : Owns H total t.pager) (hT : Tree H t.root leaves) :
    leafViews t = (leafPages leaves).map (view t.pager) := by
  rw [leafViews, leavesInOrder_tree hO hT, Option.getD_some]

theorem overflowRowids_tree (hO : Owns H total t.pager) (hT : Tree H t.root leaves) :
    overflowRowids t = ((cellsOf leaves).filter Cell.overflows).map Cell.rowid := by
  rw [overflowRowids, leafViews_tree hO hT, leafPages, cellsOf, List.flatMap_map, List.flatMap_map,
    List.filter_flatMap, List.map_flatMap]
  refine List.flatMap_congr fun l hl => ?_
  obtain ⟨d, lo, next, prev, hd, hat⟩ := hT.leafAt l hl
  rw [hO.view _ _ hd]
  exact hat.stubRowids

theorem chainStarts_tree (hO : Owns H total t.pager) (hT : Tree H t.root leaves) :
    chainStarts t = ((cellsOf leaves).filter Cell.overflows).map fun c => c.chain.headD 0 := by
  rw [chainStarts, leafViews_tree hO hT, leafPages, cellsOf, List.flatMap_map, List.flatMap_map,
    List.filter_flatMap, List.map_flatMap]
  refine List.flatMap_congr fun l hl => ?_
  obtain ⟨d, lo, next, prev, hd, hat⟩ := hT.leafAt l hl
  rw [hO.view _ _ hd]
  refine hat.stubPages fun c hc => ?_
  have hstored := hT.forest.stored c (List.mem_flatMap.mpr ⟨l, hl, hc⟩)
  cases hchain : c.chain with
  | nil => decide
  | cons p ps =>
      obtain ⟨d', hd'⟩ := hstored.owned p (by rw [hchain]; exact List.mem_cons_self)
      exact hO.small hd'

theorem takenStarts_tree (hO : Owns H total t.pager) (hT : Tree H t.root leaves) :
    takenStarts leaves = (overflowRowids t).map upperHalf := by
  rw [overflowRowids_tree hO hT, List.map_map]
  rfl

theorem follow_chains (hO : Owns H total t.pager) (hT : Tree H t.root leaves) :
    follow t (chainStarts t) = some (((cellsOf leaves).filter Cell.overflows).flatMap Cell.chain) := by
  rw [chainStarts_tree hO hT, follow, hO.total]
  have hstored : ∀ c ∈ (cellsOf leaves).filter Cell.overflows, c.Stored H ∧ c.overflows = true := fun c hc =>
    ⟨hT.forest.stored c (List.mem_of_mem_filter hc), (List.mem_filter.mp hc).2⟩
  generalize (cellsOf leaves).filter Cell.overflows = cells at hstored
  induction cells with
  | nil => rfl
  | cons c cells ih =>
      obtain ⟨hc, hover⟩ := hstored c List.mem_cons_self
      have hchain := hc.chain
      rw [if_pos (show needsOverflow c.payload = true from hover)] at hchain
      have hlen := hO.length_le hchain.2 hc.owned
      exact followAll_cons_iff.mpr ⟨_, _, hchain.1.follow hO.view (by omega),
        ih fun c hc => hstored c (List.mem_cons_of_mem _ hc), rfl⟩

theorem statsExact_iff (h : Planted t leaves) : StatsExact t ↔ UpperHalvesLink t := by
  obtain ⟨H, total, hO, hT⟩ := h
  obtain ⟨depth, inner, hsub, hnodup⟩ := hT.index
  have hdepth := Tree.depth_lt hO hsub hnodup
  obtain ⟨tree, htree, hmem⟩ := mem_treePages hO.view hsub hT.leafAt hdepth
  have htreeOf : treeOf t = some tree := by rw [treeOf, hO.total, htree]
  have hchains := follow_chains hO hT
  have howned : ∀ p, p ∈ tree ∨ p ∈ ((cellsOf leaves).filter Cell.overflows).flatMap Cell.chain →
      ∃ d, H p = some d := by
    rintro p (hp | hp)
    · rcases (hmem p).mp hp with hp | hp
      · exact hsub.owned p hp
      · obtain ⟨l, hl, rfl⟩ := List.mem_map.mp hp
        obtain ⟨d, -, -, -, hd, -⟩ := hT.leafAt l hl
        exact ⟨d, hd⟩
    · obtain ⟨c, hc, hp⟩ := List.mem_flatMap.mp hp
      exact (hT.forest.stored c (List.mem_of_mem_filter hc)).owned p hp
  have hstats : fragmentationStats t.root (t.pager, []) =
      collectFragStats (total + 1) (total + 1) t.root ⟨0, 0, 0, 0⟩ (t.pager, []) := by
    rw [fragmentationStats, get_bind, hO.total]
  constructor
  · rintro ⟨tree', chains, stats, s, log, htree', hchains', hrun, hcount, hlog⟩
    obtain rfl := Option.some.inj (htreeOf.symm.trans htree')
    obtain rfl := Option.some.inj (hchains.symm.trans hchains')
    rw [hstats] at hrun
    obtain ⟨walk, hwalk, hin, -, -, hfollow⟩ := collectFragStats_ok hO.view hO hsub hT.leafAt hrun
    refine ⟨tree, _, walk, htreeOf, hchains, ?_, ?_, fun p hp => hlog p (hin p hp)⟩
    · rw [follow, hO.total, ← takenStarts_tree hO hT]
      exact hfollow fun p hp => howned p (hlog p (hin p hp))
    · rw [← hcount, hwalk, Nat.zero_add]
  · rintro ⟨tree', chains, walk, htree', hchains', hwalk, hlen, hin⟩
    obtain rfl := Option.some.inj (htreeOf.symm.trans htree')
    obtain rfl := Option.some.inj (hchains.symm.trans hchains')
    rw [follow, hO.total, ← takenStarts_tree hO hT] at hwalk
    obtain ⟨stats, ⟨s, log⟩, hrun, hcount, hlog, -⟩ :=
        collectFragStats_owns hO.view hO hsub hT.leafAt hdepth hwalk
      fun p hp => howned p (hin p hp)
    rw [← hstats] at hrun
    refine ⟨tree, _, stats, s, log, htreeOf, hchains, hrun, by rw [hcount, Nat.zero_add, hlen], fun p hp => ?_⟩
    rcases hlog p hp with hp | hp | hp | hp
    · exact absurd hp List.not_mem_nil
    · exact .inl ((hmem p).mpr (.inl hp))
    · exact .inl ((hmem p).mpr (.inr hp))
    · exact hin p hp

-- With rowids below 2^32 no chain is followed at all.
theorem statsExact_iff_of_low (h : Planted t leaves) (hlow : ∀ rowid ∈ overflowRowids t, upperHalf rowid = 0) :
    StatsExact t ↔ overflowRowids t = [] := by
  rw [statsExact_iff h]
  obtain ⟨H, total, hO, hT⟩ := h
  obtain ⟨depth, inner, hsub, hnodup⟩ := hT.index
  obtain ⟨tree, htree, -⟩ := mem_treePages hO.view hsub hT.leafAt (Tree.depth_lt hO hsub hnodup)
  have htreeOf : treeOf t = some tree := by rw [treeOf, hO.total, htree]
  have hchains := follow_chains hO hT
  have hwalk : follow t ((overflowRowids t).map upperHalf) = some [] := by
    refine followAll_zero fun first hfirst => ?_
    obtain ⟨rowid, hrowid, rfl⟩ := List.mem_map.mp hfirst
    exact hlow rowid hrowid
  have hrowids := overflowRowids_tree hO hT
  constructor
  · rintro ⟨-, chains, walk, -, hchains', hwalk', hlen, -⟩
    obtain rfl := Option.some.inj (hchains.symm.trans hchains')
    obtain rfl := Option.some.inj (hwalk.symm.trans hwalk')
    rw [hrowids, List.map_eq_nil_iff, List.eq_nil_iff_forall_not_mem]
    intro c hc
    have hover : needsOverflow c.payload = true := (List.mem_filter.mp hc).2
    have hchain := (hT.forest.stored c (List.mem_of_mem_filter hc)).chain
    rw [if_pos hover] at hchain
    have hne : chunks c.payload ≠ [] := chunks_ne_nil fun hnil => by
      rw [hnil] at hover
      cases hover
    have hmem := List.mem_flatMap.mpr ⟨c, hc, hchain.1.head hne⟩
    rw [List.length_nil] at hlen
    rw [List.length_eq_zero_iff.mp hlen.symm] at hmem
    exact List.not_mem_nil hmem
  · intro hnone
    rw [hrowids, List.map_eq_nil_iff] at hnone
    rw [hnone] at hchains
    exact ⟨tree, [], [], htreeOf, hchains, hwalk, rfl, fun p hp => absurd hp List.not_mem_nil⟩

-- The same of every tree that calls which place their cells have made.
theorem run_statsExact_iff {base : Nat} {l : Pager.Ledger} {s : Pager} (ops : List TableOp)
    (hs : Pager.Ready base s l) (hwal : s.wal = none) (hroom : s.header.totalPages < MAX_PAGES)
    (hops : Meets TableOp.step TableOp.Kept ops (Table.start s)) :
    (StatsExact (run TableOp.step ops (Table.start s)).1 ↔
        UpperHalvesLink (run TableOp.step ops (Table.start s)).1) ∧
      ((∀ rowid ∈ overflowRowids (run TableOp.step ops (Table.start s)).1, upperHalf rowid = 0) →
        (StatsExact (run TableOp.step ops (Table.start s)).1 ↔
          overflowRowids (run TableOp.step ops (Table.start s)).1 = [])) := by
  obtain ⟨leaves, hP⟩ := run_standing ops hs hwal hroom hops
  exact ⟨statsExact_iff hP, statsExact_iff_of_low hP⟩

end Exact

section Samples

attribute [local instance] Lz4Flex.incompressible

theorem run_statsExact_mixed :
    (StatsExact (run TableOp.step mixedRun (Table.start (Pager.openMemory Buf.zero))).1 ↔
        UpperHalvesLink (run TableOp.step mixedRun (Table.start (Pager.openMemory Buf.zero))).1) ∧
      ((∀ rowid ∈ overflowRowids (run TableOp.step mixedRun (Table.start (Pager.openMemory Buf.zero))).1,
          upperHalf rowid = 0) →
        (StatsExact (run TableOp.step mixedRun (Table.start (Pager.openMemory Buf.zero))).1 ↔
          overflowRowids (run TableOp.step mixedRun (Table.start (Pager.openMemory Buf.zero))).1 = [])) :=
  run_statsExact_iff mixedRun (Pager.ready_openMemory Buf.zero) rfl (by decide) mixedRun_kept

def longRun : List TableOp := [.Insert 1 (blobRow 5000)]

set_option maxRecDepth 10000 in
theorem longRun_kept : Meets TableOp.step TableOp.Kept longRun (Table.start (Pager.openMemory Buf.zero)) := by
  decide +kernel

set_option maxRecDepth 10000 in
theorem longRun_overflows :
    overflowRowids (run TableOp.step longRun (Table.start (Pager.openMemory Buf.zero))).1 = [1] := by
  decide +kernel

def overflowCount (t : Table) : Option Nat :=
  match fragmentationStats t.root (t.pager, []) with
  | .ok stats _ => some stats.overflow
  | .error _ _ => none

-- The chain of the row has two pages, and none is counted.
set_option maxRecDepth 10000 in
theorem chain_not_counted :
    Meets TableOp.step TableOp.Kept longRun (Table.start (Pager.openMemory Buf.zero)) ∧
      (follow (run TableOp.step longRun (Table.start (Pager.openMemory Buf.zero))).1
        (chainStarts (run TableOp.step longRun (Table.start (Pager.openMemory Buf.zero))).1)).map List.length =
          some 2 ∧
      overflowCount (run TableOp.step longRun (Table.start (Pager.openMemory Buf.zero))).1 = some 0 ∧
      ¬StatsExact (run TableOp.step longRun (Table.start (Pager.openMemory Buf.zero))).1 := by
  refine ⟨longRun_kept, by decide +kernel, by decide +kernel, fun hexact => ?_⟩
  obtain ⟨leaves, hP⟩ := run_standing longRun (Pager.ready_openMemory Buf.zero) rfl (by decide) longRun_kept
  have hlow : ∀ rowid ∈ overflowRowids (run TableOp.step longRun (Table.start (Pager.openMemory Buf.zero))).1,
      upperHalf rowid = 0 := by
    rw [longRun_overflows]
    exact List.forall_mem_singleton.mpr (by decide)
  have hnone := (statsExact_iff_of_low hP hlow).mp hexact
  rw [longRun_overflows] at hnone
  cases hnone

end Samples

end BTree

end Kkdb
