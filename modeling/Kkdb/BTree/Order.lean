import Kkdb.BTree.Table

namespace Kkdb

open Lib

namespace BTree

-- The leaves below a page from the left to the right, as the interior pages name them.
def leavesInOrder (view : Nat → PageData) : Nat → Nat → Option (List Nat)
  | 0, _ => none
  | fuel + 1, page =>
      if pageType (view page) = LEAF_TABLE then some [page]
      else
        match childPages (view page) with
        | .ok children => (children.mapM (leavesInOrder view fuel)).map List.flatten
        | .error _ => none

def followLinks (view : Nat → PageData) (link : PageData → Nat) : Nat → Nat → Option (List Nat)
  | 0, _ => none
  | fuel + 1, cur =>
      if cur = 0 then some [] else (followLinks view link fuel (link (view cur))).map (cur :: ·)

section Sequences

variable {H : Heap} {view : Nat → PageData} {depth fuel page cur : Nat} {lo hi : Int} {leaves : List Leaf}
  {inner : List Nat} {link : PageData → Nat}

theorem mapM_kids {S : Nat → Int → Int → List Leaf → List Nat → Prop} {xs : List (Nat × Int)}
    {f : Nat → Option (List Nat)} (h : Kids S lo xs leaves inner)
    (hS : ∀ c a b l i, (∀ x ∈ l, x ∈ leaves) → S c a b l i → f c = some (leafPages l)) :
    ((xs.map Prod.fst).mapM f).map List.flatten = some (leafPages leaves) := by
  induction xs generalizing lo leaves inner with
  | nil =>
      obtain ⟨rfl, -⟩ := h
      rfl
  | cons x xs ih =>
      obtain ⟨l₁, l₂, i₁, i₂, rfl, -, hchild, hrest⟩ := h
      have hhead := hS _ _ _ _ _ (fun x hx => List.mem_append_left _ hx) hchild
      have htail := ih hrest fun c a b l i hl => hS c a b l i fun x hx => List.mem_append_right _ (hl x hx)
      rw [Option.map_eq_some_iff] at htail
      obtain ⟨pages, hpages, hflat⟩ := htail
      rw [List.map_cons, List.mapM_cons, hhead, hpages]
      exact congrArg some (by rw [leafPages_append, ← hflat]; rfl)

theorem leavesInOrder_sub (hview : ∀ p d, H p = some d → view p = d)
    (h : Sub H depth page lo hi leaves inner)
    (hleaf : ∀ l ∈ leaves, ∃ d lo next prev, H l.page = some d ∧ LeafAt d l.cells lo next prev)
    (hfuel : depth < fuel) : leavesInOrder view fuel page = some (leafPages leaves) := by
  induction depth generalizing page lo hi leaves inner fuel with
  | zero =>
      obtain ⟨cells, rfl, -, -⟩ := h
      obtain ⟨d, _, _, _, hd, hat⟩ := hleaf ⟨page, cells⟩ List.mem_cons_self
      obtain ⟨fuel, rfl⟩ : ∃ n, fuel = n + 1 := ⟨fuel - 1, by omega⟩
      rw [leavesInOrder, hview page d hd, hat.laid.type, if_pos rfl]
      rfl
  | succ depth ih =>
      obtain ⟨d, entries, right, below, hd, hint, -, -, -, hkids⟩ := h
      obtain ⟨fuel, rfl⟩ : ∃ n, fuel = n + 1 := ⟨fuel - 1, by omega⟩
      have hmap : entries.map Prod.fst ++ [right] = (items entries right hi).map Prod.fst := by
        rw [items, List.map_append, List.map_map]
        rfl
      rw [leavesInOrder, hview page d hd, hint.laid.type, if_neg interior_ne_leaf, hint.childPages, hmap]
      exact mapM_kids hkids fun c a b l i hl hsub => ih hsub (fun x hx => hleaf x (hl x hx)) (by omega)

theorem followLinks_visits (hview : ∀ p d, H p = some d → view p = d) (h : Visits H link cur leaves)
    (hfuel : leaves.length < fuel) : followLinks view link fuel cur = some (leafPages leaves) := by
  induction leaves generalizing cur fuel with
  | nil =>
      obtain ⟨fuel, rfl⟩ : ∃ n, fuel = n + 1 := ⟨fuel - 1, by omega⟩
      rw [followLinks, if_pos (show cur = 0 from h)]
      rfl
  | cons l ls ih =>
      obtain ⟨rfl, hpos, d, lo, next, prev, hd, -, hrest⟩ := h
      rw [List.length_cons] at hfuel
      obtain ⟨fuel, rfl⟩ : ∃ n, fuel = n + 1 := ⟨fuel - 1, by omega⟩
      rw [followLinks, if_neg hpos, hview l.page d hd, ih hrest (by omega)]
      rfl

end Sequences

section Exact

variable [Lz4Flex]

-- The links of the leaves agree with the interior pages, and the scans and the counter, which read
-- the one or the other, agree with each other. `Vec::with_capacity` bounds the limits.
structure ChainExact (t : Table) : Prop where
  links : ∃ first last pages, Returns (findLeftmostLeaf t.root) t.pager first ∧
    Returns (findRightmostLeaf t.root) t.pager last ∧
    leavesInOrder (view t.pager) (t.pager.header.totalPages + 1) t.root = some pages ∧
    followLinks (view t.pager) nextLeaf (t.pager.header.totalPages + 1) first = some pages ∧
    followLinks (view t.pager) prevLeaf (t.pager.header.totalPages + 1) last = some pages.reverse
  scans : ∃ entries, Returns (scanAll t.root) t.pager entries ∧
    Returns (scanAllReverse t.root) t.pager entries.reverse ∧
    Returns (scanRows t.root) t.pager (entries.map Prod.snd) ∧
    Returns (countRows t.root) t.pager entries.length ∧
    ∀ n, ROW_SIZE * n ≤ ISIZE_MAX →
      Returns (scanRowsLimit t.root n) t.pager ((entries.map Prod.snd).take n) ∧
      Returns (scanRowsReverseLimit t.root n) t.pager ((entries.map Prod.snd).reverse.take n)

variable {t : Table} {m : Rows}

theorem chainExact_of_holding (h : Holding (t, m)) : ChainExact t := by
  obtain ⟨leaves, ⟨H, total, hO, hT⟩, hS⟩ := h
  simp only at hO hT hS
  have hentry : ∀ validate, (∀ needed, validate = some needed → needed ≤ 12) → ∀ c ∈ cellsOf leaves,
      Reads H total (scanEntry validate) (fun c => (c.rowid, c.row)) c := fun validate hv c hc =>
    reads_entry (hT.forest.stored c hc) (hS.whole hc).1 hv
  have hrow : ∀ c ∈ cellsOf leaves, Reads H total (scanRow (some 4)) Cell.row c := fun c hc =>
    reads_row (hT.forest.stored c hc) (hS.whole hc).1 (by simp)
  have hfirst := findLeftmostLeaf_owns hO hT
  have hlast := findRightmostLeaf_owns hO hT
  have hlen := hT.length_le hO
  have hrows : ((cellsOf leaves).map fun c => (c.rowid, c.row)).map Prod.snd =
      (cellsOf leaves).map Cell.row := by
    rw [List.map_map]
    rfl
  constructor
  · refine ⟨_, _, leafPages leaves, returns_of_yields hfirst fun _ _ hq => hq.1,
      returns_of_yields hlast fun _ _ hq => hq.1, ?_, ?_, ?_⟩
    · obtain ⟨depth, inner, hsub, hnodup⟩ := hT.index
      rw [hO.total]
      exact leavesInOrder_sub hO.view hsub hT.leafAt (Tree.depth_lt hO hsub hnodup)
    · rw [hO.total]
      exact followLinks_visits hO.view (hT.forest.chain.visits hO.page_ne_zero) (by omega)
    · have hreverse := followLinks_visits hO.view (hT.forest.chain.visits_reverse hO.page_ne_zero)
        (show leaves.reverse.length < total + 1 by rw [List.length_reverse]; omega)
      rw [hO.total, hreverse, leafPages, leafPages, List.map_reverse]
  · refine ⟨(cellsOf leaves).map fun c => (c.rowid, c.row), ?_, ?_, ?_, ?_, fun n hn => ⟨?_, ?_⟩⟩
    · exact returns_of_yields (scanAll_owns hO hT hS) fun _ _ hq => hq.1
    · refine returns_of_yields (hlast.bind fun last s hstep => ?_) fun _ _ hq => hq
      obtain ⟨hq, hO'⟩ := hstep
      rw [hq]
      exact (scanLeaves_backward none hO' hT (hentry (some 12) (by simp))).mono fun _ _ hr => hr.1
    · refine returns_of_yields (hfirst.bind fun first s hstep => ?_) fun _ _ hq => hq
      obtain ⟨hq, hO'⟩ := hstep
      rw [hq, hrows]
      exact (scanLeaves_forward none hO' hT hrow).mono fun _ _ hr => hr.1
    · rw [List.length_map]
      exact returns_of_yields (countRows_owns hO hT) fun _ _ hq => hq.1
    · refine returns_of_yields (hfirst.bind fun first s hstep => ?_) fun _ _ hq => hq
      obtain ⟨hq, hO'⟩ := hstep
      rw [hq, hrows, reserveRows, if_neg (by omega)]
      exact (scanLeaves_forward (some n) hO' hT hrow).mono fun _ _ hr => hr.1
    · refine returns_of_yields (hlast.bind fun last s hstep => ?_) fun _ _ hq => hq
      obtain ⟨hq, hO'⟩ := hstep
      rw [hq, hrows, reserveRows, if_neg (by omega)]
      exact (scanLeaves_backward (some n) hO' hT hrow).mono fun _ _ hr => hr.1

theorem run_chainExact {base : Nat} {l : Pager.Ledger} {s : Pager} (ops : List TableOp)
    (hs : Pager.Ready base s l) (hwal : s.wal = none) (hroom : s.header.totalPages < MAX_PAGES)
    (hops : Meets TableOp.step TableOp.Sound ops (Table.start s)) :
    ChainExact (run TableOp.step ops (Table.start s)).1 :=
  chainExact_of_holding (run_holding ops hs hwal hroom hops)

end Exact

section Samples

attribute [local instance] Lz4Flex.incompressible

theorem run_chainExact_mixed :
    ChainExact (run TableOp.step mixedRun (Table.start (Pager.openMemory Buf.zero))).1 :=
  run_chainExact mixedRun (Pager.ready_openMemory Buf.zero) rfl (by decide) mixedRun_sound

def linkedLeaves (t : Table) : Option (List Nat) :=
  match findLeftmostLeaf t.root t.pager with
  | .ok first _ => followLinks (view t.pager) nextLeaf (t.pager.header.totalPages + 1) first
  | .error _ _ => none

def orderedLeaves (t : Table) : Option (List Nat) :=
  leavesInOrder (view t.pager) (t.pager.header.totalPages + 1) t.root

set_option maxRecDepth 10000 in
theorem updatesRun_order :
    linkedLeaves (run TableOp.step updatesRun (Table.start (Pager.openMemory Buf.zero))).1 ≠
      orderedLeaves (run TableOp.step updatesRun (Table.start (Pager.openMemory Buf.zero))).1 := by
  decide +kernel

-- The divider that is there twice also puts the leaves in another order than their links.
theorem updates_reorder_leaves :
    Meets TableOp.step TableOp.Fitting updatesRun (Table.start (Pager.openMemory Buf.zero)) ∧
      ¬ChainExact (run TableOp.step updatesRun (Table.start (Pager.openMemory Buf.zero))).1 := by
  refine ⟨updatesRun_fits, fun h => ?_⟩
  obtain ⟨first, last, pages, ⟨s, hfirst⟩, -, hinorder, hnext, -⟩ := h.links
  refine updatesRun_order ?_
  rw [linkedLeaves, hfirst, orderedLeaves, hinorder]
  exact hnext

end Samples

end BTree

end Kkdb
