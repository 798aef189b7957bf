import Kkdb.BTree.Chain

namespace Kkdb

open Lib

namespace BTree

section Pages

variable {H H' : Heap} {p n lo : Nat} {d : PageData} {c : Cell} {xs ys : List Leaf}
  {cells cells' pre post : List Cell}

theorem pagesOf_add (xs ys : List Leaf) (p : Nat) (pre post : List Cell) (c : Cell) :
    (pagesOf (xs ++ ⟨p, pre ++ c :: post⟩ :: ys)).Perm
      (c.chain ++ pagesOf (xs ++ ⟨p, pre ++ post⟩ :: ys)) := by
  refine List.perm_iff_count.mpr fun q => ?_
  simp only [pagesOf, leafPages_append, leafPages_cons, cellsOf_append, cellsOf_cons,
    List.flatMap_append, List.flatMap_cons, List.count_append]
  omega

theorem pagesOf_split (xs ys : List Leaf) (p n : Nat) (cells cells' : List Cell) :
    (pagesOf (xs ++ ⟨p, cells⟩ :: ⟨n, cells'⟩ :: ys)).Perm
      (n :: pagesOf (xs ++ ⟨p, cells ++ cells'⟩ :: ys)) := by
  refine List.perm_iff_count.mpr fun q => ?_
  simp only [pagesOf, leafPages_append, leafPages_cons, cellsOf_append, cellsOf_cons,
    List.flatMap_append, List.count_append, List.count_cons]
  omega

theorem mem_cellsOf_middle (xs ys : List Leaf) (p : Nat) (cells : List Cell) :
    c ∈ cellsOf (xs ++ ⟨p, cells⟩ :: ys) ↔ c ∈ cellsOf xs ∨ c ∈ cells ∨ c ∈ cellsOf ys := by
  rw [cellsOf_append, cellsOf_cons, List.mem_append, List.mem_append]

theorem Forest.putLeaf (h : Forest H (xs ++ ⟨p, cells⟩ :: ys)) (hp : H' p = some d)
    (hleaf : LeafAt d cells' lo (headPage ys 0) (lastPage 0 xs)) (hsame : ∀ q, q ≠ p → H' q = H q)
    (hstored : ∀ c ∈ cells', c.Stored H') (hnodup : (pagesOf (xs ++ ⟨p, cells'⟩ :: ys)).Nodup) :
    Forest H' (xs ++ ⟨p, cells'⟩ :: ys) where
  chain := by
    obtain ⟨hx, -, hy⟩ := leavesAt_append.mp h.chain
    obtain ⟨hnx, hny⟩ := h.middle_notMem
    refine leavesAt_append.mpr ⟨hx.frame fun q hq => hsame q ?_, ⟨d, lo, hp, hleaf⟩,
      hy.frame fun q hq => hsame q ?_⟩
    · rintro rfl
      exact hnx hq
    · rintro rfl
      exact hny hq
  stored := by
    have hmem : p ∈ leafPages (xs ++ ⟨p, cells⟩ :: ys) := by simp
    have hold : ∀ c ∈ cellsOf (xs ++ ⟨p, cells⟩ :: ys), c.Stored H' := fun c hc =>
      (h.stored c hc).frame fun q hq => hsame q fun heq => h.apart hmem hc (heq ▸ hq)
    intro c hc
    rcases (mem_cellsOf_middle xs ys p cells').mp hc with hc | hc | hc
    · exact hold c ((mem_cellsOf_middle ..).mpr (.inl hc))
    · exact hstored c hc
    · exact hold c ((mem_cellsOf_middle ..).mpr (.inr (.inr hc)))
  nodup := hnodup

theorem Forest.nodup_add (h : Forest H (xs ++ ⟨p, pre ++ post⟩ :: ys)) (hchain : c.chain.Nodup)
    (hfresh : ∀ q ∈ c.chain, q ∉ pagesOf (xs ++ ⟨p, pre ++ post⟩ :: ys)) :
    (pagesOf (xs ++ ⟨p, pre ++ c :: post⟩ :: ys)).Nodup :=
  (pagesOf_add xs ys p pre post c).nodup_iff.mpr
    (List.nodup_append.mpr ⟨hchain, h.nodup, fun q hq _ hmem heq => hfresh q hq (heq ▸ hmem)⟩)

theorem Forest.nodup_remove (h : Forest H (xs ++ ⟨p, pre ++ c :: post⟩ :: ys)) :
    (pagesOf (xs ++ ⟨p, pre ++ post⟩ :: ys)).Nodup ∧
      ∀ q ∈ c.chain, q ∉ pagesOf (xs ++ ⟨p, pre ++ post⟩ :: ys) := by
  have hnodup := (pagesOf_add xs ys p pre post c).nodup_iff.mp h.nodup
  rw [List.nodup_append] at hnodup
  exact ⟨hnodup.2.1, fun q hq hq' => hnodup.2.2 q hq q hq' rfl⟩

end Pages

section Stage

variable [Lz4Flex]

def stageCell (rowid : Int64) (payload : List UInt8) : PagerM (List UInt8) :=
  if needsOverflow payload then do
    let first ← writeOverflowChain payload
    return makeOverflowCell rowid payload.length first
  else return makeLeafCell rowid payload

theorem insertIntoLeaf_eq (page : Nat) (data : PageData) (rowid : Int64) (payload : List UInt8) :
    insertIntoLeaf page data rowid payload = (do
      let cell ← stageCell rowid payload
      if cellLen payload + 2 ≤ available LEAF_HEADER_SIZE data then do
        insertCellIntoLeaf page rowid cell
        return .Done
      else splitLeaf page rowid cell) := by
  unfold insertIntoLeaf stageCell insertOverflowCellRaw insertCellIntoLeafRaw
  split_ifs <;> simp only [bind_assoc, pure_bind]

def chainLen (payload : List UInt8) : Nat := if needsOverflow payload then (chunks payload).length else 0

variable {H : Heap} {total : Nat} {s : Pager} {rowid : Int64} {payload : List UInt8}

theorem stageCell_owns (rowid : Int64) (hO : Owns H total s) (hshort : payload.length ≤ U32_MAX)
    (hroom : total + chainLen payload ≤ MAX_PAGES) :
    Yields (stageCell rowid payload) s fun cell s' => ∃ (c : Cell) (H' : Heap) (total' : Nat), c.rowid = rowid ∧
      c.payload = payload ∧ cell = c.bytes ∧ c.Stored H' ∧ (∀ q ∈ c.chain, H q = none) ∧
        (∀ q, q ∉ c.chain → H' q = H q) ∧
      total ≤ total' ∧ total' ≤ total + chainLen payload ∧ Owns H' total' s' := by
  unfold stageCell
  cases hover : needsOverflow payload with
  | false =>
      refine .pure ⟨⟨rowid, payload, []⟩, H, total, rfl, rfl, ?_, ⟨hshort, ?_⟩,
        fun q hq => (by cases hq), fun q _ => rfl, le_rfl, by omega, hO⟩
      · simp only [Cell.bytes, hover, Bool.false_eq_true, if_false]
      · simp only [hover, Bool.false_eq_true, if_false]
  | true =>
      rw [chainLen, if_pos hover] at hroom ⊢
      have hne : payload ≠ [] := by
        rintro rfl
        exact absurd hover (by decide)
      refine (writeOverflowChain_owns hO hne hroom).bind
        fun first s₁ hstep => ?_
      obtain ⟨H', ps, total', hlinks, hnodup, hhead, hfresh, hsame, hge, hle, hO'⟩ := hstep
      have hfirst : ps.headD 0 = first := by rw [List.headD_eq_head?_getD, hhead]; rfl
      refine .pure ⟨⟨rowid, payload, ps⟩, H', total', rfl, rfl, ?_, ⟨hshort, ?_⟩, hfresh, hsame, hge, hle, hO'⟩
      · simp only [Cell.bytes, hover, if_true, hfirst]
      · simp only [hover, if_true, hfirst]
        exact ⟨hlinks, hnodup⟩

end Stage

-- What an insert of the cell `c` into the leaf `old` leaves: the leaves that stand in its place,
-- and no other page in use has changed but for the links of leaves.
structure Grown (H : Heap) (xs : List Leaf) (old : Leaf) (ys : List Leaf) (news : List Leaf) (H' : Heap) :
    Prop where
  forest : Forest H' (xs ++ (news ++ ys))
  fresh : ∀ q ∈ pagesOf (xs ++ (news ++ ys)), q ∈ pagesOf (xs ++ old :: ys) ∨ H q = none
  frame : ∀ q, q ∉ leafPages (xs ++ old :: ys) → H q ≠ none → H' q = H q
  kept : ∀ q, H q ≠ none → H' q ≠ none

structure Parted (p : Nat) (cells : List Cell) (k : Int64) (n : Nat) (news : List Leaf) : Prop where
  halves : ∃ l r, news = [⟨p, l⟩, ⟨n, r⟩] ∧ cells = l ++ r ∧ (∀ x ∈ l, x.rowid.toInt < k.toInt) ∧
    (∀ x ∈ r, k.toInt ≤ x.rowid.toInt) ∧ (∃ x ∈ r, x.rowid = k) ∧ (1 < cells.length → l ≠ [])

theorem parted_of_ascending {cells : List Cell} {c : Cell} {pos : Nat} (p n : Nat) (h : Ascending cells)
    (hget : cells[splitAt pos cells.length]? = some c) :
    Parted p cells c.rowid n [⟨p, cells.take (splitAt pos cells.length)⟩,
      ⟨n, cells.drop (splitAt pos cells.length)⟩] := by
  obtain ⟨mid, hmid⟩ : ∃ mid, mid = splitAt pos cells.length := ⟨_, rfl⟩
  rw [← hmid] at hget ⊢
  obtain ⟨hlt, heq⟩ := List.getElem?_eq_some_iff.mp hget
  have hdrop : cells.drop mid = c :: cells.drop (mid + 1) := by rw [List.drop_eq_getElem_cons hlt, heq]
  have hsplit : cells = cells.take mid ++ c :: cells.drop (mid + 1) := by
    rw [← hdrop, List.take_append_drop]
  have hsorted := h
  rw [hsplit, ascending_append] at hsorted
  refine ⟨⟨_, _, rfl, (List.take_append_drop _ _).symm, hsorted.2.2.1, ?_, ?_, fun hlong hnil => ?_⟩⟩
  · intro x hx
    rw [hdrop] at hx
    rcases List.mem_cons.mp hx with rfl | hmem
    · exact le_rfl
    · exact Int.le_of_lt (hsorted.2.2.2.1 x hmem)
  · exact ⟨c, by rw [hdrop]; exact List.mem_cons_self, rfl⟩
  · have hzero : mid = 0 ∨ cells = [] := List.take_eq_nil_iff.mp hnil
    rcases hzero with hzero | hnil'
    · rw [hzero, splitAt] at hmid
      split_ifs at hmid <;> omega
    · rw [hnil', List.length_nil] at hlong
      omega

section Insert

variable {H H₁ : Heap} {xs ys : List Leaf} {p : Nat} {pre post : List Cell} {c : Cell}

structure Staged (H : Heap) (xs ys : List Leaf) (p : Nat) (cells : List Cell) (c : Cell) (H₁ : Heap) :
    Prop where
  forest : Forest H₁ (xs ++ ⟨p, cells⟩ :: ys)
  stored : c.Stored H₁
  fresh : ∀ q ∈ c.chain, H q = none
  frame : ∀ q, q ∉ c.chain → H₁ q = H q
  owned : ∀ q ∈ pagesOf (xs ++ ⟨p, cells⟩ :: ys), H q ≠ none

theorem Staged.of_fresh {cells : List Cell} (h : Forest H (xs ++ ⟨p, cells⟩ :: ys)) (hstored : c.Stored H₁)
    (hfresh : ∀ q ∈ c.chain, H q = none) (hframe : ∀ q, q ∉ c.chain → H₁ q = H q) :
    Staged H xs ys p cells c H₁ := by
  have howned : ∀ q ∈ pagesOf (xs ++ ⟨p, cells⟩ :: ys), H q ≠ none := by
    intro q hq hnone
    obtain ⟨d, hd⟩ := h.owned hq
    rw [hd] at hnone
    cases hnone
  exact ⟨h.frame fun q hq => hframe q fun hmem => howned q hq (hfresh q hmem), hstored, hfresh, hframe, howned⟩

theorem Staged.nodup (h : Staged H xs ys p (pre ++ post) c H₁) :
    (pagesOf (xs ++ ⟨p, pre ++ c :: post⟩ :: ys)).Nodup :=
  h.forest.nodup_add h.stored.nodup fun q hq hmem => h.owned q hmem (h.fresh q hq)

theorem Staged.unused {cells : List Cell} {q : Nat} (h : Staged H xs ys p cells c H₁) (hq : H₁ q = none) :
    H q = none := by
  by_cases hmem : q ∈ c.chain
  · exact h.fresh q hmem
  · rw [← h.frame q hmem]
    exact hq

theorem Staged.mem_add {q : Nat} (h : Staged H xs ys p (pre ++ post) c H₁)
    (hq : q ∈ pagesOf (xs ++ ⟨p, pre ++ c :: post⟩ :: ys)) :
    q ∈ pagesOf (xs ++ ⟨p, pre ++ post⟩ :: ys) ∨ H q = none := by
  rcases List.mem_append.mp ((pagesOf_add xs ys p pre post c).mem_iff.mp hq) with hq | hq
  · exact .inr (h.fresh q hq)
  · exact .inl hq

theorem Staged.same {cells : List Cell} {q : Nat} (h : Staged H xs ys p cells c H₁) (hq : H q ≠ none) :
    H₁ q = H q := h.frame q fun hmem => hq (h.fresh q hmem)

theorem Staged.mem_stored {x : Cell} (h : Staged H xs ys p (pre ++ post) c H₁)
    (hx : x ∈ cellsOf (xs ++ ⟨p, pre ++ c :: post⟩ :: ys)) :
    x.Stored H₁ ∧ ∀ q ∈ leafPages (xs ++ ⟨p, pre ++ post⟩ :: ys), q ∉ x.chain := by
  by_cases hxc : x = c
  · rw [hxc]
    exact ⟨h.stored, fun q hq hmem => h.owned q (List.mem_append_left _ hq) (h.fresh q hmem)⟩
  · have hold : x ∈ cellsOf (xs ++ ⟨p, pre ++ post⟩ :: ys) := by
      rw [mem_cellsOf_middle, List.mem_append, List.mem_cons] at hx
      rw [mem_cellsOf_middle, List.mem_append]
      rcases hx with hx | (hx | hx | hx) | hx
      · exact .inl hx
      · exact .inr (.inl (.inl hx))
      · exact absurd hx hxc
      · exact .inr (.inl (.inr hx))
      · exact .inr (.inr hx)
    exact ⟨h.forest.stored x hold, fun q hq => h.forest.apart hq hold⟩

theorem Staged.put {d' : PageData} {lo : Nat} (h : Staged H xs ys p (pre ++ post) c H₁)
    (hleaf : LeafAt d' (pre ++ c :: post) lo (headPage ys 0) (lastPage 0 xs)) :
    Grown H xs ⟨p, pre ++ post⟩ ys [⟨p, pre ++ c :: post⟩] (Function.update H₁ p (some d')) where
  forest := by
    have hmem : p ∈ leafPages (xs ++ ⟨p, pre ++ post⟩ :: ys) := by simp
    refine h.forest.putLeaf (Function.update_self _ _ _) hleaf (fun q hq => Function.update_of_ne hq _ _) ?_
      h.nodup
    intro x hx
    obtain ⟨hstored, hapart⟩ := h.mem_stored ((mem_cellsOf_middle ..).mpr (.inr (.inl hx)))
    exact hstored.frame fun q hq => Function.update_of_ne (ne_of_mem_of_not_mem hq (hapart p hmem)) _ _
  fresh := fun q hq => h.mem_add hq
  frame := fun q hq hnone => by
    have hqp : q ≠ p := by
      rintro rfl
      exact hq (by simp)
    rw [Function.update_of_ne hqp, h.same hnone]
  kept := fun q hnone => by
    by_cases hqp : q = p
    · rw [hqp, Function.update_self]
      exact Option.some_ne_none _
    · rw [Function.update_of_ne hqp, h.same hnone]
      exact hnone

theorem Staged.split {r : InsertResult} {H₂ : Heap} (h : Staged H xs ys p (pre ++ post) c H₁)
    (hpos : ∀ q d, H₁ q = some d → q ≠ 0) (hsorted : Ascending (pre ++ c :: post))
    (hsplit : SplitAt H₁ p (headPage ys 0) (lastPage 0 xs) (pre ++ c :: post)
      (splitAt pre.length (pre ++ c :: post).length) r H₂) :
    ∃ k n news, r = .Split k n ∧ n < 2 ^ 32 ∧ Parted p (pre ++ c :: post) k n news ∧
      Grown H xs ⟨p, pre ++ post⟩ ys news H₂ := by
  obtain ⟨x, n, dl, dr, hget, hr, hfree, hn, hHp, hl, hHn, hrr, hnext, hsame⟩ := hsplit.halves
  have hpart := parted_of_ascending p n hsorted hget
  generalize splitAt pre.length (pre ++ c :: post).length = mid at *
  have hjoin : (pre ++ c :: post).take mid ++ (pre ++ c :: post).drop mid = pre ++ c :: post :=
    List.take_append_drop _ _
  have hleafn : ∀ q ∈ leafPages (xs ++ ⟨p, pre ++ post⟩ :: ys), q ≠ n := by
    rintro q hq rfl
    exact h.owned q (List.mem_append_left _ hq) (h.unused hfree)
  have hnp : p ∉ leafPages xs ∧ p ∉ leafPages ys := h.forest.middle_notMem
  have hchain : ∀ y ∈ cellsOf (xs ++ ⟨p, pre ++ c :: post⟩ :: ys), y.Stored H₂ := by
    intro y hy
    obtain ⟨hstored, hapart⟩ := h.mem_stored hy
    refine hstored.frame fun q hq => hsame q ?_ ?_ fun hz => ?_
    · rintro rfl
      exact hapart q (by simp) hq
    · rintro rfl
      obtain ⟨d, hd⟩ := hstored.owned q hq
      rw [hfree] at hd
      cases hd
    · rintro rfl
      cases ys with
      | nil => exact hz rfl
      | cons y ys => exact hapart _ (by simp [headPage]) hq
  refine ⟨x.rowid, n, _, hr, hn, hpart, ⟨?_, ?_, ?_⟩, ?_, ?_, ?_⟩
  · obtain ⟨hx, -, hy⟩ := leavesAt_append.mp h.forest.chain
    have hnodup := (List.nodup_append.mp h.forest.nodup).1
    rw [leafPages_append, leafPages_cons] at hnodup
    refine leavesAt_append.mpr ⟨hx.frame fun q hq => hsame q ?_ ?_ fun hz => ?_, ⟨dl, _, hHp, hl⟩,
      ⟨dr, _, hHn, hrr⟩, ?_⟩
    · rintro rfl
      exact hnp.1 hq
    · exact hleafn q (by simp [hq])
    · rintro rfl
      cases ys with
      | nil => exact hz rfl
      | cons y ys =>
          rw [List.nodup_append] at hnodup
          exact hnodup.2.2 _ hq _ (by simp [headPage]) rfl
    · cases ys with
      | nil => trivial
      | cons y ys =>
          have hy0 : y.page ≠ 0 := by
            obtain ⟨⟨d, _, hd, -⟩, -⟩ := hy
            exact hpos _ d hd
          refine hy.reprev hn (hnext hy0) fun q hq => hsame q ?_ ?_ fun _ => ?_
          · rintro rfl
            exact hnp.2 (by simp [hq])
          · exact hleafn q (by simp [hq])
          · rintro rfl
            rw [List.nodup_append, List.nodup_cons, leafPages_cons, List.nodup_cons] at hnodup
            exact hnodup.2.1.2.1 hq
  · intro y hy
    refine hchain y ?_
    rw [← hjoin]
    simp only [cellsOf_append, cellsOf_cons, List.mem_append, cellsOf_nil] at hy ⊢
    tauto
  · refine (pagesOf_split xs ys p n _ _).nodup_iff.mpr (List.nodup_cons.mpr ?_)
    rw [hjoin]
    refine ⟨fun hmem => ?_, h.nodup⟩
    rcases List.mem_append.mp ((pagesOf_add xs ys p pre post c).mem_iff.mp hmem) with hmem | hmem
    · obtain ⟨d, hd⟩ := h.stored.owned n hmem
      rw [hfree] at hd
      cases hd
    · exact h.owned n hmem (h.unused hfree)
  · intro q hq
    have hq := (pagesOf_split xs ys p n _ _).mem_iff.mp hq
    rw [hjoin] at hq
    rcases List.mem_cons.mp hq with rfl | hmem
    · exact .inr (h.unused hfree)
    · exact h.mem_add hmem
  · intro q hq hnone
    rw [hsame q ?_ ?_ fun hz => ?_, h.same hnone]
    · rintro rfl
      exact hq (by simp)
    · rintro rfl
      exact hnone (h.unused hfree)
    · rintro rfl
      cases ys with
      | nil => exact hz rfl
      | cons y ys => exact hq (by simp [headPage])
  · intro q hnone
    by_cases hqp : q = p
    · rw [hqp, hHp]
      exact Option.some_ne_none _
    by_cases hqn : q = n
    · rw [hqn, hHn]
      exact Option.some_ne_none _
    by_cases hqnext : headPage ys 0 ≠ 0 ∧ q = headPage ys 0
    · rw [hqnext.2, hnext hqnext.1, ← hqnext.2, h.same hnone]
      exact fun heq => hnone (Option.map_eq_none_iff.mp heq)
    · rw [hsame q hqp hqn fun hz heq => hqnext ⟨hz, heq⟩, h.same hnone]
      exact hnone

end Insert

def leafSpace (lens : List Nat) : Nat := LEAF_HEADER_SIZE + 2 * lens.length + lens.sum

-- Both cell lists that `split_leaf` would place fit their page.
def SplitFits (data : PageData) (rowid : Int64) (payload : List UInt8) : Prop :=
  match leafCells data with
  | .error _ => False
  | .ok old =>
      let insertPos := old.findIdx fun c => rowid < c.1
      let lens := (old.map fun c => c.2.length).insertIdx insertPos (cellLen payload)
      let mid := splitAt insertPos lens.length
      leafSpace (lens.take mid) ≤ PAGE_SIZE ∧ leafSpace (lens.drop mid) ≤ PAGE_SIZE

instance (data : PageData) (rowid : Int64) (payload : List UInt8) :
    Decidable (SplitFits data rowid payload) := by
  unfold SplitFits
  split <;> infer_instance

theorem leafSpace_lengths (cells : List Cell) :
    leafSpace (cells.map fun c => c.bytes.length) ≤ PAGE_SIZE ↔ FitsLeaf cells := by
  rw [leafSpace, FitsLeaf, content, List.length_map]

section Halves

variable {pre post : List Cell} {c : Cell} {lo next prev : Nat} {d : PageData}

theorem SplitFits.halves (h : SplitFits d c.rowid c.payload) (hleaf : LeafAt d (pre ++ post) lo next prev)
    (hpre : ∀ x ∈ pre, x.rowid.toInt < c.rowid.toInt) (hpost : ∀ x ∈ post, c.rowid.toInt < x.rowid.toInt) :
    FitsLeaf ((pre ++ c :: post).take (splitAt pre.length (pre ++ c :: post).length)) ∧
      FitsLeaf ((pre ++ c :: post).drop (splitAt pre.length (pre ++ c :: post).length)) := by
  have hlens : ((pre ++ post).map fun c => c.bytes.length).insertIdx pre.length (cellLen c.payload) =
      (pre ++ c :: post).map fun c => c.bytes.length := by
    have hlen : (pre.map fun c => c.bytes.length).length = pre.length := List.length_map _
    rw [List.map_append, ← hlen, insertIdx_append_length, ← c.length_bytes]
    simp
  rw [SplitFits, hleaf.collect] at h
  simp only [findIdx_cells hpre hpost, List.map_map] at h
  rw [show ((fun c : Int64 × List UInt8 => c.2.length) ∘ fun c : Cell => (c.rowid, c.bytes)) =
    fun c : Cell => c.bytes.length from rfl, hlens, List.length_map, ← List.map_take, ← List.map_drop,
    leafSpace_lengths, leafSpace_lengths] at h
  exact h

end Halves

section Calls

variable [Lz4Flex] {H : Heap} {xs ys : List Leaf} {pre post : List Cell} {c : Cell} {total p lo next prev : Nat}
  {d : PageData} {s : Pager} {rowid : Int64} {payload : List UInt8}

-- What the insert of an absent rowid does with the leaf it comes to.
theorem insertIntoLeaf_owns (hO : Owns H total s) (hF : Forest H (xs ++ ⟨p, pre ++ post⟩ :: ys))
    (hp : H p = some d) (hpre : ∀ x ∈ pre, x.rowid.toInt < rowid.toInt)
    (hpost : ∀ x ∈ post, rowid.toInt < x.rowid.toInt) (hshort : payload.length ≤ U32_MAX)
    (hroom : total + chainLen payload ≤ MAX_PAGES)
    (hfit : available LEAF_HEADER_SIZE d < cellLen payload + 2 →
      SplitFits d rowid payload ∧ total + chainLen payload < MAX_PAGES) :
    Yields (insertIntoLeaf p d rowid payload) s fun r s' => ∃ (c : Cell) (news : List Leaf) (H' : Heap)
        (total' : Nat), c.rowid = rowid ∧ c.payload = payload ∧ Grown H xs ⟨p, pre ++ post⟩ ys news H' ∧
      (r = .Done ∧ news = [⟨p, pre ++ c :: post⟩] ∨
        available LEAF_HEADER_SIZE d < cellLen payload + 2 ∧
          ∃ k n, r = .Split k n ∧ n < 2 ^ 32 ∧ Parted p (pre ++ c :: post) k n news) ∧
      total ≤ total' ∧ total' ≤ total + chainLen payload + 1 ∧ Owns H' total' s' := by
  obtain ⟨d₀, lo, hd₀, hleaf⟩ := hF.middle
  obtain rfl : d = d₀ := Option.some.inj (hp.symm.trans hd₀)
  simp only at hleaf
  rw [insertIntoLeaf_eq]
  refine (stageCell_owns rowid hO hshort hroom).bind
    fun cell s₁ ⟨c, H₁, total₁, hrowid, hpayload, hcell, hstored, hfresh, hframe, hge, hle, hO₁⟩ => ?_
  have hstaged := Staged.of_fresh hF hstored hfresh hframe
  have hp₁ : H₁ p = some d := by
    rw [hstaged.same (by rw [hp]; exact Option.some_ne_none _)]
    exact hp
  subst hrowid hpayload hcell
  have hlen := c.length_bytes
  have havail := hleaf.room
  split_ifs with hspace
  · refine (insertCellIntoLeaf_owns hO₁ hp₁ hleaf hpre hpost (by omega)).bind
      fun _ s₂ ⟨d', hleaf', hO₂⟩ => ?_
    exact .pure ⟨c, _, _, total₁, rfl, rfl, hstaged.put hleaf', .inl ⟨rfl, rfl⟩, hge, by omega, hO₂⟩
  · obtain ⟨hfits, hmore⟩ := hfit (by omega)
    obtain ⟨hl, hr⟩ := hfits.halves hleaf hpre hpost
    have hnext : headPage ys 0 ≠ 0 → headPage ys 0 ≠ p ∧ ∃ dn, H₁ (headPage ys 0) = some dn := by
      intro hz
      cases ys with
      | nil => exact absurd rfl hz
      | cons y ys =>
          have hmem := hstaged.forest.middle_notMem.2
          obtain ⟨dn, hdn⟩ := hstaged.forest.owned (mem_pagesOf_leaf (l := y) (by simp))
          exact ⟨fun heq => hmem (heq ▸ List.mem_cons_self), dn, hdn⟩
    refine (splitLeaf_owns hO₁ hp₁ hleaf hpre hpost hl hr hnext (by omega)).mono
      fun r s₂ ⟨H₂, total₂, hsplit, hge₂, hle₂, hO₂⟩ => ?_
    have hpos : ∀ q d, H₁ q = some d → q ≠ 0 := by
      intro q d hq
      have := hO₁.range hq
      omega
    obtain ⟨k, n, news, hr, hn, hpart, hgrown⟩ := hstaged.split hpos (hleaf.sorted.insert hpre hpost) hsplit
    exact ⟨c, news, H₂, total₂, rfl, rfl, hgrown, .inr ⟨by omega, k, n, hr, hn, hpart⟩, by omega, by omega, hO₂⟩

-- A rowid that is there is refused when the leaf has room; the chain written before stays behind.
theorem insertIntoLeaf_fails (hO : Owns H total s) (hF : Forest H (xs ++ ⟨p, pre ++ c :: post⟩ :: ys))
    (hp : H p = some d) (hshort : payload.length ≤ U32_MAX) (hroom : total + chainLen payload ≤ MAX_PAGES)
    (hspace : cellLen payload + 2 ≤ available LEAF_HEADER_SIZE d) :
    Raises (insertIntoLeaf p d c.rowid payload) s (duplicateRowid c.rowid) fun s' => ∃ H' total',
      (∀ q, H q ≠ none → H' q = H q) ∧ total ≤ total' ∧ total' ≤ total + chainLen payload ∧
      Owns H' total' s' := by
  obtain ⟨d₀, lo, hd₀, hleaf⟩ := hF.middle
  obtain rfl : d = d₀ := Option.some.inj (hp.symm.trans hd₀)
  rw [insertIntoLeaf_eq]
  refine (stageCell_owns c.rowid hO hshort hroom).bind_raises
    fun cell s₁ ⟨c', H₁, total₁, hrowid, hpayload, hcell, hstored, hfresh, hframe, hge, hle, hO₁⟩ => ?_
  have hstaged := Staged.of_fresh hF hstored hfresh hframe
  have hp₁ : H₁ p = some d := by
    rw [hstaged.same (by rw [hp]; exact Option.some_ne_none _)]
    exact hp
  rw [if_pos hspace]
  exact (insertCellIntoLeaf_fails hO₁ hp₁ hleaf cell).bind.mono fun s₂ hO₂ =>
    ⟨H₁, total₁, fun q hq => hstaged.same hq, hge, hle, hO₂⟩

end Calls

end BTree

end Kkdb
