import Kkdb.BTree.Leaf

namespace Kkdb

open Lib

namespace BTree

structure Leaf where
  page : Nat
  cells : List Cell
  deriving DecidableEq

def headPage : List Leaf → Nat → Nat
  | [], after => after
  | l :: _, _ => l.page

def lastPage : Nat → List Leaf → Nat
  | prev, [] => prev
  | _, l :: ls => lastPage l.page ls

-- The leaves stand in a row: each names the one behind it and the one before it.
def LeavesAt (H : Heap) : Nat → List Leaf → Nat → Prop
  | _, [], _ => True
  | prev, l :: ls, after =>
      (∃ d lo, H l.page = some d ∧ LeafAt d l.cells lo (headPage ls after) prev) ∧
        LeavesAt H l.page ls after

def leafPages (leaves : List Leaf) : List Nat := leaves.map Leaf.page

def cellsOf (leaves : List Leaf) : List Cell := leaves.flatMap Leaf.cells

def pagesOf (leaves : List Leaf) : List Nat := leafPages leaves ++ (cellsOf leaves).flatMap Cell.chain

section Lists

variable (l : Leaf) (xs ys : List Leaf)

@[simp] theorem leafPages_append : leafPages (xs ++ ys) = leafPages xs ++ leafPages ys := List.map_append

@[simp] theorem leafPages_cons : leafPages (l :: xs) = l.page :: leafPages xs := rfl

@[simp] theorem cellsOf_append : cellsOf (xs ++ ys) = cellsOf xs ++ cellsOf ys := List.flatMap_append

@[simp] theorem cellsOf_cons : cellsOf (l :: xs) = l.cells ++ cellsOf xs := List.flatMap_cons

@[simp] theorem cellsOf_nil : cellsOf [] = [] := rfl

@[simp] theorem leafPages_nil : leafPages [] = [] := rfl

theorem headPage_append (after : Nat) : headPage (xs ++ ys) after = headPage xs (headPage ys after) := by
  cases xs with
  | nil => rfl
  | cons x xs => rfl

theorem lastPage_append (prev : Nat) : lastPage prev (xs ++ ys) = lastPage (lastPage prev xs) ys := by
  induction xs generalizing prev with
  | nil => rfl
  | cons x xs ih => exact ih x.page

end Lists

section Chain

variable {H H' : Heap} {prev after n : Nat} {l : Leaf} {xs ys : List Leaf}

theorem leavesAt_append :
    LeavesAt H prev (xs ++ ys) after ↔
      LeavesAt H prev xs (headPage ys after) ∧ LeavesAt H (lastPage prev xs) ys after := by
  induction xs generalizing prev with
  | nil => exact ⟨fun h => ⟨trivial, h⟩, fun h => h.2⟩
  | cons x xs ih =>
      rw [List.cons_append, LeavesAt, LeavesAt, ih, headPage_append, and_assoc]
      rfl

theorem LeavesAt.frame (h : LeavesAt H prev xs after) (hsame : ∀ p ∈ leafPages xs, H' p = H p) :
    LeavesAt H' prev xs after := by
  induction xs generalizing prev with
  | nil => trivial
  | cons x xs ih =>
      obtain ⟨⟨d, lo, hd, hleaf⟩, hrest⟩ := h
      refine ⟨⟨d, lo, ?_, hleaf⟩, ih hrest fun p hp => hsame p (List.mem_cons_of_mem _ hp)⟩
      rw [hsame x.page List.mem_cons_self]
      exact hd

theorem LeavesAt.leaf (h : LeavesAt H prev xs after) (hl : l ∈ xs) :
    ∃ d lo next prev, H l.page = some d ∧ LeafAt d l.cells lo next prev := by
  induction xs generalizing prev with
  | nil => cases hl
  | cons x xs ih =>
      obtain ⟨⟨d, lo, hd, hleaf⟩, hrest⟩ := h
      rcases List.mem_cons.mp hl with rfl | hmem
      · exact ⟨d, lo, _, _, hd, hleaf⟩
      · exact ih hrest hmem

theorem LeavesAt.reprev (h : LeavesAt H prev (l :: xs) after) (hn : n < 2 ^ 32)
    (hhead : H' l.page = (H l.page).map fun d => d.write 10 (leBytes 4 n))
    (hsame : ∀ p ∈ leafPages xs, H' p = H p) : LeavesAt H' n (l :: xs) after := by
  obtain ⟨⟨d, lo, hd, hleaf⟩, hrest⟩ := h
  refine ⟨⟨d.write 10 (leBytes 4 n), lo, ?_, hleaf.setPrev hn⟩, hrest.frame hsame⟩
  rw [hhead, hd]
  rfl

end Chain

-- What the tree keeps below its interior pages: the row of leaves from the first to the last,
-- with the overflow chains, all on different pages.
structure Forest (H : Heap) (leaves : List Leaf) : Prop where
  chain : LeavesAt H 0 leaves 0
  stored : ∀ c ∈ cellsOf leaves, c.Stored H
  nodup : (pagesOf leaves).Nodup

section Forest

variable {H H' : Heap} {p : Nat} {l : Leaf} {c : Cell} {leaves xs ys : List Leaf}

theorem mem_pagesOf_leaf (h : l ∈ leaves) : l.page ∈ pagesOf leaves :=
  List.mem_append_left _ (List.mem_map_of_mem h)

theorem mem_pagesOf_chain (h : c ∈ cellsOf leaves) (hp : p ∈ c.chain) : p ∈ pagesOf leaves :=
  List.mem_append_right _ (List.mem_flatMap.mpr ⟨c, h, hp⟩)

theorem Forest.frame (h : Forest H leaves) (hsame : ∀ p ∈ pagesOf leaves, H' p = H p) :
    Forest H' leaves where
  chain := h.chain.frame fun p hp => hsame p (List.mem_append_left _ hp)
  stored := fun c hc => (h.stored c hc).frame fun p hp => hsame p (mem_pagesOf_chain hc hp)
  nodup := h.nodup

theorem Forest.owned (h : Forest H leaves) (hp : p ∈ pagesOf leaves) : ∃ d, H p = some d := by
  rcases List.mem_append.mp hp with hp | hp
  · obtain ⟨l, hl, rfl⟩ := List.mem_map.mp hp
    obtain ⟨d, -, -, -, hd, -⟩ := h.chain.leaf hl
    exact ⟨d, hd⟩
  · obtain ⟨c, hc, hp⟩ := List.mem_flatMap.mp hp
    exact (h.stored c hc).owned p hp

theorem Forest.middle (h : Forest H (xs ++ l :: ys)) :
    ∃ d lo, H l.page = some d ∧ LeafAt d l.cells lo (headPage ys 0) (lastPage 0 xs) :=
  (leavesAt_append.mp h.chain).2.1

theorem Forest.middle_notMem (h : Forest H (xs ++ l :: ys)) :
    l.page ∉ leafPages xs ∧ l.page ∉ leafPages ys := by
  have hnodup := (List.nodup_append.mp h.nodup).1
  rw [leafPages_append, leafPages_cons, List.nodup_middle] at hnodup
  have hnot := (List.nodup_cons.mp hnodup).1
  rw [List.mem_append, not_or] at hnot
  exact hnot

theorem Forest.apart (h : Forest H leaves) (hl : p ∈ leafPages leaves) (hc : c ∈ cellsOf leaves) :
    p ∉ c.chain := fun hmem =>
  (List.nodup_append.mp h.nodup).2.2 p hl p (List.mem_flatMap.mpr ⟨c, hc, hmem⟩) rfl

end Forest

end BTree

end Kkdb
