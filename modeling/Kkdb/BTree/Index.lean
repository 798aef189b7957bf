import Kkdb.BTree.Chain
import Kkdb.BTree.Interior

namespace Kkdb

open Lib

namespace BTree

section Kids

-- The children of an interior page from the left, each with its subtree: the rowids of a child
-- are from the bound of the child before it up to its own.
def Kids (S : Nat → Int → Int → List Leaf → List Nat → Prop) :
    Int → List (Nat × Int) → List Leaf → List Nat → Prop
  | _, [], leaves, inner => leaves = [] ∧ inner = []
  | lo, (child, hi) :: rest, leaves, inner => ∃ l₁ l₂ i₁ i₂, leaves = l₁ ++ l₂ ∧ inner = i₁ ++ i₂ ∧
      S child lo hi l₁ i₁ ∧ Kids S hi rest l₂ i₂

def endBound : Int → List (Nat × Int) → Int
  | lo, [] => lo
  | _, (_, hi) :: rest => endBound hi rest

variable {S S' : Nat → Int → Int → List Leaf → List Nat → Prop} {lo : Int} {xs ys : List (Nat × Int)}
  {leaves : List Leaf} {inner : List Nat}

theorem kids_append :
    Kids S lo (xs ++ ys) leaves inner ↔ ∃ l₁ l₂ i₁ i₂, leaves = l₁ ++ l₂ ∧ inner = i₁ ++ i₂ ∧
      Kids S lo xs l₁ i₁ ∧ Kids S (endBound lo xs) ys l₂ i₂ := by
  induction xs generalizing lo leaves inner with
  | nil =>
      constructor
      · intro h
        exact ⟨[], leaves, [], inner, rfl, rfl, ⟨rfl, rfl⟩, h⟩
      · rintro ⟨l₁, l₂, i₁, i₂, rfl, rfl, ⟨rfl, rfl⟩, h⟩
        exact h
  | cons x xs ih =>
      obtain ⟨child, hi⟩ := x
      constructor
      · rintro ⟨l₁, l₂, i₁, i₂, rfl, rfl, hchild, hrest⟩
        obtain ⟨l₃, l₄, i₃, i₄, rfl, rfl, hxs, hys⟩ := ih.mp hrest
        exact ⟨l₁ ++ l₃, l₄, i₁ ++ i₃, i₄, by simp, by simp, ⟨l₁, l₃, i₁, i₃, rfl, rfl, hchild, hxs⟩, hys⟩
      · rintro ⟨l₁, l₂, i₁, i₂, rfl, rfl, ⟨l₃, l₄, i₃, i₄, rfl, rfl, hchild, hxs⟩, hys⟩
        exact ⟨l₃, l₄ ++ l₂, i₃, i₄ ++ i₂, by simp, by simp, hchild,
          ih.mpr ⟨l₄, l₂, i₄, i₂, rfl, rfl, hxs, hys⟩⟩

theorem Kids.mono (h : Kids S lo xs leaves inner)
    (hS : ∀ c a b l i, (∀ q ∈ i, q ∈ inner) → S c a b l i → S' c a b l i) : Kids S' lo xs leaves inner := by
  induction xs generalizing lo leaves inner with
  | nil => exact h
  | cons x xs ih =>
      obtain ⟨l₁, l₂, i₁, i₂, rfl, rfl, hchild, hrest⟩ := h
      exact ⟨l₁, l₂, i₁, i₂, rfl, rfl, hS _ _ _ _ _ (fun q hq => List.mem_append_left _ hq) hchild,
        ih hrest fun c a b l i hi => hS c a b l i fun q hq => List.mem_append_right _ (hi q hq)⟩

theorem Kids.map {f : Leaf → Leaf} (h : Kids S lo xs leaves inner)
    (hS : ∀ c a b l i, S c a b l i → S' c a b (l.map f) i) : Kids S' lo xs (leaves.map f) inner := by
  induction xs generalizing lo leaves inner with
  | nil =>
      obtain ⟨rfl, rfl⟩ := h
      exact ⟨rfl, rfl⟩
  | cons x xs ih =>
      obtain ⟨l₁, l₂, i₁, i₂, rfl, rfl, hchild, hrest⟩ := h
      exact ⟨l₁.map f, l₂.map f, i₁, i₂, List.map_append, rfl, hS _ _ _ _ _ hchild, ih hrest⟩

theorem endBound_append (lo : Int) (xs ys : List (Nat × Int)) :
    endBound lo (xs ++ ys) = endBound (endBound lo xs) ys := by
  induction xs generalizing lo with
  | nil => rfl
  | cons x xs ih => exact ih x.2

theorem Kids.mem_inner {q : Nat} (h : Kids S lo xs leaves inner) (hq : q ∈ inner) :
    ∃ c a b l i, S c a b l i ∧ q ∈ i := by
  induction xs generalizing lo leaves inner with
  | nil =>
      obtain ⟨-, rfl⟩ := h
      cases hq
  | cons x xs ih =>
      obtain ⟨l₁, l₂, i₁, i₂, rfl, rfl, hchild, hrest⟩ := h
      rcases List.mem_append.mp hq with hq | hq
      · exact ⟨_, _, _, _, _, hchild, hq⟩
      · exact ih hrest hq

def Rising (lo : Int) (xs : List (Nat × Int)) : Prop := (lo :: xs.map Prod.snd).Pairwise (· ≤ ·)

theorem Rising.le_endBound (h : Rising lo xs) : lo ≤ endBound lo xs := by
  induction xs generalizing lo with
  | nil => exact le_rfl
  | cons x xs ih =>
      rw [Rising, List.map_cons, List.pairwise_cons] at h
      exact le_trans (h.1 x.2 List.mem_cons_self) (ih h.2)

theorem Rising.mem_le_endBound {x : Nat × Int} (h : Rising lo xs) (hx : x ∈ xs) : x.2 ≤ endBound lo xs := by
  induction xs generalizing lo with
  | nil => cases hx
  | cons y xs ih =>
      rw [Rising, List.map_cons, List.pairwise_cons] at h
      rcases List.mem_cons.mp hx with rfl | hmem
      · exact Rising.le_endBound h.2
      · exact ih h.2 hmem

theorem Kids.bounds (h : Kids S lo xs leaves inner) (hrise : Rising lo xs)
    (hS : ∀ c a b l i, a ≤ b → S c a b l i → ∀ x ∈ cellsOf l, a ≤ x.rowid.toInt ∧ x.rowid.toInt < b) :
    ∀ x ∈ cellsOf leaves, lo ≤ x.rowid.toInt ∧ x.rowid.toInt < endBound lo xs := by
  induction xs generalizing lo leaves inner with
  | nil =>
      obtain ⟨rfl, -⟩ := h
      intro x hx
      cases hx
  | cons x xs ih =>
      obtain ⟨l₁, l₂, i₁, i₂, rfl, rfl, hchild, hrest⟩ := h
      rw [Rising, List.map_cons, List.pairwise_cons] at hrise
      have hle : lo ≤ x.2 := hrise.1 x.2 List.mem_cons_self
      have hend : x.2 ≤ endBound x.2 xs := Rising.le_endBound hrise.2
      intro y hy
      rw [cellsOf_append, List.mem_append] at hy
      rw [endBound]
      rcases hy with hy | hy
      · have := hS _ _ _ _ _ hle hchild y hy
        omega
      · have := ih hrest hrise.2 y hy
        omega

theorem Kids.ascending (h : Kids S lo xs leaves inner) (hrise : Rising lo xs)
    (hS : ∀ c a b l i, a ≤ b → S c a b l i → ∀ x ∈ cellsOf l, a ≤ x.rowid.toInt ∧ x.rowid.toInt < b)
    (hsorted : ∀ c a b l i, a ≤ b → S c a b l i → (∀ l' ∈ l, Ascending l'.cells) → Ascending (cellsOf l))
    (hleaf : ∀ l ∈ leaves, Ascending l.cells) : Ascending (cellsOf leaves) := by
  induction xs generalizing lo leaves inner with
  | nil =>
      obtain ⟨rfl, -⟩ := h
      exact List.Pairwise.nil
  | cons x xs ih =>
      obtain ⟨l₁, l₂, i₁, i₂, rfl, rfl, hchild, hrest⟩ := h
      rw [Rising, List.map_cons, List.pairwise_cons] at hrise
      have hle : lo ≤ x.2 := hrise.1 x.2 List.mem_cons_self
      have h₁ := hsorted _ _ _ _ _ hle hchild fun l hl => hleaf l (List.mem_append_left _ hl)
      have h₂ := ih hrest hrise.2 fun l hl => hleaf l (List.mem_append_right _ hl)
      rw [cellsOf_append, Ascending, List.map_append, List.pairwise_append]
      refine ⟨h₁, h₂, fun a ha b hb => ?_⟩
      obtain ⟨y, hy, rfl⟩ := List.mem_map.mp ha
      obtain ⟨z, hz, rfl⟩ := List.mem_map.mp hb
      have := hS _ _ _ _ _ hle hchild y hy
      have := hrest.bounds hrise.2 hS z hz
      omega

end Kids

-- A subtree for the rowids from `lo` up to `hi`: its leaves in order and its interior pages.
-- What the leaves hold is said of the whole row of leaves.
def Sub (H : Heap) : Nat → Nat → Int → Int → List Leaf → List Nat → Prop
  | 0, page, lo, hi, leaves, inner => ∃ cells, leaves = [⟨page, cells⟩] ∧ inner = [] ∧
      ∀ c ∈ cells, lo ≤ c.rowid.toInt ∧ c.rowid.toInt < hi
  | depth + 1, page, lo, hi, leaves, inner => ∃ d entries right below, H page = some d ∧
      InteriorAt d entries right ∧ inner = page :: below ∧ Increasing entries ∧
      (∀ e ∈ entries, lo ≤ e.2.toInt ∧ e.2.toInt < hi) ∧
      Kids (Sub H depth) lo (items entries right hi) leaves below

section Sub

variable {H H' : Heap} {depth page : Nat} {lo hi : Int} {leaves : List Leaf} {inner : List Nat}

theorem Sub.frame (h : Sub H depth page lo hi leaves inner) (hsame : ∀ q ∈ inner, H' q = H q) :
    Sub H' depth page lo hi leaves inner := by
  induction depth generalizing page lo hi leaves inner with
  | zero => exact h
  | succ depth ih =>
      obtain ⟨d, entries, right, below, hd, hint, rfl, hinc, hkeys, hkids⟩ := h
      refine ⟨d, entries, right, below, ?_, hint, rfl, hinc, hkeys, hkids.mono fun c a b l i hi hsub => ?_⟩
      · rw [hsame page List.mem_cons_self]
        exact hd
      · exact ih hsub fun q hq => hsame q (List.mem_cons_of_mem _ (hi q hq))

theorem Kids.frame {xs : List (Nat × Int)} (h : Kids (Sub H depth) lo xs leaves inner)
    (hsame : ∀ q ∈ inner, H' q = H q) : Kids (Sub H' depth) lo xs leaves inner :=
  h.mono fun _ _ _ _ _ hi hsub => hsub.frame fun q hq => hsame q (hi q hq)

theorem Sub.map {f : Leaf → Leaf} (h : Sub H depth page lo hi leaves inner)
    (hpage : ∀ l, (f l).page = l.page) (hcells : ∀ l, ∀ c ∈ (f l).cells, c ∈ l.cells) :
    Sub H depth page lo hi (leaves.map f) inner := by
  induction depth generalizing page lo hi leaves inner with
  | zero =>
      obtain ⟨cells, rfl, rfl, hbounds⟩ := h
      refine ⟨(f ⟨page, cells⟩).cells, ?_, rfl, fun c hc => hbounds c (hcells _ c hc)⟩
      rw [List.map_cons, List.map_nil]
      exact congrArg (fun p => [Leaf.mk p (f ⟨page, cells⟩).cells]) (hpage ⟨page, cells⟩)
  | succ depth ih =>
      obtain ⟨d, entries, right, below, hd, hint, rfl, hinc, hkeys, hkids⟩ := h
      exact ⟨d, entries, right, below, hd, hint, rfl, hinc, hkeys, hkids.map fun c a b l i hsub => ih hsub⟩

theorem Sub.owned (h : Sub H depth page lo hi leaves inner) : ∀ q ∈ inner, ∃ d, H q = some d := by
  induction depth generalizing page lo hi leaves inner with
  | zero =>
      obtain ⟨cells, -, rfl, -⟩ := h
      intro q hq
      cases hq
  | succ depth ih =>
      obtain ⟨d, entries, right, below, hd, -, rfl, -, -, hkids⟩ := h
      intro q hq
      rcases List.mem_cons.mp hq with rfl | hmem
      · exact ⟨d, hd⟩
      · obtain ⟨c, a, b, l, i, hsub, hq⟩ := hkids.mem_inner hmem
        exact ih hsub q hq

theorem Sub.depth_le (h : Sub H depth page lo hi leaves inner) : depth ≤ inner.length := by
  induction depth generalizing page lo hi leaves inner with
  | zero => exact Nat.zero_le _
  | succ depth ih =>
      obtain ⟨d, entries, right, below, hd, -, rfl, -, -, hkids⟩ := h
      rw [items, kids_append] at hkids
      obtain ⟨l₁, l₂, i₁, i₂, -, rfl, -, ⟨l₃, l₄, i₃, i₄, -, rfl, hchild, -⟩⟩ := hkids
      have := ih hchild
      rw [List.length_cons, List.length_append, List.length_append]
      omega

theorem endBound_items (lo : Int) (entries : List (Nat × Int64)) (right : Nat) (hi : Int) :
    endBound lo (items entries right hi) = hi := by
  rw [items, endBound_append]
  rfl

theorem rising_items {entries : List (Nat × Int64)} (right : Nat) (hle : lo ≤ hi) (hinc : Increasing entries)
    (hkeys : ∀ e ∈ entries, lo ≤ e.2.toInt ∧ e.2.toInt < hi) : Rising lo (items entries right hi) := by
  have hmap : (items entries right hi).map Prod.snd = entries.map (fun e => e.2.toInt) ++ [hi] := by
    rw [items, List.map_append, List.map_map]
    rfl
  rw [Rising, hmap, List.pairwise_cons, List.pairwise_append]
  refine ⟨fun b hb => ?_, hinc.imp fun h => Int.le_of_lt h, List.pairwise_singleton _ _, fun a ha b hb => ?_⟩
  · rcases List.mem_append.mp hb with hb | hb
    · obtain ⟨e, he, rfl⟩ := List.mem_map.mp hb
      exact (hkeys e he).1
    · rw [List.mem_singleton.mp hb]
      exact hle
  · obtain ⟨e, he, rfl⟩ := List.mem_map.mp ha
    rw [List.mem_singleton.mp hb]
    exact Int.le_of_lt (hkeys e he).2

theorem Sub.bounds (h : Sub H depth page lo hi leaves inner) (hle : lo ≤ hi) :
    ∀ c ∈ cellsOf leaves, lo ≤ c.rowid.toInt ∧ c.rowid.toInt < hi := by
  induction depth generalizing page lo hi leaves inner with
  | zero =>
      obtain ⟨cells, rfl, -, hbounds⟩ := h
      simpa [cellsOf] using hbounds
  | succ depth ih =>
      obtain ⟨d, entries, right, below, -, -, -, hinc, hkeys, hkids⟩ := h
      have hb := hkids.bounds (rising_items right hle hinc hkeys) fun c a b l i hab hsub => ih hsub hab
      rw [endBound_items] at hb
      exact hb

theorem Sub.ascending (h : Sub H depth page lo hi leaves inner) (hle : lo ≤ hi)
    (hleaf : ∀ l ∈ leaves, Ascending l.cells) : Ascending (cellsOf leaves) := by
  induction depth generalizing page lo hi leaves inner with
  | zero =>
      obtain ⟨cells, rfl, -, -⟩ := h
      simpa [cellsOf] using hleaf ⟨page, cells⟩ List.mem_cons_self
  | succ depth ih =>
      obtain ⟨d, entries, right, below, -, -, -, hinc, hkeys, hkids⟩ := h
      exact hkids.ascending (rising_items right hle hinc hkeys)
        (fun c a b l i hab hsub => hsub.bounds hab) (fun c a b l i hab hsub => ih hsub hab) hleaf

end Sub

section Turn

-- The keys of an interior page around the child that the search for a rowid goes to, and the
-- parts of the subtree on the left of that child, below it and on its right.
structure Turn where
  pre : List (Nat × Int64)
  post : List (Nat × Int64)
  right : Nat
  child : Nat
  bound : Int
  rest : List (Nat × Int)
  leavesLeft : List Leaf
  leavesBelow : List Leaf
  leavesRight : List Leaf
  innerLeft : List Nat
  innerBelow : List Nat
  innerRight : List Nat

def childBounds (entries : List (Nat × Int64)) : List (Nat × Int) := entries.map fun e => (e.1, e.2.toInt)

structure TurnAt (H : Heap) (depth page : Nat) (lo hi : Int) (leaves : List Leaf) (inner : List Nat)
    (rowid : Int64) (t : Turn) : Prop where
  data : ∃ d, H page = some d ∧ InteriorAt d (t.pre ++ t.post) t.right
  inner : inner = page :: (t.innerLeft ++ (t.innerBelow ++ t.innerRight))
  leaves : leaves = t.leavesLeft ++ (t.leavesBelow ++ t.leavesRight)
  increasing : Increasing (t.pre ++ t.post)
  keys : ∀ e ∈ t.pre ++ t.post, lo ≤ e.2.toInt ∧ e.2.toInt < hi
  before : ∀ e ∈ t.pre, e.2.toInt ≤ rowid.toInt
  behind : ∀ e ∈ t.post, rowid.toInt < e.2.toInt
  place : items t.post t.right hi = (t.child, t.bound) :: t.rest
  kidsLeft : Kids (Sub H depth) lo (childBounds t.pre) t.leavesLeft t.innerLeft
  below : Sub H depth t.child (endBound lo (childBounds t.pre)) t.bound t.leavesBelow t.innerBelow
  kidsRight : Kids (Sub H depth) t.bound t.rest t.leavesRight t.innerRight
  low : endBound lo (childBounds t.pre) ≤ rowid.toInt
  high : rowid.toInt < t.bound

variable {H : Heap} {depth page : Nat} {lo hi : Int} {leaves : List Leaf} {inner : List Nat} {rowid : Int64}
  {t : Turn}

theorem Increasing.split {entries : List (Nat × Int64)} (h : Increasing entries) (rowid : Int64) :
    ∃ pre post, entries = pre ++ post ∧ (∀ e ∈ pre, e.2.toInt ≤ rowid.toInt) ∧
      ∀ e ∈ post, rowid.toInt < e.2.toInt := by
  induction entries with
  | nil => exact ⟨[], [], rfl, fun e he => (by cases he), fun e he => (by cases he)⟩
  | cons e entries ih =>
      rw [Increasing, List.map_cons, List.pairwise_cons] at h
      by_cases hle : e.2.toInt ≤ rowid.toInt
      · obtain ⟨pre, post, rfl, hpre, hpost⟩ := ih h.2
        exact ⟨e :: pre, post, rfl, List.forall_mem_cons.mpr ⟨hle, hpre⟩, hpost⟩
      · refine ⟨[], e :: entries, rfl, fun e he => (by cases he), fun x hx => ?_⟩
        rcases List.mem_cons.mp hx with rfl | hmem
        · omega
        · have := h.1 _ (List.mem_map_of_mem hmem)
          omega

theorem endBound_le {xs : List (Nat × Int)} {b : Int} (hlo : lo ≤ b) (h : ∀ x ∈ xs, x.2 ≤ b) :
    endBound lo xs ≤ b := by
  induction xs generalizing lo with
  | nil => exact hlo
  | cons x xs ih =>
      exact ih (h x List.mem_cons_self) fun y hy => h y (List.mem_cons_of_mem _ hy)

theorem Sub.turn (h : Sub H (depth + 1) page lo hi leaves inner) (hlo : lo ≤ rowid.toInt)
    (hhi : rowid.toInt < hi) : ∃ t, TurnAt H depth page lo hi leaves inner rowid t := by
  obtain ⟨d, entries, right, below, hd, hint, rfl, hinc, hkeys, hkids⟩ := h
  obtain ⟨pre, post, rfl, hpre, hpost⟩ := hinc.split rowid
  rw [items_append, kids_append] at hkids
  obtain ⟨l₁, l₂, i₁, i₂, rfl, rfl, hleft, hright⟩ := hkids
  have hlow : endBound lo (childBounds pre) ≤ rowid.toInt := by
    refine endBound_le hlo fun x hx => ?_
    obtain ⟨e, he, rfl⟩ := List.mem_map.mp hx
    exact hpre e he
  obtain ⟨child, bound, rest, hitems, hhigh⟩ : ∃ child bound rest,
      items post right hi = (child, bound) :: rest ∧ rowid.toInt < bound := by
    cases post with
    | nil => exact ⟨right, hi, [], rfl, hhi⟩
    | cons e post => exact ⟨e.1, e.2.toInt, items post right hi, rfl, hpost e List.mem_cons_self⟩
  rw [hitems] at hright
  obtain ⟨l₃, l₄, i₃, i₄, rfl, rfl, hbelow, hrest⟩ := hright
  exact ⟨⟨pre, post, right, child, bound, rest, l₁, l₃, l₄, i₁, i₃, i₄⟩, ⟨d, hd, hint⟩, rfl, rfl, hinc, hkeys,
    hpre, hpost, hitems, hleft, hbelow, hrest, hlow, hhigh⟩

theorem TurnAt.child_eq (h : TurnAt H depth page lo hi leaves inner rowid t) :
    t.child = (t.post.head?.map Prod.fst).getD t.right := by
  have hitems := h.place
  cases hpost : t.post with
  | nil =>
      rw [hpost, items, List.map_nil, List.nil_append, List.cons.injEq, Prod.mk.injEq] at hitems
      exact hitems.1.1.symm
  | cons e post =>
      rw [hpost, items, List.map_cons, List.cons_append, List.cons.injEq, Prod.mk.injEq] at hitems
      exact hitems.1.1.symm

theorem TurnAt.rising_left (h : TurnAt H depth page lo hi leaves inner rowid t) :
    Rising lo (childBounds t.pre) := by
  have hmap : (childBounds t.pre).map Prod.snd = t.pre.map fun e => e.2.toInt := by
    rw [childBounds, List.map_map]
    rfl
  have hinc := h.increasing
  rw [Increasing, List.map_append, List.pairwise_append] at hinc
  rw [Rising, hmap, List.pairwise_cons]
  refine ⟨fun b hb => ?_, hinc.1.imp fun hlt => Int.le_of_lt hlt⟩
  obtain ⟨e, he, rfl⟩ := List.mem_map.mp hb
  exact (h.keys e (List.mem_append_left _ he)).1

theorem TurnAt.rising_right (h : TurnAt H depth page lo hi leaves inner rowid t) : Rising t.bound t.rest := by
  have hinc := h.increasing
  rw [Increasing, List.map_append, List.pairwise_append] at hinc
  have hitems := h.place
  cases hpost : t.post with
  | nil =>
      rw [hpost, items, List.map_nil, List.nil_append, List.cons.injEq] at hitems
      rw [← hitems.2]
      exact List.pairwise_singleton _ _
  | cons e post =>
      rw [hpost] at hitems hinc
      rw [items, List.map_cons, List.cons_append, List.cons.injEq, Prod.mk.injEq] at hitems
      obtain ⟨⟨-, hbound⟩, hrest⟩ := hitems
      have hkey := h.keys e (by simp [hpost])
      rw [← hbound, ← hrest]
      have hpost' := hinc.2.1
      rw [List.map_cons, List.pairwise_cons] at hpost'
      refine rising_items t.right (Int.le_of_lt hkey.2) hpost'.2 fun x hx => ⟨?_, ?_⟩
      · exact Int.le_of_lt (hpost'.1 _ (List.mem_map_of_mem hx))
      · exact (h.keys x (by simp [hpost, hx])).2

theorem TurnAt.sides (h : TurnAt H depth page lo hi leaves inner rowid t) :
    (∀ c ∈ cellsOf t.leavesLeft, c.rowid.toInt < rowid.toInt) ∧
      ∀ c ∈ cellsOf t.leavesRight, rowid.toInt < c.rowid.toInt := by
  have hsub : ∀ c a b l i, a ≤ b → Sub H depth c a b l i → ∀ x ∈ cellsOf l, a ≤ x.rowid.toInt ∧
      x.rowid.toInt < b :=
    fun c a b l i hab hsub => hsub.bounds hab
  refine ⟨fun c hc => ?_, fun c hc => ?_⟩
  · have := (h.kidsLeft.bounds h.rising_left hsub c hc).2
    have := h.low
    omega
  · have := (h.kidsRight.bounds h.rising_right hsub c hc).1
    have := h.high
    omega

end Turn

def Route (H : Heap) (rowid : Int64) : Nat → Nat → Nat → Prop
  | 0, page, leaf => page = leaf
  | depth + 1, page, leaf => ∃ d child, H page = some d ∧ pageType d = INTERIOR_TABLE ∧
      childFor d rowid = .ok child ∧ Route H rowid depth child leaf

theorem Sub.route {H : Heap} {depth page : Nat} {lo hi : Int} {leaves : List Leaf} {inner : List Nat}
    {rowid : Int64} (h : Sub H depth page lo hi leaves inner) (hlo : lo ≤ rowid.toInt)
    (hhi : rowid.toInt < hi) :
    ∃ xs l ys, leaves = xs ++ l :: ys ∧ Route H rowid depth page l.page ∧
      (∀ c ∈ cellsOf xs, c.rowid.toInt < rowid.toInt) ∧ ∀ c ∈ cellsOf ys, rowid.toInt < c.rowid.toInt := by
  induction depth generalizing page lo hi leaves inner with
  | zero =>
      obtain ⟨cells, rfl, -, -⟩ := h
      exact ⟨[], ⟨page, cells⟩, [], rfl, rfl, fun c hc => (by cases hc), fun c hc => (by cases hc)⟩
  | succ depth ih =>
      obtain ⟨t, ht⟩ := h.turn hlo hhi
      obtain ⟨xs, l, ys, hbelow, hroute, hxs, hys⟩ := ih ht.below ht.low ht.high
      obtain ⟨d, hd, hint⟩ := ht.data
      obtain ⟨hleft, hright⟩ := ht.sides
      refine ⟨t.leavesLeft ++ xs, l, ys ++ t.leavesRight, by rw [ht.leaves, hbelow]; simp,
        ⟨d, t.child, hd, hint.laid.type, by rw [ht.child_eq]; exact hint.childFor ht.before ht.behind, hroute⟩,
        fun c hc => ?_, fun c hc => ?_⟩
      · rw [cellsOf_append, List.mem_append] at hc
        exact hc.elim (hleft c) (hxs c)
      · rw [cellsOf_append, List.mem_append] at hc
        exact hc.elim (hys c) (hright c)

end BTree

end Kkdb
