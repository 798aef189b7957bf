import Mathlib.Data.List.Sort

namespace Lib

section Total

variable {α : Type}

-- A comparison that is a total order of the elements of a list.
structure TotalOn (cmp : α → α → Ordering) (xs : List α) : Prop where
  refl : ∀ x ∈ xs, cmp x x = .eq
  swap : ∀ x ∈ xs, ∀ y ∈ xs, cmp y x = (cmp x y).swap
  trans : ∀ x ∈ xs, ∀ y ∈ xs, ∀ z ∈ xs, cmp x y ≠ .gt → cmp y z ≠ .gt → cmp x z ≠ .gt

def Partitioned (p : α → Bool) (xs : List α) : Prop := xs.Pairwise fun x y => p y = true → p x = true

-- What a library of slices promises of sorting and of binary search: nothing of a comparison
-- that is no total order, where sorting may panic, nor of a slice that is not partitioned.
structure SliceOps (α : Type) where
  sortUnstableBy : (α → α → Ordering) → List α → Option (List α)
  partitionPoint : List α → (α → Bool) → Nat
  perm : ∀ cmp xs ys, sortUnstableBy cmp xs = some ys → ys.Perm xs
  sorts : ∀ cmp xs, TotalOn cmp xs → ∃ ys, sortUnstableBy cmp xs = some ys ∧
    ys.Pairwise fun x y => cmp x y ≠ .gt
  partitions : ∀ xs p, Partitioned p xs → partitionPoint xs p = xs.countP p
  inside : ∀ xs p, partitionPoint xs p ≤ xs.length

variable {cmp : α → α → Ordering} {xs ys : List α} {p : α → Bool}

theorem take_countP (h : Partitioned p xs) : xs.take (xs.countP p) = xs.filter p := by
  induction xs with
  | nil => rfl
  | cons x xs ih =>
      rw [Partitioned, List.pairwise_cons] at h
      cases hx : p x with
      | true => rw [List.countP_cons_of_pos hx, List.take_succ_cons, List.filter_cons_of_pos hx, ih h.2]
      | false =>
          have hnone : ∀ y ∈ x :: xs, ¬p y = true := by
            intro y hy hpy
            rcases List.mem_cons.mp hy with rfl | hy
            · rw [hx] at hpy
              cases hpy
            · have hpx := h.1 y hy hpy
              rw [hx] at hpx
              cases hpx
          rw [List.countP_eq_zero.mpr hnone, List.take_zero, List.filter_eq_nil_iff.mpr hnone]

theorem drop_countP (h : Partitioned p xs) : xs.drop (xs.countP p) = xs.filter fun x => !p x := by
  induction xs with
  | nil => rfl
  | cons x xs ih =>
      rw [Partitioned, List.pairwise_cons] at h
      cases hx : p x with
      | true =>
          rw [List.countP_cons_of_pos hx, List.drop_succ_cons, ih h.2, List.filter_cons_of_neg (by simp [hx])]
      | false =>
          have hnone : ∀ y ∈ x :: xs, ¬p y = true := by
            intro y hy hpy
            rcases List.mem_cons.mp hy with rfl | hy
            · rw [hx] at hpy
              cases hpy
            · have hpx := h.1 y hy hpy
              rw [hx] at hpx
              cases hpx
          rw [List.countP_eq_zero.mpr hnone, List.drop_zero, List.filter_eq_self.mpr]
          intro y hy
          simpa using hnone y hy

-- In a sorted list without repeated elements, the elements with a property come first exactly
-- if none of the others is smaller than one of them.
theorem partitioned_iff (hswap : ∀ x ∈ xs, ∀ y ∈ xs, cmp y x = (cmp x y).swap) (hperm : ys.Perm xs)
    (hsorted : ys.Pairwise fun x y => cmp x y ≠ .gt) (hnodup : ys.Pairwise fun x y => cmp x y ≠ .eq) :
    Partitioned p ys ↔ ∀ x ∈ xs, ∀ y ∈ xs, cmp x y = .lt → p y = true → p x = true := by
  have hstrict : ys.Pairwise fun x y => cmp x y = .lt := by
    refine (hsorted.and hnodup).imp fun {x y} h => ?_
    cases hxy : cmp x y with
    | lt => rfl
    | eq => exact absurd hxy h.2
    | gt => exact absurd hxy h.1
  constructor
  · intro hpart x hx y hy hlt
    obtain ⟨i, hi, rfl⟩ := List.mem_iff_getElem.mp (hperm.mem_iff.mpr hx)
    obtain ⟨j, hj, rfl⟩ := List.mem_iff_getElem.mp (hperm.mem_iff.mpr hy)
    -- of two elements the smaller one comes first
    rcases Nat.lt_trichotomy i j with hij | rfl | hij
    · exact List.pairwise_iff_getElem.mp hpart i j hi hj hij
    · exact id
    · have hgt := List.pairwise_iff_getElem.mp hstrict j i hj hi hij
      rw [hswap _ hx _ hy, hlt] at hgt
      cases hgt
  · intro h
    refine hstrict.imp_of_mem fun {x y} hx hy hlt => ?_
    exact h x (hperm.mem_iff.mp hx) y (hperm.mem_iff.mp hy) hlt

section Instances

variable (cmp : α → α → Ordering) (xs : List α)

-- The elements of the list with their membership, so that the comparison is total on the type.
def sortAttached : List α :=
  (xs.attach.insertionSort fun a b => cmp a.1 b.1 ≠ .gt).map Subtype.val

theorem perm_sortAttached : (sortAttached cmp xs).Perm xs := by
  have h := (List.perm_insertionSort (fun a b : { x // x ∈ xs } => cmp a.1 b.1 ≠ .gt) xs.attach).map
    Subtype.val
  rwa [List.attach_map_subtype_val] at h

variable {cmp xs}

theorem pairwise_sortAttached (h : TotalOn cmp xs) :
    (sortAttached cmp xs).Pairwise fun x y => cmp x y ≠ .gt := by
  have htrans : IsTrans { x // x ∈ xs } fun a b => cmp a.1 b.1 ≠ .gt :=
    ⟨fun a b c => h.trans a.1 a.2 b.1 b.2 c.1 c.2⟩
  have htotal : Std.Total fun a b : { x // x ∈ xs } => cmp a.1 b.1 ≠ .gt := ⟨fun a b => by
    rw [h.swap a.1 a.2 b.1 b.2]
    cases cmp a.1 b.1 <;> decide⟩
  exact List.pairwise_map.mpr (List.pairwise_insertionSort _ _)

-- The stable sort, with the count of the elements that have the property.
def SliceOps.counting (α : Type) : SliceOps α where
  sortUnstableBy := fun cmp xs => some (sortAttached cmp xs)
  partitionPoint := fun xs p => xs.countP p
  perm := fun cmp xs ys h => by
    cases h
    exact perm_sortAttached cmp xs
  sorts := fun cmp xs h => ⟨_, rfl, pairwise_sortAttached h⟩
  partitions := fun _ _ _ => rfl
  inside := fun _ _ => List.countP_le_length

open Classical in
-- A library that panics and answers at will where nothing is promised.
noncomputable def SliceOps.strict (answer : (α → Bool) → Prop) : SliceOps α where
  sortUnstableBy := fun cmp xs => if TotalOn cmp xs then some (sortAttached cmp xs) else none
  partitionPoint := fun xs p => if Partitioned p xs then xs.countP p
    else if answer p then xs.length else 0
  perm := fun cmp xs ys h => by
    split_ifs at h
    cases h
    exact perm_sortAttached cmp xs
  sorts := fun cmp xs h => ⟨_, if_pos h, pairwise_sortAttached h⟩
  partitions := fun _ _ h => if_pos h
  inside := fun xs p => by
    split_ifs
    · exact List.countP_le_length
    · exact le_rfl
    · exact Nat.zero_le _

end Instances

end Total

end Lib
