import Kkdb.Lib.Slice

namespace Lib

variable {α : Type}

def Sorted (cmp : α → α → Ordering) (xs : List α) : Prop := xs.Pairwise fun x y => cmp x y ≠ .gt

-- The element at the index is where a sort would put it, between the smaller and the larger ones.
def Pivoted (cmp : α → α → Ordering) (n : Nat) (xs : List α) : Prop :=
  ∀ p, xs[n]? = some p → (∀ x ∈ xs.take n, cmp x p ≠ .gt) ∧ ∀ y ∈ xs.drop (n + 1), cmp p y ≠ .gt

-- What a library of slices promises of sorting and of selecting by a total order.
structure SortOps (α : Type) where
  sortBy : (α → α → Ordering) → List α → Option (List α)
  selectNthUnstableBy : (α → α → Ordering) → Nat → List α → Option (List α)
  sorts : ∀ cmp xs, TotalOn cmp xs → ∃ ys, sortBy cmp xs = some ys ∧ ys.Perm xs ∧ Sorted cmp ys
  selects : ∀ cmp n xs, TotalOn cmp xs → n < xs.length →
    ∃ ys, selectNthUnstableBy cmp n xs = some ys ∧ ys.Perm xs ∧ Pivoted cmp n ys

theorem TotalOn.subset {cmp : α → α → Ordering} {xs ys : List α} (h : TotalOn cmp xs) (hsub : ys ⊆ xs) :
    TotalOn cmp ys where
  refl x hx := h.refl x (hsub hx)
  swap x hx y hy := h.swap x (hsub hx) y (hsub hy)
  trans x hx y hy z hz := h.trans x (hsub hx) y (hsub hy) z (hsub hz)

theorem TotalOn.map {β : Type} {cmp : β → β → Ordering} {f : α → β} {xs : List α}
    (h : TotalOn (fun a b => cmp (f a) (f b)) xs) : TotalOn cmp (xs.map f) where
  refl := by
    intro x hx
    obtain ⟨a, ha, rfl⟩ := List.mem_map.mp hx
    exact h.refl a ha
  swap := by
    intro x hx y hy
    obtain ⟨a, ha, rfl⟩ := List.mem_map.mp hx
    obtain ⟨b, hb, rfl⟩ := List.mem_map.mp hy
    exact h.swap a ha b hb
  trans := by
    intro x hx y hy z hz
    obtain ⟨a, ha, rfl⟩ := List.mem_map.mp hx
    obtain ⟨b, hb, rfl⟩ := List.mem_map.mp hy
    obtain ⟨c, hc, rfl⟩ := List.mem_map.mp hz
    exact h.trans a ha b hb c hc

theorem TotalOn.comap {β : Type} {cmp : β → β → Ordering} {f : α → β} {xs : List α}
    (h : TotalOn cmp (xs.map f)) :
    TotalOn (fun a b => cmp (f a) (f b)) xs where
  refl _ hx := h.refl _ (List.mem_map_of_mem hx)
  swap _ hx _ hy := h.swap _ (List.mem_map_of_mem hx) _ (List.mem_map_of_mem hy)
  trans _ hx _ hy _ hz := h.trans _ (List.mem_map_of_mem hx) _ (List.mem_map_of_mem hy) _
    (List.mem_map_of_mem hz)

theorem TotalOn.congr {cmp cmp' : α → α → Ordering} {xs : List α} (h : TotalOn cmp xs)
    (heq : ∀ x ∈ xs, ∀ y ∈ xs, cmp x y = cmp' x y) : TotalOn cmp' xs where
  refl x hx := (heq x hx x hx).symm.trans (h.refl x hx)
  swap x hx y hy := by
    rw [← heq x hx y hy, ← heq y hy x hx]
    exact h.swap x hx y hy
  trans x hx y hy z hz := by
    rw [← heq x hx y hy, ← heq y hy z hz, ← heq x hx z hz]
    exact h.trans x hx y hy z hz

theorem TotalOn.lt_of_lt_of_le {cmp : α → α → Ordering} {xs : List α} (h : TotalOn cmp xs) {x y z : α}
    (hx : x ∈ xs)
    (hy : y ∈ xs) (hz : z ∈ xs) (hxy : cmp x y = .lt) (hyz : cmp y z ≠ .gt) : cmp x z = .lt := by
  have hxz := h.trans x hx y hy z hz (by rw [hxy]; decide) hyz
  cases hcmp : cmp x z with
  | lt => rfl
  | gt => exact absurd hcmp hxz
  | eq =>
      have hzx : cmp z x ≠ .gt := by
        rw [h.swap x hx z hz, hcmp]
        decide
      have hyx := h.trans y hy z hz x hx hyz hzx
      rw [h.swap x hx y hy, hxy] at hyx
      exact absurd rfl hyx

theorem TotalOn.lt_of_le_of_lt {cmp : α → α → Ordering} {xs : List α} (h : TotalOn cmp xs) {x y z : α}
    (hx : x ∈ xs)
    (hy : y ∈ xs) (hz : z ∈ xs) (hxy : cmp x y ≠ .gt) (hyz : cmp y z = .lt) : cmp x z = .lt := by
  have hxz := h.trans x hx y hy z hz hxy (by rw [hyz]; decide)
  cases hcmp : cmp x z with
  | lt => rfl
  | gt => exact absurd hcmp hxz
  | eq =>
      have hzx : cmp z x ≠ .gt := by
        rw [h.swap x hx z hz, hcmp]
        decide
      have hzy := h.trans z hz x hx y hy hzx hxy
      rw [h.swap y hy z hz, hyz] at hzy
      exact absurd rfl hzy

theorem TotalOn.then {cmp cmp' : α → α → Ordering} {xs : List α} (h : TotalOn cmp xs) (h' : TotalOn cmp' xs) :
    TotalOn (fun a b => (cmp a b).then (cmp' a b)) xs where
  refl x hx := by
    rw [h.refl x hx, h'.refl x hx]
    rfl
  swap x hx y hy := by
    rw [h.swap x hx y hy, h'.swap x hx y hy]
    cases cmp x y <;> rfl
  trans x hx y hy z hz := by
    intro hxy hyz
    cases hcxy : cmp x y with
    | gt =>
        rw [hcxy] at hxy
        exact absurd rfl hxy
    | lt =>
        have hle : cmp y z ≠ .gt := fun hgt => by
          rw [hgt] at hyz
          exact hyz rfl
        rw [h.lt_of_lt_of_le hx hy hz hcxy hle]
        exact fun hgt => nomatch hgt
    | eq =>
        rw [hcxy] at hxy
        cases hcyz : cmp y z with
        | gt =>
            rw [hcyz] at hyz
            exact absurd rfl hyz
        | lt =>
            rw [h.lt_of_le_of_lt hx hy hz (by rw [hcxy]; decide) hcyz]
            exact fun hgt => nomatch hgt
        | eq =>
            rw [hcyz] at hyz
            have hle := h.trans x hx y hy z hz (by rw [hcxy]; decide) (by rw [hcyz]; decide)
            cases hcxz : cmp x z with
            | gt => exact absurd hcxz hle
            | lt => exact fun hgt => nomatch hgt
            | eq => exact h'.trans x hx y hy z hz hxy hyz

-- The least elements in order, found by a selection when only some are wanted.
def topN (ops : SortOps α) (cmp : α → α → Ordering) (count : Option Nat) (xs : List α) : Option (List α) :=
  match count with
  | none => ops.sortBy cmp xs
  | some k =>
      if k = 0 then some []
      else if k < xs.length then do
        let ys ← ops.selectNthUnstableBy cmp (k - 1) xs
        ops.sortBy cmp (ys.take k)
      else ops.sortBy cmp xs

section Prefix

variable (ops : SortOps α) {cmp : α → α → Ordering} {xs : List α} (h : TotalOn cmp xs)
include h

theorem Pivoted.le_of_split {k : Nat} {ys : List α} (hsel : Pivoted cmp (k - 1) ys) (hk : 0 < k)
    (hlen : k < ys.length) (hsub : ys ⊆ xs) {x y : α} (hx : x ∈ ys.take k) (hy : y ∈ ys.drop k) :
    cmp x y ≠ .gt := by
  have hlt : k - 1 < ys.length := by omega
  obtain ⟨hbefore, hafter⟩ := hsel ys[k - 1] (List.getElem?_eq_getElem hlt)
  have hpivot : ys[k - 1] ∈ xs := hsub (List.getElem_mem hlt)
  have hxp : cmp x ys[k - 1] ≠ .gt := by
    rw [show k = k - 1 + 1 by omega, List.take_succ_eq_append_getElem hlt, List.mem_append,
      List.mem_singleton] at hx
    rcases hx with hx | rfl
    · exact hbefore x hx
    · rw [h.refl _ hpivot]
      decide
  have hpy : cmp ys[k - 1] y ≠ .gt := hafter y (by rwa [show k - 1 + 1 = k by omega])
  exact h.trans x (hsub (List.mem_of_mem_take hx)) _ hpivot y (hsub (List.mem_of_mem_drop hy)) hxp hpy

-- What is found begins a sorted order of all elements.
theorem topN_prefix (count : Option Nat) :
    ∃ ys rest, topN ops cmp count xs = some ys ∧ (ys ++ rest).Perm xs ∧ Sorted cmp (ys ++ rest) ∧
      ys.length = count.elim xs.length (min xs.length) := by
  obtain ⟨sorted, hsort, hperm, hsorted⟩ := ops.sorts cmp xs h
  have hall : (sorted ++ []).Perm xs ∧ Sorted cmp (sorted ++ []) := by
    rw [List.append_nil]
    exact ⟨hperm, hsorted⟩
  cases count with
  | none => exact ⟨sorted, [], hsort, hall.1, hall.2, hperm.length_eq⟩
  | some k =>
      rw [topN]
      split_ifs with hzero hlt
      · exact ⟨[], sorted, rfl, hperm, hsorted, by simp [hzero]⟩
      · obtain ⟨ys, hselect, hys, hsel⟩ := ops.selects cmp (k - 1) xs h (by omega)
        have hsub : ys ⊆ xs := hys.subset
        obtain ⟨front, hfront, hpf, hsf⟩ := ops.sorts cmp (ys.take k)
          (h.subset fun x hx => hsub (List.mem_of_mem_take hx))
        obtain ⟨rest, -, hpr, hsr⟩ := ops.sorts cmp (ys.drop k)
          (h.subset fun x hx => hsub (List.mem_of_mem_drop hx))
        have hlen : k < ys.length := by rw [hys.length_eq]; exact hlt
        refine ⟨front, rest, by rw [hselect]; exact hfront, ?_, ?_, ?_⟩
        · have happend := hpf.append hpr
          rw [List.take_append_drop] at happend
          exact happend.trans hys
        · refine List.pairwise_append.mpr ⟨hsf, hsr, fun x hx y hy => ?_⟩
          exact hsel.le_of_split h (by omega) hlen hsub (hpf.mem_iff.mp hx) (hpr.mem_iff.mp hy)
        · rw [hpf.length_eq, List.length_take]
          simp only [Option.elim]
          omega
      · exact ⟨sorted, [], hsort, hall.1, hall.2, by simp only [Option.elim, hperm.length_eq]; omega⟩

end Prefix

-- The library that sorts for a selection, too.
def SortOps.sorting (α : Type) : SortOps α where
  sortBy cmp xs := some (sortAttached cmp xs)
  selectNthUnstableBy cmp _ xs := some (sortAttached cmp xs)
  sorts cmp xs h := ⟨_, rfl, perm_sortAttached cmp xs, pairwise_sortAttached h⟩
  selects cmp n xs h _ := by
    refine ⟨_, rfl, perm_sortAttached cmp xs, fun p hp => ?_⟩
    have hsorted := pairwise_sortAttached h
    have hsplit : sortAttached cmp xs = (sortAttached cmp xs).take n ++ p :: (sortAttached cmp xs).drop
        (n + 1) := by
      obtain ⟨hlt, rfl⟩ := List.getElem?_eq_some_iff.mp hp
      rw [← List.drop_eq_getElem_cons hlt, List.take_append_drop]
    rw [hsplit] at hsorted
    obtain ⟨-, hback, hcross⟩ := List.pairwise_append.mp hsorted
    exact ⟨fun x hx => hcross x hx p List.mem_cons_self, (List.pairwise_cons.mp hback).1⟩

end Lib

namespace Lib

variable {α : Type}

def pick (better : α → α → Bool) (kept : Option α) (v : α) : Option α :=
  match kept with
  | none => some v
  | some c => some (if better v c then v else c)

def best (better : α → α → Bool) (xs : List α) : Option α := xs.foldl (pick better) none

section Picking

variable {better better' : α → α → Bool} {xs ys : List α} {c m : α}

theorem foldl_pick_congr (h : ∀ v ∈ xs, ∀ c ∈ xs, better v c = better' v c ∨ v = c) (hsub : ys ⊆ xs)
    (hc : c ∈ xs) :
    ys.foldl (pick better) (some c) = ys.foldl (pick better') (some c) := by
  induction ys generalizing c with
  | nil => rfl
  | cons y ys ih =>
      obtain ⟨hy, hys⟩ := List.cons_subset.mp hsub
      have hstep : pick better (some c) y = pick better' (some c) y := by
        rcases h y hy c hc with heq | rfl
        · rw [pick, pick, heq]
        · rw [pick, pick, ite_self, ite_self]
      rw [List.foldl_cons, List.foldl_cons, hstep, pick]
      by_cases hbetter : better' y c = true
      · rw [if_pos hbetter]
        exact ih hys hy
      · rw [if_neg hbetter]
        exact ih hys hc

theorem best_congr (h : ∀ v ∈ xs, ∀ c ∈ xs, better v c = better' v c ∨ v = c) :
    best better xs = best better' xs := by
  cases xs with
  | nil => rfl
  | cons x xs => exact foldl_pick_congr h (List.subset_cons_self x xs) List.mem_cons_self

theorem exists_foldl_pick (ys : List α) (c : α) : ∃ m, ys.foldl (pick better) (some c) = some m := by
  induction ys generalizing c with
  | nil => exact ⟨c, rfl⟩
  | cons y ys ih => exact ih _

theorem exists_best (hne : xs ≠ []) : ∃ m, best better xs = some m := by
  cases xs with
  | nil => exact absurd rfl hne
  | cons x xs => exact exists_foldl_pick xs x

variable {cmp : α → α → Ordering}

theorem foldl_pick_least (htotal : TotalOn cmp xs)
    (h : ∀ v ∈ xs, ∀ c ∈ xs, better v c = true ↔ cmp v c = .lt) (hsub : ys ⊆ xs) (hc : c ∈ xs)
    (hm : ys.foldl (pick better) (some c) = some m) :
    m ∈ xs ∧ cmp m c ≠ .gt ∧ ∀ y ∈ ys, cmp m y ≠ .gt := by
  induction ys generalizing c with
  | nil =>
      obtain rfl := Option.some.inj hm
      refine ⟨hc, ?_, fun _ h => nomatch h⟩
      rw [htotal.refl c hc]
      exact fun h => nomatch h
  | cons y ys ih =>
      obtain ⟨hy, hys⟩ := List.cons_subset.mp hsub
      rw [List.foldl_cons, pick] at hm
      by_cases hbetter : better y c = true
      · rw [if_pos hbetter] at hm
        obtain ⟨hmem, hle, hrest⟩ := ih hys hy hm
        have hyc : cmp y c ≠ .gt := by
          rw [(h y hy c hc).mp hbetter]
          exact fun h => nomatch h
        exact ⟨hmem, htotal.trans m hmem y hy c hc hle hyc, List.forall_mem_cons.mpr ⟨hle, hrest⟩⟩
      · rw [if_neg hbetter] at hm
        obtain ⟨hmem, hle, hrest⟩ := ih hys hc hm
        have hcy : cmp c y ≠ .gt := by
          rw [htotal.swap y hy c hc]
          intro hgt
          exact hbetter ((h y hy c hc).mpr (Ordering.swap_eq_gt.mp hgt))
        exact ⟨hmem, hle, List.forall_mem_cons.mpr ⟨htotal.trans m hmem c hc y hy hle hcy, hrest⟩⟩

theorem best_least (htotal : TotalOn cmp xs) (h : ∀ v ∈ xs, ∀ c ∈ xs, better v c = true ↔ cmp v c = .lt)
    (hm : best better xs = some m) : m ∈ xs ∧ ∀ x ∈ xs, cmp m x ≠ .gt := by
  cases xs with
  | nil => cases hm
  | cons x xs =>
      obtain ⟨hmem, hle, hrest⟩ := foldl_pick_least htotal h (List.subset_cons_self x xs) List.mem_cons_self hm
      exact ⟨hmem, List.forall_mem_cons.mpr ⟨hle, hrest⟩⟩

theorem TotalOn.flip (h : TotalOn cmp xs) : TotalOn (fun x y => cmp y x) xs where
  refl x hx := h.refl x hx
  swap x hx y hy := h.swap y hy x hx
  trans x hx y hy z hz hxy hyz := h.trans z hz y hy x hx hyz hxy

end Picking

end Lib
