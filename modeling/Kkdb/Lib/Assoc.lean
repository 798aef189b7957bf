import Mathlib.Data.List.Lookmap
import Mathlib.Data.List.Nodup

namespace Lib

-- Hash maps as the lists of their entries.
section Assoc

variable {κ ν : Type} [DecidableEq κ]

def put (k : κ) (v : ν) : List (κ × ν) → List (κ × ν)
  | [] => [(k, v)]
  | e :: m => if e.1 = k then (k, v) :: m else e :: put k v m

def remove (k : κ) (m : List (κ × ν)) : List (κ × ν) := m.filter fun e => e.1 ≠ k

variable {m : List (κ × ν)} {k : κ} {v : ν}

theorem keys_put : (put k v m).map Prod.fst = m.map Prod.fst ∨
    k ∉ m.map Prod.fst ∧ (put k v m).map Prod.fst = m.map Prod.fst ++ [k] := by
  induction m with
  | nil => exact .inr ⟨List.not_mem_nil, rfl⟩
  | cons e m ih =>
      rw [put]
      by_cases he : e.1 = k
      · left
        rw [if_pos he, List.map_cons, List.map_cons, he]
      · rw [if_neg he, List.map_cons, List.map_cons]
        rcases ih with h | ⟨hk, h⟩
        · exact .inl (by rw [h])
        · refine .inr ⟨?_, by rw [h, List.cons_append]⟩
          rw [List.mem_cons]
          rintro (rfl | hmem)
          · exact he rfl
          · exact hk hmem

theorem put_of_notMem (h : k ∉ m.map Prod.fst) : put k v m = m ++ [(k, v)] := by
  induction m with
  | nil => rfl
  | cons e m ih =>
      rw [List.map_cons, List.mem_cons, not_or] at h
      rw [put, if_neg (Ne.symm h.1), ih h.2, List.cons_append]

theorem mem_put {e : κ × ν} (h : e ∈ put k v m) : e = (k, v) ∨ e ∈ m := by
  induction m with
  | nil => exact .inl (List.mem_singleton.mp h)
  | cons e' m ih =>
      rw [put] at h
      split_ifs at h
      · rcases List.mem_cons.mp h with h | h
        · exact .inl h
        · exact .inr (List.mem_cons_of_mem _ h)
      · rcases List.mem_cons.mp h with rfl | h
        · exact .inr List.mem_cons_self
        · exact (ih h).imp_right (List.mem_cons_of_mem _)

theorem nodup_put (h : (m.map Prod.fst).Nodup) : ((put k v m).map Prod.fst).Nodup := by
  rcases keys_put (k := k) (v := v) (m := m) with heq | ⟨hk, heq⟩
  · rw [heq]
    exact h
  · rw [heq, List.nodup_append]
    refine ⟨h, List.nodup_singleton k, fun a ha b hb hab => hk ?_⟩
    rw [← List.mem_singleton.mp hb, ← hab]
    exact ha

theorem nodup_foldl_put (keys : List κ) (v : ν) (h : (m.map Prod.fst).Nodup) :
    ((keys.foldl (fun m key => put key v m) m).map Prod.fst).Nodup := by
  induction keys generalizing m with
  | nil => exact h
  | cons key keys ih => exact ih (nodup_put h)

end Assoc

section Lookup

variable {κ ν : Type} [BEq κ]

def lookupD (m : List (κ × ν)) (k : κ) (default : ν) : ν := (m.lookup k).getD default

variable {m : List (κ × ν)} {k k' : κ} {v default : ν} [LawfulBEq κ] [DecidableEq κ]

theorem lookup_cons_eq (e : κ × ν) (m : List (κ × ν)) (k : κ) :
    (e :: m).lookup k = if k = e.1 then some e.2 else m.lookup k := by
  rw [show e = (e.1, e.2) from rfl, List.lookup_cons]
  by_cases h : k = e.1
  · rw [if_pos h, h]
    simp
  · rw [if_neg h, beq_false_of_ne h]

theorem lookup_put (k' : κ) : (put k v m).lookup k' = if k' = k then some v else m.lookup k' := by
  induction m with
  | nil => rw [put, lookup_cons_eq]
  | cons e m ih =>
      rw [put]
      by_cases he : e.1 = k
      · rw [if_pos he, lookup_cons_eq, lookup_cons_eq]
        split_ifs with h h' <;> first | rfl | (rw [he] at h'; exact absurd h' h)
      · rw [if_neg he, lookup_cons_eq, lookup_cons_eq, ih]
        split_ifs with h h' <;> first | rfl | (rw [← h, h'] at he; exact absurd rfl he)

theorem lookupD_put (k' : κ) :
    lookupD (put k v m) k' default = if k' = k then v else lookupD m k' default := by
  rw [lookupD, lookup_put]
  split_ifs <;> rfl

theorem lookup_eq_none_of_notMem (h : k ∉ m.map Prod.fst) : m.lookup k = none := by
  induction m with
  | nil => rfl
  | cons e m ih =>
      rw [List.map_cons, List.mem_cons, not_or] at h
      rw [lookup_cons_eq, if_neg h.1, ih h.2]

theorem lookup_ne_none_of_mem (h : (k, v) ∈ m) : m.lookup k ≠ none := by
  induction m with
  | nil => cases h
  | cons e m ih =>
      rw [lookup_cons_eq]
      split_ifs with hk
      · exact Option.some_ne_none _
      · rcases List.mem_cons.mp h with rfl | h
        · exact absurd rfl hk
        · exact ih h

theorem mem_of_lookup (h : m.lookup k = some v) : (k, v) ∈ m := by
  induction m with
  | nil => cases h
  | cons e m ih =>
      rw [lookup_cons_eq] at h
      split_ifs at h with heq
      · rw [heq, ← Option.some.inj h]
        exact List.mem_cons_self
      · exact List.mem_cons_of_mem _ (ih h)

theorem lookup_eq_some_iff (hnodup : (m.map Prod.fst).Nodup) : m.lookup k = some v ↔ (k, v) ∈ m := by
  refine ⟨mem_of_lookup, fun h => ?_⟩
  cases hlook : m.lookup k with
  | some v' =>
      have hsame := List.inj_on_of_nodup_map hnodup (mem_of_lookup hlook) h rfl
      rw [(Prod.mk.inj hsame).2]
  | none => exact absurd hlook (lookup_ne_none_of_mem h)

theorem lookup_perm {m' : List (κ × ν)} (hperm : m'.Perm m) (hnodup : (m.map Prod.fst).Nodup) (k : κ) :
    m'.lookup k = m.lookup k := by
  have hnodup' : (m'.map Prod.fst).Nodup := (hperm.map Prod.fst).nodup_iff.mpr hnodup
  ext v
  rw [lookup_eq_some_iff hnodup', lookup_eq_some_iff hnodup]
  exact hperm.mem_iff

theorem lookup_map {ν' : Type} (f : ν → ν') (m : List (κ × ν)) (k : κ) :
    (m.map fun e => (e.1, f e.2)).lookup k = (m.lookup k).map f := by
  induction m with
  | nil => rfl
  | cons e m ih =>
      rw [List.map_cons, lookup_cons_eq, lookup_cons_eq, ih]
      split_ifs <;> rfl

theorem lookup_filter_key (keep : κ → Bool) (m : List (κ × ν)) (k : κ) :
    (m.filter fun e => keep e.1).lookup k = if keep k then m.lookup k else none := by
  induction m with
  | nil => exact (ite_self _).symm
  | cons e m ih =>
      rw [List.filter_cons]
      by_cases he : keep e.1
      · rw [if_pos he, lookup_cons_eq, lookup_cons_eq, ih]
        split_ifs with h h'
        · rfl
        · exact absurd (h ▸ he) h'
        · rfl
        · rfl
      · rw [if_neg he, ih, lookup_cons_eq]
        split_ifs with h h'
        · exact absurd (h' ▸ h) he
        · rfl
        · rfl

theorem lookup_remove (k' : κ) : (remove k m).lookup k' = if k' = k then none else m.lookup k' := by
  refine (lookup_filter_key (fun key => key ≠ k) m k').trans ?_
  by_cases h : k' = k
  · rw [if_pos h, if_neg (by simpa using h)]
  · rw [if_neg h, if_pos (by simpa using h)]

theorem lookupD_remove (k' : κ) :
    lookupD (remove k m) k' default = if k' = k then default else lookupD m k' default := by
  rw [lookupD, lookup_remove]
  split_ifs <;> rfl

theorem lookup_retain (keep : ν → Bool) (hnodup : (m.map Prod.fst).Nodup) (k : κ) :
    (m.filter fun e => keep e.2).lookup k = (m.lookup k).filter keep := by
  induction m with
  | nil => rfl
  | cons e m ih =>
      rw [List.map_cons, List.nodup_cons] at hnodup
      rw [List.filter_cons, lookup_cons_eq]
      by_cases hk : k = e.1
      · rw [if_pos hk, Option.filter_some]
        split_ifs with hv
        · rw [lookup_cons_eq, if_pos hk]
        · rw [ih hnodup.2, lookup_eq_none_of_notMem (hk ▸ hnodup.1)]
          rfl
      · rw [if_neg hk]
        split_ifs with hv
        · rw [lookup_cons_eq, if_neg hk]
          exact ih hnodup.2
        · exact ih hnodup.2

theorem lookup_foldl_put (keys : List κ) (v : ν) (m : List (κ × ν)) (k : κ) :
    (keys.foldl (fun m key => put key v m) m).lookup k = if k ∈ keys then some v else m.lookup k := by
  induction keys generalizing m with
  | nil => rfl
  | cons key keys ih =>
      rw [List.foldl_cons, ih, lookup_put]
      by_cases hmem : k ∈ keys
      · rw [if_pos hmem, if_pos (List.mem_cons_of_mem _ hmem)]
      · rw [if_neg hmem]
        refine if_congr ?_ rfl rfl
        rw [List.mem_cons, or_iff_left hmem]

theorem lookup_foldl_remove (keys : List κ) (m : List (κ × ν)) (k : κ) :
    (keys.foldl (fun m key => remove key m) m).lookup k = if k ∈ keys then none else m.lookup k := by
  induction keys generalizing m with
  | nil => rfl
  | cons key keys ih =>
      rw [List.foldl_cons, ih, lookup_remove]
      by_cases hmem : k ∈ keys
      · rw [if_pos hmem, if_pos (List.mem_cons_of_mem _ hmem)]
      · rw [if_neg hmem]
        refine if_congr ?_ rfl rfl
        rw [List.mem_cons, or_iff_left hmem]

theorem lookupD_retain (f : ν → ν) (keep : ν → Bool) (hnodup : (m.map Prod.fst).Nodup)
    (hdefault : f default = default) (hkeep : ∀ v, keep v = false → v = default) (k : κ) :
    lookupD ((m.map fun e => (e.1, f e.2)).filter fun e => keep e.2) k default =
      f (lookupD m k default) := by
  induction m with
  | nil => exact hdefault.symm
  | cons e m ih =>
      rw [List.map_cons, List.nodup_cons] at hnodup
      have hrest := ih hnodup.2
      unfold lookupD at hrest ⊢
      rw [List.map_cons, List.filter_cons, lookup_cons_eq]
      by_cases hk : k = e.1
      · rw [if_pos hk]
        cases hv : keep (f e.2) with
        | true => rw [if_pos rfl, lookup_cons_eq, if_pos hk]; rfl
        | false =>
            have hnone : m.lookup k = none := lookup_eq_none_of_notMem (hk ▸ hnodup.1)
            rw [hnone] at hrest
            rw [if_neg Bool.false_ne_true, hrest, Option.getD_some]
            exact hdefault.trans (hkeep _ hv).symm
      · rw [if_neg hk]
        split_ifs with hv
        · rw [lookup_cons_eq, if_neg hk]
          exact hrest
        · exact hrest

end Lookup

end Lib
