import Mathlib.Data.List.Sort
import Mathlib.Order.Basic
import Kkdb.Lib.Assoc

namespace Lib

-- Tree maps as the lists of their entries in the order of the keys.
section Ordered

variable {κ ν : Type} [LinearOrder κ]

def insertKey (k : κ) (v : ν) : List (κ × ν) → List (κ × ν)
  | [] => [(k, v)]
  | e :: m =>
      if k < e.1 then (k, v) :: e :: m
      else if k = e.1 then (k, v) :: m
      else e :: insertKey k v m

def retain (keep : κ → Bool) (m : List (κ × ν)) : List (κ × ν) := m.filter fun e => keep e.1

def Ordered (m : List (κ × ν)) : Prop := m.Pairwise fun a b => a.1 < b.1

variable {m : List (κ × ν)} {k : κ} {v : ν} {keep : κ → Bool}

theorem mem_insertKey {e : κ × ν} (h : e ∈ insertKey k v m) : e = (k, v) ∨ e ∈ m := by
  induction m with
  | nil => simpa [insertKey] using h
  | cons f m ih =>
      rw [insertKey] at h
      split_ifs at h with hlt heq
      · simpa using h
      · rcases List.mem_cons.mp h with h | h
        · exact .inl h
        · exact .inr (List.mem_cons_of_mem _ h)
      · rcases List.mem_cons.mp h with h | h
        · exact .inr (by simp [h])
        · rcases ih h with h | h
          · exact .inl h
          · exact .inr (List.mem_cons_of_mem _ h)

theorem ordered_insertKey (h : Ordered m) : Ordered (insertKey k v m) := by
  induction m with
  | nil => simp [insertKey, Ordered]
  | cons e m ih =>
      have hcons := List.pairwise_cons.mp h
      rw [insertKey]
      split_ifs with hlt heq
      · refine List.pairwise_cons.mpr ⟨?_, h⟩
        intro f hf
        rcases List.mem_cons.mp hf with rfl | hf
        · exact hlt
        · exact hlt.trans (hcons.1 f hf)
      · refine List.pairwise_cons.mpr ⟨?_, hcons.2⟩
        intro f hf
        rw [heq]
        exact hcons.1 f hf
      · refine List.pairwise_cons.mpr ⟨?_, ih hcons.2⟩
        intro f hf
        rcases mem_insertKey hf with rfl | hf
        · exact lt_of_le_of_ne (not_lt.mp hlt) (Ne.symm heq)
        · exact hcons.1 f hf

theorem ordered_retain (h : Ordered m) : Ordered (retain keep m) := List.Pairwise.filter _ h

theorem lookup_insertKey (k' : κ) :
    (insertKey k v m).lookup k' = if k' = k then some v else m.lookup k' := by
  induction m with
  | nil => rw [insertKey, lookup_cons_eq]
  | cons e m ih =>
      rw [insertKey]
      by_cases hlt : k < e.1
      · rw [if_pos hlt, lookup_cons_eq]
      · rw [if_neg hlt]
        by_cases heq : k = e.1
        · rw [if_pos heq, lookup_cons_eq, lookup_cons_eq, heq]
          split_ifs <;> rfl
        · rw [if_neg heq, lookup_cons_eq, lookup_cons_eq, ih]
          by_cases hk' : k' = k
          · rw [if_neg (hk' ▸ heq), if_pos hk', if_pos hk']
          · rw [if_neg hk', if_neg hk']

theorem lookup_retain_key (k : κ) :
    (retain keep m).lookup k = if keep k then m.lookup k else none := by
  unfold retain
  induction m with
  | nil => simp
  | cons e m ih =>
      rw [List.filter_cons, lookup_cons_eq]
      by_cases hk : k = e.1
      · cases hkeep : keep e.1 with
        | true => simp [lookup_cons_eq, hk, hkeep]
        | false =>
            rw [hk, hkeep] at ih
            simpa [hk, hkeep] using ih
      · rw [if_neg hk, ← ih]
        split_ifs with hkeep
        · rw [lookup_cons_eq, if_neg hk]
        · rfl

theorem foldl_insertKey (h : Ordered m) : m.foldl (fun m e => insertKey e.1 e.2 m) [] = m := by
  have hfrom : ∀ (m front : List (κ × ν)), Ordered (front ++ m) →
      m.foldl (fun m e => insertKey e.1 e.2 m) front = front ++ m := by
    intro m
    induction m with
    | nil => simp
    | cons e m ih =>
        intro front hfront
        have hlast : insertKey e.1 e.2 front = front ++ [e] := by
          have hbelow : ∀ f ∈ front, f.1 < e.1 := fun f hf =>
            (List.pairwise_append.mp hfront).2.2 f hf e (by simp)
          clear hfront
          induction front with
          | nil => rfl
          | cons f front ih' =>
              have hlt := hbelow f (by simp)
              rw [insertKey, if_neg hlt.not_gt, if_neg hlt.ne', ih' fun g hg => hbelow g (by simp [hg])]
              rfl
        rw [List.foldl_cons, hlast, ih (front ++ [e]) (by simpa using hfront)]
        simp
  simpa using hfrom m [] h

end Ordered

end Lib
