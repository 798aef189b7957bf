import Kkdb.Lib.Grouping

namespace Lib

variable {α κ : Type} [BEq α]

-- The elements whose copy of that number is wanted; the copies before the list are counted too.
def keepCopies (wanted : α → Nat → Bool) : List α → List α → List α
  | _, [] => []
  | before, x :: xs =>
      if wanted x (before.count x) then x :: keepCopies wanted (x :: before) xs
      else keepCopies wanted (x :: before) xs

section Copies

variable {wanted : α → Nat → Bool} {before xs : List α} {t : α}

theorem keepCopies_sublist (wanted : α → Nat → Bool) (before xs : List α) :
    (keepCopies wanted before xs).Sublist xs := by
  induction xs generalizing before with
  | nil => exact List.Sublist.refl []
  | cons x xs ih =>
      rw [keepCopies]
      by_cases hx : wanted x (before.count x) = true
      · rw [if_pos hx]
        exact (ih (x :: before)).cons_cons x
      · rw [if_neg hx]
        exact (ih (x :: before)).cons x

theorem keepCopies_congr {wanted' : α → Nat → Bool} (h : ∀ x ∈ xs, ∀ n, wanted x n = wanted' x n) :
    keepCopies wanted before xs = keepCopies wanted' before xs := by
  induction xs generalizing before with
  | nil => rfl
  | cons x xs ih =>
      rw [keepCopies, keepCopies, h x List.mem_cons_self, ih fun y hy => h y (List.mem_cons_of_mem x hy)]

theorem keepCopies_true (before xs : List α) : keepCopies (fun _ _ => true) before xs = xs := by
  induction xs generalizing before with
  | nil => rfl
  | cons x xs ih => rw [keepCopies, if_pos rfl, ih]

variable [LawfulBEq α]

theorem count_keepCopies_from (wanted : α → Nat → Bool) (before xs : List α) (t : α) :
    (keepCopies wanted before xs).count t =
      ((List.range' (before.count t) (xs.count t)).countP fun n => wanted t n) := by
  induction xs generalizing before with
  | nil => rfl
  | cons x xs ih =>
      have hrest := ih (x :: before)
      by_cases htx : x = t
      · subst htx
        rw [List.count_cons_self] at hrest
        rw [keepCopies, List.count_cons_self, List.range'_succ, List.countP_cons]
        by_cases hx : wanted x (before.count x) = true
        · rw [if_pos hx, if_pos hx, List.count_cons_self, hrest]
        · rw [if_neg hx, if_neg hx, Nat.add_zero, hrest]
      · rw [List.count_cons_of_ne htx] at hrest
        rw [keepCopies, List.count_cons_of_ne htx]
        by_cases hx : wanted x (before.count x) = true
        · rw [if_pos hx, List.count_cons_of_ne htx, hrest]
        · rw [if_neg hx, hrest]

theorem count_keepCopies (wanted : α → Nat → Bool) (xs : List α) (t : α) :
    (keepCopies wanted [] xs).count t = (List.range (xs.count t)).countP fun n => wanted t n := by
  rw [count_keepCopies_from, List.count_nil, List.range_eq_range']

variable [DecidableEq α]

abbrev firsts (xs : List α) : List α := distinctBy id [] xs

-- Where a later copy is wanted only if the first one is, the elements kept first occur in their old order.
theorem firsts_keepCopies_from (hfirst : ∀ x n, wanted x n = true → wanted x 0 = true)
    {seen kept : List α} (hseen : ∀ x, x ∈ seen ↔ x ∈ before)
    (hkept : ∀ x, x ∈ kept ↔ x ∈ before ∧ wanted x 0 = true) :
    (distinctBy id kept (keepCopies wanted before xs)).Sublist (distinctBy id seen xs) := by
  induction xs generalizing before seen kept with
  | nil => exact List.Sublist.refl []
  | cons x xs ih =>
      rw [keepCopies, distinctBy, id]
      by_cases hx : x ∈ before
      · have hsame : ∀ y, y ∈ before ↔ y ∈ x :: before := fun y =>
          ⟨List.mem_cons_of_mem x, fun hy => by
            rcases List.mem_cons.mp hy with rfl | hy
            · exact hx
            · exact hy⟩
        have hrest := ih (fun y => (hseen y).trans (hsame y)) fun y => (hkept y).trans
            (and_congr_left fun _ => hsame y)
        rw [if_pos ((hseen x).mpr hx)]
        by_cases hkeep : wanted x (before.count x) = true
        · have hold : x ∈ kept := (hkept x).mpr ⟨hx, hfirst x _ hkeep⟩
          rw [if_pos hkeep, distinctBy, id, if_pos hold]
          exact hrest
        · rw [if_neg hkeep]
          exact hrest
      · have hnew : ∀ y, y ∈ x :: seen ↔ y ∈ x :: before := fun y => by
          rw [List.mem_cons, List.mem_cons, hseen]
        rw [if_neg fun h => hx ((hseen x).mp h), List.count_eq_zero.mpr hx]
        by_cases hkeep : wanted x 0 = true
        · have hnot : x ∉ kept := fun h => hx ((hkept x).mp h).1
          rw [if_pos hkeep, distinctBy, id, if_neg hnot]
          refine (ih hnew fun y => ?_).cons_cons x
          rw [List.mem_cons, List.mem_cons, hkept]
          by_cases hy : y = x
          · subst hy
            exact iff_of_true (.inl rfl) ⟨.inl rfl, hkeep⟩
          · simp only [hy, false_or]
        · rw [if_neg hkeep]
          refine (ih hnew fun y => ?_).cons x
          rw [List.mem_cons, hkept]
          by_cases hy : y = x
          · subst hy
            exact iff_of_false (fun h => hkeep h.2) fun h => hkeep h.2
          · simp only [hy, false_or]

theorem firsts_keepCopies (hfirst : ∀ x n, wanted x n = true → wanted x 0 = true) (xs : List α) :
    (firsts (keepCopies wanted [] xs)).Sublist (firsts xs) :=
  firsts_keepCopies_from hfirst (fun _ => Iff.rfl) fun _ =>
    iff_of_false List.not_mem_nil fun h => List.not_mem_nil h.1

end Copies

section Keys

variable [LawfulBEq α] [DecidableEq κ]

def keepFirst (allowed : κ → Bool) (key : α → κ) : List κ → List α → List α
  | _, [] => []
  | seen, x :: xs =>
      if allowed (key x) ∧ key x ∉ seen then x :: keepFirst allowed key (key x :: seen) xs
      else keepFirst allowed key seen xs

def countKeys (key : α → κ) (xs : List α) : List (κ × Nat) :=
  xs.foldl (fun counts x => put (key x) (lookupD counts (key x) 0 + 1) counts) []

def takeCount (counts : List (κ × Nat)) (k : κ) : Option (List (κ × Nat)) :=
  match counts.lookup k with
  | some (c + 1) => some (put k c counts)
  | _ => none

def takeCounted (key : α → κ) : List (κ × Nat) → List α → List α
  | _, [] => []
  | counts, x :: xs =>
      match takeCount counts (key x) with
      | some counts' => x :: takeCounted key counts' xs
      | none => takeCounted key counts xs

def dropCounted (key : α → κ) : List (κ × Nat) → List α → List α
  | _, [] => []
  | counts, x :: xs =>
      match takeCount counts (key x) with
      | some counts' => dropCounted key counts' xs
      | none => x :: dropCounted key counts xs

variable {key : α → κ} {before xs ys : List α}

omit [BEq α] [LawfulBEq α] in
theorem lookupD_countKeys (key : α → κ) (xs : List α) (k : κ) :
    lookupD (countKeys key xs) k 0 = (xs.map key).count k := by
  induction xs using List.reverseRecOn with
  | nil => rfl
  | append_singleton xs x ih =>
      rw [countKeys, List.foldl_append, List.foldl_cons, List.foldl_nil, lookupD_put]
      change (if k = key x then lookupD (countKeys key xs) (key x) 0 + 1 else lookupD
          (countKeys key xs) k 0) = _
      rw [List.map_append, List.count_append, List.map_cons, List.map_nil]
      by_cases hk : k = key x
      · subst hk
        rw [if_pos rfl, ih, List.count_singleton_self]
      · rw [if_neg hk, ih, List.count_singleton, if_neg (by simpa using Ne.symm hk), Nat.add_zero]

theorem count_map_of_injOn {S : Set α} (hinj : Set.InjOn key S) {x : α} (hx : x ∈ S) (hxs : ∀ y ∈ xs, y ∈ S) :
    (xs.map key).count (key x) = xs.count x := by
  induction xs with
  | nil => rfl
  | cons y xs ih =>
      have hrest := ih fun z hz => hxs z (List.mem_cons_of_mem y hz)
      rw [List.map_cons, List.count_cons, List.count_cons, hrest]
      have hiff : key y = key x ↔ y = x := ⟨hinj (hxs y List.mem_cons_self) hx, congrArg key⟩
      by_cases hyx : y = x
      · rw [if_pos (beq_iff_eq.mpr (hiff.mpr hyx)), if_pos (beq_iff_eq.mpr hyx)]
      · rw [if_neg fun h => hyx (hiff.mp (beq_iff_eq.mp h)), if_neg fun h => hyx (beq_iff_eq.mp h)]

theorem takeCount_eq (counts : List (κ × Nat)) (k : κ) :
    takeCount counts k =
      if lookupD counts k 0 = 0 then none else some (put k (lookupD counts k 0 - 1) counts) := by
  rw [takeCount, lookupD]
  cases counts.lookup k with
  | none => rfl
  | some c =>
      cases c with
      | zero => rfl
      | succ c => rfl

variable {S : Set α}

-- The counts left are those of the right side, less the copies that have gone by.
def CountsLeft (key : α → κ) (S : Set α) (counts : List (κ × Nat)) (before ys : List α) : Prop :=
  ∀ x ∈ S, lookupD counts (key x) 0 = ys.count x - before.count x

theorem CountsLeft.step (hinj : Set.InjOn key S) {counts : List (κ × Nat)} {x : α} (hx : x ∈ S)
    (h : CountsLeft key S counts before ys) (hpos : ¬ys.count x ≤ before.count x) :
    CountsLeft key S (put (key x) (lookupD counts (key x) 0 - 1) counts) (x :: before) ys := by
  intro y hy
  rw [lookupD_put]
  by_cases hkey : key y = key x
  · obtain rfl := hinj hy hx hkey
    rw [if_pos rfl, h y hy, List.count_cons_self]
    omega
  · rw [if_neg hkey, h y hy, List.count_cons_of_ne fun heq => hkey (congrArg key heq.symm)]

theorem CountsLeft.skip {counts : List (κ × Nat)} {x : α} (h : CountsLeft key S counts before ys)
    (hnone : ys.count x ≤ before.count x) : CountsLeft key S counts (x :: before) ys := by
  intro y hy
  rw [h y hy]
  by_cases hyx : y = x
  · subst hyx
    rw [List.count_cons_self]
    omega
  · rw [List.count_cons_of_ne (Ne.symm hyx)]

theorem countsLeft_countKeys (hinj : Set.InjOn key S) (hys : ∀ y ∈ ys, y ∈ S) :
    CountsLeft key S (countKeys key ys) [] ys := by
  intro x hx
  rw [lookupD_countKeys, count_map_of_injOn hinj hx hys, List.count_nil, Nat.sub_zero]

omit [LawfulBEq α] in
theorem takeCount_of_countsLeft {counts : List (κ × Nat)} {x : α} (hx : x ∈ S)
    (h : CountsLeft key S counts before ys) :
    takeCount counts (key x) =
      if ys.count x ≤ before.count x then none else some
        (put (key x) (lookupD counts (key x) 0 - 1) counts) := by
  rw [takeCount_eq]
  have hleft := h x hx
  by_cases hle : ys.count x ≤ before.count x
  · rw [if_pos hle, if_pos (by omega)]
  · rw [if_neg hle, if_neg (by omega)]

theorem takeCounted_eq (hinj : Set.InjOn key S) (hxs : ∀ x ∈ xs, x ∈ S) {counts : List (κ × Nat)}
    (h : CountsLeft key S counts before ys) :
    takeCounted key counts xs = keepCopies (fun x n => n < ys.count x) before xs := by
  induction xs generalizing before counts with
  | nil => rfl
  | cons x xs ih =>
      have hx : x ∈ S := hxs x List.mem_cons_self
      have hrest : ∀ y ∈ xs, y ∈ S := fun y hy => hxs y (List.mem_cons_of_mem x hy)
      rw [takeCounted, keepCopies, takeCount_of_countsLeft hx h]
      by_cases hle : ys.count x ≤ before.count x
      · rw [if_pos hle, if_neg (by simpa using hle)]
        exact ih hrest (h.skip hle)
      · rw [if_neg hle, if_pos (by simpa using hle)]
        exact congrArg (x :: ·) (ih hrest (h.step hinj hx hle))

theorem dropCounted_eq (hinj : Set.InjOn key S) (hxs : ∀ x ∈ xs, x ∈ S) {counts : List (κ × Nat)}
    (h : CountsLeft key S counts before ys) :
    dropCounted key counts xs = keepCopies (fun x n => ys.count x ≤ n) before xs := by
  induction xs generalizing before counts with
  | nil => rfl
  | cons x xs ih =>
      have hx : x ∈ S := hxs x List.mem_cons_self
      have hrest : ∀ y ∈ xs, y ∈ S := fun y hy => hxs y (List.mem_cons_of_mem x hy)
      rw [dropCounted, keepCopies, takeCount_of_countsLeft hx h]
      by_cases hle : ys.count x ≤ before.count x
      · rw [if_pos hle, if_pos (by simpa using hle)]
        exact congrArg (x :: ·) (ih hrest (h.skip hle))
      · rw [if_neg hle, if_neg (by simpa using hle)]
        exact ih hrest (h.step hinj hx hle)

theorem keepFirst_eq (hinj : Set.InjOn key S) (allowed : κ → Bool) (hxs : ∀ x ∈ xs, x ∈ S) {seen : List κ}
    (hseen : ∀ x ∈ S, allowed (key x) = true → (key x ∈ seen ↔ x ∈ before)) :
    keepFirst allowed key seen xs = keepCopies (fun x n => allowed (key x) && n == 0) before xs := by
  induction xs generalizing before seen with
  | nil => rfl
  | cons x xs ih =>
      have hx : x ∈ S := hxs x List.mem_cons_self
      have hrest : ∀ y ∈ xs, y ∈ S := fun y hy => hxs y (List.mem_cons_of_mem x hy)
      rw [keepFirst, keepCopies]
      by_cases hallowed : allowed (key x) = true
      · by_cases hold : x ∈ before
        · have hpos : before.count x ≠ 0 := fun h => List.count_eq_zero.mp h hold
          rw [if_neg fun h => h.2 ((hseen x hx hallowed).mpr hold), if_neg (by simp [hpos])]
          refine ih hrest fun y hy hy' => (hseen y hy hy').trans ?_
          refine ⟨List.mem_cons_of_mem x, fun h => ?_⟩
          rcases List.mem_cons.mp h with rfl | h
          · exact hold
          · exact h
        · have hkeep : (allowed (key x) && before.count x == 0) = true := by
            rw [hallowed, List.count_eq_zero.mpr hold]
            rfl
          rw [if_pos ⟨hallowed, fun h => hold ((hseen x hx hallowed).mp h)⟩, if_pos hkeep]
          refine congrArg (x :: ·) (ih hrest fun y hy hy' => ?_)
          rw [List.mem_cons, List.mem_cons, hseen y hy hy']
          exact or_congr_left ⟨hinj hy hx, congrArg key⟩
      · rw [if_neg fun h => hallowed h.1, if_neg (by simp [hallowed])]
        refine ih hrest fun y hy hy' => (hseen y hy hy').trans ⟨List.mem_cons_of_mem x, fun h => ?_⟩
        rcases List.mem_cons.mp h with rfl | h
        · exact absurd hy' hallowed
        · exact h

end Keys

-- How many copies a filter by number leaves of n.
section Numbers

theorem countP_lt (n r : Nat) : ((List.range n).countP fun i => decide (i < r)) = min n r := by
  induction n with
  | zero => rw [List.range_zero, List.countP_nil, Nat.zero_min]
  | succ n ih =>
      rw [List.range_succ, List.countP_append, ih, List.countP_singleton]
      by_cases h : n < r
      · rw [if_pos (decide_eq_true h)]
        omega
      · rw [if_neg fun hd => h (of_decide_eq_true hd)]
        omega

theorem countP_ge (n r : Nat) : ((List.range n).countP fun i => decide (r ≤ i)) = n - r := by
  induction n with
  | zero => rw [List.range_zero, List.countP_nil, Nat.zero_sub]
  | succ n ih =>
      rw [List.range_succ, List.countP_append, ih, List.countP_singleton]
      by_cases h : r ≤ n
      · rw [if_pos (decide_eq_true h)]
        omega
      · rw [if_neg fun hd => h (of_decide_eq_true hd)]
        omega

theorem countP_first (n : Nat) (allowed : Bool) :
    ((List.range n).countP fun i => allowed && i == 0) = if allowed then min 1 n else 0 := by
  cases allowed with
  | false =>
      rw [if_neg Bool.false_ne_true]
      exact List.countP_eq_zero.mpr fun i _ => by simp
  | true =>
      have hlt : (fun i : Nat => true && i == 0) = fun i => decide (i < 1) := by
        funext i
        cases i with
        | zero => rfl
        | succ i => rfl
      rw [if_pos rfl, hlt, countP_lt, Nat.min_comm]

end Numbers

section Weights

variable {β : Type} {f : β → Nat} {xs ys : List β}

def weigh (f : β → Nat) (xs : List β) : Nat := xs.foldr (fun x n => f x + n) 0

theorem weigh_perm (h : ys.Perm xs) : weigh f ys = weigh f xs := by
  induction h with
  | nil => rfl
  | cons x _ ih => exact congrArg (f x + ·) ih
  | swap x y zs => exact Nat.add_left_comm (f y) (f x) (weigh f zs)
  | trans _ _ hfirst hrest => exact hfirst.trans hrest

theorem eq_or_weigh_lt (h : List.Forall₂ (fun x y => y = x ∨ f y < f x) xs ys) : ys = xs ∨ weigh f ys < weigh f xs := by
  induction h with
  | nil => exact .inl rfl
  | @cons x y xs ys hhead _ ih =>
      have hcons : ∀ (z : β) (zs : List β), weigh f (z :: zs) = f z + weigh f zs := fun _ _ => rfl
      rw [hcons, hcons]
      rcases hhead with rfl | hlt
      · rcases ih with rfl | hrest
        · exact .inl rfl
        · exact .inr (by omega)
      · rcases ih with rfl | hrest
        · exact .inr (by omega)
        · exact .inr (by omega)

theorem weigh_congr (h : List.Forall₂ (fun x y => f y = f x) xs ys) : weigh f ys = weigh f xs := by
  induction h with
  | nil => rfl
  | cons hhead _ ih => exact congrArg₂ (· + ·) hhead ih

end Weights

end Lib
