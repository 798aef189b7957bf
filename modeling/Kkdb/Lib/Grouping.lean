import Kkdb.Lib.Assoc
import Mathlib.Data.Finset.Card
import Mathlib.Data.List.Basic

namespace Lib

section Grouping

variable {α κ : Type} [DecidableEq κ]

def addToGroup (k : κ) (x : α) (groups : List (κ × List α)) : List (κ × List α) :=
  put k (lookupD groups k [] ++ [x]) groups

def groupBy (key : α → κ) (xs : List α) : List (κ × List α) :=
  xs.foldl (fun groups x => addToGroup (key x) x groups) []

def distinctBy (key : α → κ) : List κ → List α → List α
  | _, [] => []
  | seen, x :: xs =>
      if key x ∈ seen then distinctBy key seen xs else x :: distinctBy key (key x :: seen) xs

variable {key : α → κ} {xs : List α} {seen : List κ} {a b : α}

theorem groupBy_append (key : α → κ) (xs : List α) (x : α) :
    groupBy key (xs ++ [x]) = addToGroup (key x) x (groupBy key xs) := by
  rw [groupBy, List.foldl_append]
  rfl

theorem nodup_groupBy (key : α → κ) (xs : List α) : ((groupBy key xs).map Prod.fst).Nodup := by
  induction xs using List.reverseRecOn with
  | nil => exact List.nodup_nil
  | append_singleton xs x ih =>
      rw [groupBy_append]
      exact nodup_put ih

theorem lookupD_groupBy (key : α → κ) (xs : List α) (k : κ) :
    lookupD (groupBy key xs) k [] = xs.filter fun x => key x = k := by
  induction xs using List.reverseRecOn with
  | nil => rfl
  | append_singleton xs x ih =>
      rw [groupBy_append, addToGroup, lookupD_put, List.filter_append, List.filter_singleton]
      by_cases hk : k = key x
      · subst hk
        rw [if_pos rfl, ih, decide_eq_true rfl]
        rfl
      · rw [if_neg hk, ih, decide_eq_false (Ne.symm hk)]
        exact (List.append_nil _).symm

theorem exists_group_iff (ha : a ∈ xs) (hb : b ∈ xs) :
    (∃ g ∈ groupBy key xs, a ∈ g.2 ∧ b ∈ g.2) ↔ key a = key b := by
  constructor
  · rintro ⟨⟨k, g⟩, hg, hag, hbg⟩
    have hgroup := lookupD_groupBy key xs k
    rw [lookupD, (lookup_eq_some_iff (nodup_groupBy key xs)).mpr hg, Option.getD_some] at hgroup
    subst hgroup
    rw [of_decide_eq_true (List.mem_filter.mp hag).2, of_decide_eq_true (List.mem_filter.mp hbg).2]
  · intro hkey
    have hgroup := lookupD_groupBy key xs (key b)
    have hag : a ∈ xs.filter fun x => key x = key b := List.mem_filter.mpr ⟨ha, decide_eq_true hkey⟩
    have hbg : b ∈ xs.filter fun x => key x = key b := List.mem_filter.mpr ⟨hb, decide_eq_true rfl⟩
    cases hlookup : (groupBy key xs).lookup (key b) with
    | none =>
        rw [lookupD, hlookup, Option.getD_none] at hgroup
        rw [← hgroup] at hag
        cases hag
    | some g =>
        rw [lookupD, hlookup, Option.getD_some] at hgroup
        rw [← hgroup] at hag hbg
        exact ⟨_, mem_of_lookup hlookup, hag, hbg⟩

theorem mem_map_distinctBy {k : κ} : k ∈ (distinctBy key seen xs).map key ↔ k ∉ seen ∧ k ∈ xs.map key := by
  induction xs generalizing seen with
  | nil => simp only [distinctBy, List.map_nil, List.not_mem_nil, and_false]
  | cons x xs ih =>
      rw [distinctBy]
      split_ifs with hx
      · rw [ih, List.map_cons, List.mem_cons]
        constructor
        · exact fun h => ⟨h.1, .inr h.2⟩
        · rintro ⟨hk, rfl | h⟩
          · exact absurd hx hk
          · exact ⟨hk, h⟩
      · rw [List.map_cons, List.mem_cons, ih, List.map_cons, List.mem_cons, List.mem_cons]
        by_cases hk : k = key x
        · subst hk
          exact iff_of_true (.inl rfl) ⟨hx, .inl rfl⟩
        · simp only [hk, false_or]

theorem nodup_map_distinctBy (key : α → κ) (seen : List κ) (xs : List α) :
    ((distinctBy key seen xs).map key).Nodup := by
  induction xs generalizing seen with
  | nil => exact List.nodup_nil
  | cons x xs ih =>
      rw [distinctBy]
      split_ifs with hx
      · exact ih seen
      · rw [List.map_cons, List.nodup_cons]
        refine ⟨fun h => ?_, ih _⟩
        exact (mem_map_distinctBy.mp h).1 List.mem_cons_self

theorem prefix_distinctBy (key : α → κ) (seen : List κ) (xs ys : List α) :
    distinctBy key seen xs <+: distinctBy key seen (xs ++ ys) := by
  induction xs generalizing seen with
  | nil => exact List.nil_prefix
  | cons x xs ih =>
      rw [List.cons_append, distinctBy, distinctBy]
      by_cases hx : key x ∈ seen
      · rw [if_pos hx, if_pos hx]
        exact ih seen
      · rw [if_neg hx, if_neg hx]
        exact List.cons_prefix_cons.mpr ⟨rfl, ih (key x :: seen)⟩

theorem length_distinctBy (key : α → κ) (xs : List α) :
    (distinctBy key [] xs).length = (xs.map key).toFinset.card := by
  have hsame : (xs.map key).toFinset = ((distinctBy key [] xs).map key).toFinset := by
    ext k
    rw [List.mem_toFinset, List.mem_toFinset, mem_map_distinctBy]
    exact ⟨fun h => ⟨List.not_mem_nil, h⟩, And.right⟩
  rw [hsame, List.toFinset_card_of_nodup (nodup_map_distinctBy key [] xs), List.length_map]

variable [DecidableEq α]

-- Keys tell the elements apart when as many are kept as there are elements.
theorem length_distinctBy_eq_iff :
    (distinctBy key [] xs).length = (distinctBy id [] xs).length ↔
      ∀ a ∈ xs, ∀ b ∈ xs, key a = key b → a = b := by
  have himage : (xs.map key).toFinset = xs.toFinset.image key := by
    ext k
    simp only [List.mem_toFinset, List.mem_map, Finset.mem_image]
  rw [length_distinctBy, length_distinctBy, himage, List.map_id, Finset.card_image_iff]
  simp only [Set.InjOn, Finset.mem_coe, List.mem_toFinset]

theorem mem_distinct {a : α} : a ∈ distinctBy id [] xs ↔ a ∈ xs := by
  have hmem := @mem_map_distinctBy α α _ id xs [] a
  rw [List.map_id, List.map_id] at hmem
  exact hmem.trans ⟨And.right, fun h => ⟨List.not_mem_nil, h⟩⟩

theorem length_distinct_le (xs : List α) : (distinctBy id [] xs).length ≤ xs.length := by
  rw [length_distinctBy, List.map_id]
  exact List.toFinset_card_le xs

theorem length_distinct_iff : (distinctBy id [] xs).length = xs.length ↔ xs.Nodup := by
  rw [length_distinctBy, List.map_id]
  exact Multiset.toFinset_card_eq_card_iff_nodup

theorem distinctBy_eq_iff :
    distinctBy key [] xs = distinctBy id [] xs ↔ ∀ a ∈ xs, ∀ b ∈ xs, key a = key b → a = b := by
  constructor
  · intro h
    exact length_distinctBy_eq_iff.mp (congrArg List.length h)
  · intro hinj
    suffices hgen : ∀ (ys : List α) (seen : List κ) (kept : List α), ys ⊆ xs →
        (∀ y ∈ ys, key y ∈ seen ↔ y ∈ kept) → distinctBy key seen ys = distinctBy id kept ys from
      hgen xs [] [] (List.Subset.refl xs) fun y _ => iff_of_false List.not_mem_nil List.not_mem_nil
    intro ys
    induction ys with
    | nil => exact fun _ _ _ _ => rfl
    | cons y ys ih =>
        intro seen kept hsub hseen
        have hrest := List.cons_subset.mp hsub
        rw [distinctBy, distinctBy, id]
        by_cases hy : key y ∈ seen
        · rw [if_pos hy, if_pos ((hseen y List.mem_cons_self).mp hy)]
          exact ih seen kept hrest.2 fun z hz => hseen z (List.mem_cons_of_mem y hz)
        · rw [if_neg hy, if_neg fun h => hy ((hseen y List.mem_cons_self).mpr h)]
          congr 1
          refine ih (key y :: seen) (y :: kept) hrest.2 fun z hz => ?_
          rw [List.mem_cons, List.mem_cons, hseen z (List.mem_cons_of_mem y hz)]
          refine or_congr_left ⟨fun hkey => ?_, congrArg key⟩
          exact hinj z (hrest.2 hz) y hrest.1 hkey

end Grouping

end Lib

namespace Lib

-- The runs of positions between the places where something changes.
namespace Runs

variable (change : Nat → Bool)

def index : Nat → Nat
  | 0 => 0
  | p + 1 => index p + if change (p + 1) then 1 else 0

-- The first and last positions of the runs that end before a position, and where its own run starts.
def collect : Nat → List (Nat × Nat) × Nat
  | 0 => ([], 0)
  | q + 1 =>
      if change (q + 1) then ((collect q).1 ++ [((collect q).2, q)], q + 1) else collect q

-- The runs of the first `n` positions.
def bounds (n : Nat) : List (Nat × Nat) := (collect change (n - 1)).1 ++ [((collect change (n - 1)).2, n - 1)]

def locate (n p : Nat) : Nat := ((bounds change n).findIdx? fun run => decide (run.1 ≤ p ∧ p ≤ run.2)).getD 0

variable {change} {n p q i : Nat}

theorem index_mono (h : p ≤ q) : index change p ≤ index change q := by
  induction q with
  | zero =>
      obtain rfl := Nat.le_zero.mp h
      exact Nat.le_refl _
  | succ q ih =>
      rcases Nat.eq_or_lt_of_le h with rfl | hlt
      · exact Nat.le_refl _
      · have hq := ih (by omega)
        rw [index]
        omega

theorem index_le (p : Nat) : index change p ≤ p := by
  induction p with
  | zero => exact Nat.le_refl _
  | succ p ih =>
      rw [index]
      split_ifs <;> omega

theorem length_collect : (collect change q).1.length = index change q := by
  induction q with
  | zero => rfl
  | succ q ih =>
      rw [collect, index]
      by_cases hchange : change (q + 1)
      · rw [if_pos hchange, if_pos hchange, List.length_append, ih]
        rfl
      · rw [if_neg hchange, if_neg hchange, ih, Nat.add_zero]

theorem start_le_iff (p : Nat) : (collect change q).2 ≤ p ↔ index change q ≤ index change p := by
  induction q with
  | zero => exact ⟨fun _ => Nat.zero_le _, fun _ => Nat.zero_le _⟩
  | succ q ih =>
      rw [collect]
      by_cases hchange : change (q + 1)
      · rw [if_pos hchange]
        constructor
        · exact index_mono
        · intro h
          by_contra hlt
          have hle : index change p ≤ index change q := index_mono (by omega)
          rw [index, if_pos hchange] at h
          omega
      · rw [if_neg hchange, ih, index, if_neg hchange, Nat.add_zero]

theorem closed_iff {run : Nat × Nat} (h : (collect change q).1[i]? = some run) (p : Nat) :
    (run.1 ≤ p ↔ i ≤ index change p) ∧ (p ≤ run.2 ↔ index change p ≤ i) := by
  induction q with
  | zero => cases h
  | succ q ih =>
      rw [collect] at h
      by_cases hchange : change (q + 1)
      · rw [if_pos hchange] at h
        rcases Nat.lt_or_ge i (index change q) with hlt | hge
        · rw [List.getElem?_append_left (by rw [length_collect]; exact hlt)] at h
          exact ih h
        · rw [List.getElem?_append_right (by rw [length_collect]; exact hge), length_collect] at h
          have hi : i = index change q := by
            have hlen := (List.getElem?_eq_some_iff.mp h).1
            rw [List.length_singleton] at hlen
            omega
          subst hi
          rw [Nat.sub_self] at h
          obtain rfl := Option.some.inj h
          refine ⟨start_le_iff p, index_mono, ?_⟩
          intro hle
          by_contra hlt
          have hnext : index change (q + 1) ≤ index change p := index_mono (by omega)
          rw [index, if_pos hchange] at hnext
          omega
      · rw [if_neg hchange] at h
        exact ih h

theorem bounds_iff {run : Nat × Nat} (h : (bounds change n)[i]? = some run) (hp : p < n) :
    (run.1 ≤ p ↔ i ≤ index change p) ∧ (p ≤ run.2 ↔ index change p ≤ i) := by
  rcases Nat.lt_or_ge i (index change (n - 1)) with hlt | hge
  · rw [bounds, List.getElem?_append_left (by rw [length_collect]; exact hlt)] at h
    exact closed_iff h p
  · rw [bounds, List.getElem?_append_right (by rw [length_collect]; exact hge), length_collect] at h
    have hi : i = index change (n - 1) := by
      have hlen := (List.getElem?_eq_some_iff.mp h).1
      rw [List.length_singleton] at hlen
      omega
    subst hi
    rw [Nat.sub_self] at h
    obtain rfl := Option.some.inj h
    have hle : p ≤ n - 1 := by omega
    exact ⟨start_le_iff p, fun _ => index_mono hle, fun _ => hle⟩

theorem length_bounds : (bounds change n).length = index change (n - 1) + 1 := by
  rw [bounds, List.length_append, length_collect, List.length_singleton]

theorem length_bounds_le (hn : 0 < n) : (bounds change n).length ≤ n := by
  have hle : index change (n - 1) ≤ n - 1 := index_le _
  rw [length_bounds]
  omega

theorem index_lt_length (hp : p < n) : index change p < (bounds change n).length := by
  have hmono : index change p ≤ index change (n - 1) := index_mono (by omega)
  rw [length_bounds]
  omega

theorem locate_eq (hp : p < n) : locate change n p = index change p := by
  have hlt : index change p < (bounds change n).length := index_lt_length hp
  have hfind : ((bounds change n).findIdx? fun run => decide (run.1 ≤ p ∧ p ≤ run.2)) =
      some (index change p) := by
    rw [List.findIdx?_eq_some_iff_getElem]
    refine ⟨hlt, ?_, ?_⟩
    · have hrun := bounds_iff (List.getElem?_eq_getElem hlt) hp
      exact decide_eq_true ⟨hrun.1.mpr (Nat.le_refl _), hrun.2.mpr (Nat.le_refl _)⟩
    · intro j hj
      have hrun := bounds_iff (List.getElem?_eq_getElem (Nat.lt_trans hj hlt)) hp
      rw [decide_eq_true_eq]
      intro hin
      have hle := hrun.2.mp hin.2
      omega
  rw [locate, hfind, Option.getD_some]

end Runs

end Lib
