import Kkdb.BTree.Search

namespace Kkdb

open Lib

namespace BTree

-- A subtree after an insert below its page. Around it stand the leaves `A` and `B` of the rest of
-- the tree.
structure Spread (H : Heap) (A leaves B : List Leaf) (inner : List Nat) (H' : Heap) (leaves' : List Leaf)
    (inner' : List Nat) : Prop where
  forest : Forest H' (A ++ (leaves' ++ B))
  nodup : (inner' ++ pagesOf (A ++ (leaves' ++ B))).Nodup
  freshPages : ∀ q ∈ pagesOf (A ++ (leaves' ++ B)), q ∈ pagesOf (A ++ (leaves ++ B)) ∨ H q = none
  freshInner : ∀ q ∈ inner', q ∈ inner ∨ H q = none
  frame : ∀ q, q ∉ inner → q ∉ leafPages (A ++ (leaves ++ B)) → H q ≠ none → H' q = H q
  kept : ∀ q, H q ≠ none → H' q ≠ none

section Spread

variable {H H₁ H₂ : Heap} {A B l₁ lc l₂ lc' leaves leaves' : List Leaf} {i₁ ic i₂ ic' inner inner' : List Nat}
  {page q : Nat}

theorem nodup_rotate {P : List Nat} (h : ((page :: (i₁ ++ (ic ++ i₂))) ++ P).Nodup) :
    ((page :: (i₁ ++ i₂)) ++ (ic ++ P)).Nodup := by
  refine List.Perm.nodup_iff ?_ |>.mp h
  refine List.perm_iff_count.mpr fun q => ?_
  simp only [List.count_append, List.count_cons]
  omega

theorem nodup_unrotate {P : List Nat} (h : ((page :: (i₁ ++ i₂)) ++ (ic ++ P)).Nodup) :
    ((page :: (i₁ ++ (ic ++ i₂))) ++ P).Nodup := by
  refine List.Perm.nodup_iff ?_ |>.mp h
  refine List.perm_iff_count.mpr fun q => ?_
  simp only [List.count_append, List.count_cons]
  omega

theorem leaves_assoc (A B l₁ lc l₂ : List Leaf) :
    A ++ ((l₁ ++ (lc ++ l₂)) ++ B) = (A ++ l₁) ++ (lc ++ (l₂ ++ B)) := by simp

theorem beside_child
    (hnodup : ((page :: (i₁ ++ (ic ++ i₂))) ++ pagesOf (A ++ ((l₁ ++ (lc ++ l₂)) ++ B))).Nodup)
    (howned : ∀ q ∈ page :: (i₁ ++ (ic ++ i₂)), ∃ d, H q = some d) (hq : q ∈ page :: (i₁ ++ i₂)) :
    H q ≠ none ∧ q ∉ ic ∧ q ∉ pagesOf ((A ++ l₁) ++ (lc ++ (l₂ ++ B))) := by
  obtain ⟨-, -, hdisj⟩ := List.nodup_append.mp (nodup_rotate hnodup)
  rw [leaves_assoc] at hdisj
  obtain ⟨d, hd⟩ := howned q (by
    simp only [List.mem_cons, List.mem_append] at hq ⊢
    tauto)
  exact ⟨by simp [hd], fun hmem => hdisj q hq q (List.mem_append_left _ hmem) rfl,
    fun hmem => hdisj q hq q (List.mem_append_right _ hmem) rfl⟩

theorem Spread.widen (h : Spread H (A ++ l₁) lc (l₂ ++ B) ic H₁ lc' ic')
    (hnodup : ((page :: (i₁ ++ (ic ++ i₂))) ++ pagesOf (A ++ ((l₁ ++ (lc ++ l₂)) ++ B))).Nodup)
    (howned : ∀ q ∈ page :: (i₁ ++ (ic ++ i₂)), ∃ d, H q = some d) :
    Spread H A (l₁ ++ (lc ++ l₂)) B (page :: (i₁ ++ (ic ++ i₂))) H₁ (l₁ ++ (lc' ++ l₂))
      (page :: (i₁ ++ (ic' ++ i₂))) := by
  refine ⟨leaves_assoc A B l₁ lc' l₂ ▸ h.forest, nodup_unrotate ?_, ?_, fun q hq => ?_, fun q hq hleaf => ?_,
    h.kept⟩
  · rw [leaves_assoc]
    refine List.nodup_append.mpr ⟨(List.nodup_append.mp (nodup_rotate hnodup)).1, h.nodup,
      fun q hq q' hq' heq => ?_⟩
    subst heq
    obtain ⟨hne, hic, hpages⟩ := beside_child hnodup howned hq
    rcases List.mem_append.mp hq' with hmem | hmem
    · exact (h.freshInner q hmem).elim hic hne
    · exact (h.freshPages q hmem).elim hpages hne
  · rw [leaves_assoc, leaves_assoc]
    exact h.freshPages
  · simp only [List.mem_cons, List.mem_append] at hq ⊢
    rcases hq with hq | hq | hq | hq
    · exact .inl (.inl hq)
    · exact .inl (.inr (.inl hq))
    · exact (h.freshInner q hq).imp (fun hmem => .inr (.inr (.inl hmem))) id
    · exact .inl (.inr (.inr (.inr hq)))
  · rw [leaves_assoc] at hleaf
    exact h.frame q (fun hmem => hq (by simp [hmem])) hleaf

theorem Spread.same (h : Spread H (A ++ l₁) lc (l₂ ++ B) ic H₁ lc' ic')
    (hnodup : ((page :: (i₁ ++ (ic ++ i₂))) ++ pagesOf (A ++ ((l₁ ++ (lc ++ l₂)) ++ B))).Nodup)
    (howned : ∀ q ∈ page :: (i₁ ++ (ic ++ i₂)), ∃ d, H q = some d) (hq : q ∈ page :: (i₁ ++ i₂)) :
    H₁ q = H q := by
  obtain ⟨hne, hic, hpages⟩ := beside_child hnodup howned hq
  exact h.frame q hic (fun hmem => hpages (List.mem_append_left _ hmem)) hne

theorem Spread.write {d : PageData} (h : Spread H A leaves B inner H₁ leaves' inner') (hin : page ∈ inner)
    (hin' : page ∈ inner') : Spread H A leaves B inner (Function.update H₁ page (some d)) leaves' inner' := by
  have hnot : page ∉ pagesOf (A ++ (leaves' ++ B)) := fun hmem =>
    (List.nodup_append.mp h.nodup).2.2 page hin' page hmem rfl
  refine ⟨h.forest.frame fun q hq => Function.update_of_ne (ne_of_mem_of_not_mem hq hnot) _ _, h.nodup,
    h.freshPages, h.freshInner, fun q hq hleaf hne => ?_, fun q hne => ?_⟩
  · rw [Function.update_of_ne (ne_of_mem_of_not_mem hin hq).symm]
    exact h.frame q hq hleaf hne
  · by_cases hqp : q = page
    · rw [hqp, Function.update_self]
      exact Option.some_ne_none _
    · rw [Function.update_of_ne hqp]
      exact h.kept q hne

theorem Spread.grow {d : PageData} {inner'' : List Nat} (h : Spread H A leaves B inner H₁ leaves' inner')
    (hfree : H₁ page = none) (howned : ∀ q ∈ inner', ∃ d, H₁ q = some d)
    (hperm : inner''.Perm (page :: inner')) :
    Spread H A leaves B inner (Function.update H₁ page (some d)) leaves' inner'' := by
  have hpages : page ∉ pagesOf (A ++ (leaves' ++ B)) := fun hmem => by
    obtain ⟨d, hd⟩ := h.forest.owned hmem
    rw [hfree] at hd
    cases hd
  have hinner : page ∉ inner' := fun hmem => by
    obtain ⟨d, hd⟩ := howned page hmem
    rw [hfree] at hd
    cases hd
  have hunused : H page = none := by
    by_contra hne
    exact h.kept page hne hfree
  refine ⟨h.forest.frame fun q hq => Function.update_of_ne (ne_of_mem_of_not_mem hq hpages) _ _, ?_,
    h.freshPages, fun q hq => ?_, fun q hq hleaf hne => ?_, fun q hne => ?_⟩
  · have hnot : page ∉ inner' ++ pagesOf (A ++ (leaves' ++ B)) := by
      rw [List.mem_append, not_or]
      exact ⟨hinner, hpages⟩
    exact ((hperm.append_right _).nodup_iff).mpr (List.nodup_cons.mpr ⟨hnot, h.nodup⟩)
  · rcases List.mem_cons.mp (hperm.mem_iff.mp hq) with rfl | hmem
    · exact .inr hunused
    · exact h.freshInner q hmem
  · rw [Function.update_of_ne fun heq => hne (by rw [heq, hunused])]
    exact h.frame q hq hleaf hne
  · rw [Function.update_of_ne fun heq => hne (by rw [heq, hunused])]
    exact h.kept q hne

end Spread

-- What is asked of the leaf that the search for a rowid comes to. `above` counts the interior pages
-- on the way, and `keys` are those of the last of them.
def Reaches (view : Nat → PageData) (rowid : Int64) (P : Nat → List Int64 → PageData → Prop) :
    Nat → Nat → List Int64 → Nat → Prop
  | 0, _, _, _ => False
  | fuel + 1, above, keys, page =>
      if pageType (view page) = INTERIOR_TABLE then
        match interiorCells (view page), childFor (view page) rowid with
        | .ok cells, .ok child => Reaches view rowid P fuel (above + 1) (cells.map Prod.snd) child
        | _, _ => False
      else P above keys (view page)

instance reachesDecidable (view : Nat → PageData) (rowid : Int64) (P : Nat → List Int64 → PageData → Prop)
    [∀ above keys data, Decidable (P above keys data)] :
    ∀ fuel above keys page, Decidable (Reaches view rowid P fuel above keys page)
  | 0, _, _, _ => inferInstanceAs (Decidable False)
  | fuel + 1, above, keys, page => by
      have := reachesDecidable view rowid P fuel (above + 1)
      unfold Reaches
      split
      · split <;> infer_instance
      · infer_instance

-- A leaf without room does not have the rowid yet, and both halves fit; when that leaf is empty the
-- rowid, which becomes the divider, is not among the keys above it. The last conditions keep clear of
-- the limit on the number of pages: each interior page may be split, and so may the root.
def AdmitsLeaf (total : Nat) (rowid : Int64) (payload : List UInt8) (above : Nat) (keys : List Int64)
    (data : PageData) : Prop :=
  if available LEAF_HEADER_SIZE data < cellLen payload + 2 then
    findCell data rowid = .ok none ∧ SplitFits data rowid payload ∧ ¬(cellCount data = 0 ∧ rowid ∈ keys) ∧
      total + chainLen payload + above + 1 ≤ MAX_PAGES
  else total + chainLen payload ≤ MAX_PAGES

instance (total : Nat) (rowid : Int64) (payload : List UInt8) (above : Nat) (keys : List Int64)
    (data : PageData) : Decidable (AdmitsLeaf total rowid payload above keys data) := by
  unfold AdmitsLeaf
  infer_instance

def Admits (view : Nat → PageData) (total : Nat) (rowid : Int64) (payload : List UInt8) :
    Nat → Nat → List Int64 → Nat → Prop :=
  Reaches view rowid (AdmitsLeaf total rowid payload)

-- What stands at the page after an insert below it: the subtree, or its two parts.
def Outcome (H : Heap) (depth page : Nat) (lo hi : Int) (keys : List Int64) (above : Nat)
    (leaves : List Leaf) (inner : List Nat) (total : Nat) : InsertResult → Prop
  | .Done => Sub H depth page lo hi leaves inner
  | .Split k n => ∃ la lb ia ib, leaves = la ++ lb ∧ inner = ia ++ ib ∧ Sub H depth page lo k.toInt la ia ∧
      Sub H depth n k.toInt hi lb ib ∧ n < 2 ^ 32 ∧ lo ≤ k.toInt ∧ k.toInt < hi ∧
      (lo < k.toInt ∨ k ∉ keys) ∧ total + above ≤ MAX_PAGES

structure Inserted (H : Heap) (A leaves B : List Leaf) (inner : List Nat) (c : Cell) (H' : Heap)
    (leaves' : List Leaf) (inner' : List Nat) : Prop where
  spread : Spread H A leaves B inner H' leaves' inner'
  cells : ∃ pre post, cellsOf leaves = pre ++ post ∧ cellsOf leaves' = pre ++ c :: post

section Leaf

variable [Lz4Flex] {H : Heap} {A B : List Leaf} {cells : List Cell} {total page fuel above : Nat} {s : Pager}
  {rowid : Int64} {payload : List UInt8} {view : Nat → PageData} {lo hi : Int} {keys : List Int64}

theorem insertIntoPage_leaf (hO : Owns H total s) (hview : ∀ p d, H p = some d → view p = d)
    (hF : Forest H (A ++ ([⟨page, cells⟩] ++ B)))
    (hbounds : ∀ c ∈ cells, lo ≤ c.rowid.toInt ∧ c.rowid.toInt < hi) (hlo : lo ≤ rowid.toInt)
    (hhi : rowid.toInt < hi) (habsent : ∀ c ∈ cells, c.rowid ≠ rowid) (hshort : payload.length ≤ U32_MAX)
    (hadmits : Admits view total rowid payload (fuel + 1) above keys page) :
    Yields (insertIntoPage rowid payload (fuel + 1) page) s fun r s' => ∃ (c : Cell) (H' : Heap)
      (leaves' : List Leaf) (total' : Nat), c.rowid = rowid ∧ c.payload = payload ∧
        Inserted H A [⟨page, cells⟩] B [] c H' leaves' [] ∧
        Outcome H' 0 page lo hi keys above leaves' [] total' r ∧ total ≤ total' ∧ Owns H' total' s' := by
  obtain ⟨d, lo', hd, hleaf⟩ := hF.middle
  simp only at hd hleaf
  obtain ⟨pre, post, rfl, hpre, hpost⟩ : ∃ pre post, cells = pre ++ post ∧
      (∀ x ∈ pre, x.rowid.toInt < rowid.toInt) ∧ ∀ x ∈ post, rowid.toInt < x.rowid.toInt := by
    rcases hleaf.sorted.split rowid with h | ⟨pre, c, post, rfl, hc⟩
    · exact h
    · exact absurd hc (habsent c (by simp))
  have hcount := hleaf.count
  rw [Admits, Reaches, hview page d hd, hleaf.laid.type, if_neg leaf_ne_interior, AdmitsLeaf] at hadmits
  have hroom : total + chainLen payload ≤ MAX_PAGES := by
    split_ifs at hadmits <;> omega
  have hfit : available LEAF_HEADER_SIZE d < cellLen payload + 2 →
      SplitFits d rowid payload ∧ total + chainLen payload < MAX_PAGES := fun hspace => by
    rw [if_pos hspace] at hadmits
    exact ⟨hadmits.2.1, by omega⟩
  rw [insertIntoPage, if_neg (by omega)]
  refine (getPage_owns hO hd).bind fun pg s₁ ⟨hdata, hO₁⟩ => ?_
  rw [hdata, hleaf.laid.type, if_pos rfl]
  refine (insertIntoLeaf_owns hO₁ hF hd hpre hpost hshort hroom hfit).mono
    fun r s₂ ⟨c, news, H', total', hrowid, hpayload, hgrown, hresult, hge, hle, hO₂⟩ => ?_
  have hspread : Spread H A [⟨page, pre ++ post⟩] B [] H' news [] :=
    ⟨hgrown.forest, hgrown.forest.nodup, hgrown.fresh, fun q hq => (by cases hq),
      fun q _ hq => hgrown.frame q hq, hgrown.kept⟩
  have hall : ∀ x ∈ pre ++ c :: post, lo ≤ x.rowid.toInt ∧ x.rowid.toInt < hi := by
    intro x hx
    rcases List.mem_append.mp hx with hx | hx
    · exact hbounds x (List.mem_append_left _ hx)
    · rcases List.mem_cons.mp hx with rfl | hx
      · rw [hrowid]
        exact ⟨hlo, hhi⟩
      · exact hbounds x (List.mem_append_right _ hx)
  rcases hresult with ⟨rfl, rfl⟩ | ⟨hspace, k, n, rfl, hn, hpart⟩
  · exact ⟨c, H', _, total', hrowid, hpayload, ⟨hspread, pre, post, by simp, by simp⟩,
      ⟨_, rfl, rfl, hall⟩, hge, hO₂⟩
  · obtain ⟨l, r, rfl, hcells, hl, hr, ⟨x, hx, hxk⟩, hlong⟩ := hpart.halves
    rw [if_pos hspace] at hadmits
    have hk := hall x (by rw [hcells]; exact List.mem_append_right _ hx)
    rw [hxk] at hk
    refine ⟨c, H', _, total', hrowid, hpayload, ⟨hspread, pre, post, by simp, by simp [hcells]⟩,
      ⟨[⟨page, l⟩], [⟨n, r⟩], [], [], rfl, rfl, ⟨l, rfl, rfl, fun y hy => ⟨?_, hl y hy⟩⟩,
        ⟨r, rfl, rfl, fun y hy => ⟨hr y hy, ?_⟩⟩, hn, hk.1, hk.2, ?_, by omega⟩, hge, hO₂⟩
    · exact (hall y (by rw [hcells]; exact List.mem_append_left _ hy)).1
    · exact (hall y (by rw [hcells]; exact List.mem_append_right _ hy)).2
    · cases l with
      | cons y l =>
          have := (hall y (by rw [hcells]; simp)).1
          have := hl y List.mem_cons_self
          exact .inl (by omega)
      | nil =>
          have hshort' : (pre ++ c :: post).length ≤ 1 := by
            by_contra hgt
            exact hlong (by omega) rfl
          have hempty : pre ++ post = [] := by
            rw [← List.length_eq_zero_iff]
            simp only [List.length_append, List.length_cons] at hshort' ⊢
            omega
          obtain ⟨rfl, rfl⟩ := List.append_eq_nil_iff.mp hempty
          rw [List.nil_append, List.nil_append] at hcells
          rw [← hcells, List.mem_singleton] at hx
          refine .inr fun hmem => hadmits.2.2.1 ⟨hcount, ?_⟩
          rw [← hrowid, ← hx, hxk]
          exact hmem

end Leaf

section Interior

variable {H H₁ H₂ : Heap} {depth page n : Nat} {lo hi : Int} {leaves la lb lc' : List Leaf}
  {inner ia ib ic' : List Nat} {rowid k : Int64} {t : Turn}

theorem TurnAt.bound_le (h : TurnAt H depth page lo hi leaves inner rowid t) : t.bound ≤ hi := by
  have hitems := h.place
  cases hpost : t.post with
  | nil =>
      rw [hpost, items, List.map_nil, List.nil_append, List.cons.injEq, Prod.mk.injEq] at hitems
      exact le_of_eq hitems.1.2.symm
  | cons e post =>
      rw [hpost, items, List.map_cons, List.cons_append, List.cons.injEq, Prod.mk.injEq] at hitems
      rw [← hitems.1.2]
      exact Int.le_of_lt (h.keys e (by simp [hpost])).2

theorem TurnAt.child_lt (h : TurnAt H depth page lo hi leaves inner rowid t) : t.child < 2 ^ 32 := by
  obtain ⟨d, -, hint⟩ := h.data
  rw [h.child_eq]
  cases hpost : t.post with
  | nil => exact hint.small_right
  | cons e post => exact hint.small e (by simp [hpost])

theorem TurnAt.increasing_add (h : TurnAt H depth page lo hi leaves inner rowid t)
    (hlow : endBound lo (childBounds t.pre) ≤ k.toInt) (hhigh : k.toInt < t.bound)
    (hnew : endBound lo (childBounds t.pre) < k.toInt ∨ k ∉ (t.pre ++ t.post).map Prod.snd) :
    Increasing (t.pre ++ (t.child, k) :: t.post) ∧
      ∀ e ∈ t.pre ++ (t.child, k) :: t.post, lo ≤ e.2.toInt ∧ e.2.toInt < hi := by
  have hbefore : ∀ e ∈ t.pre, e.2.toInt < k.toInt := by
    intro e he
    have hmem : (e.1, e.2.toInt) ∈ childBounds t.pre := List.mem_map_of_mem he
    have hle := h.rising_left.mem_le_endBound hmem
    simp only at hle
    rcases hnew with hlt | hnot
    · omega
    · have hne : e.2.toInt ≠ k.toInt := fun heq => hnot (by
        rw [← Int64.toInt_inj.mp heq]
        exact List.mem_map_of_mem (List.mem_append_left _ he))
      omega
  have hbehind : ∀ e ∈ t.post, k.toInt < e.2.toInt := by
    intro e he
    have hitems := h.place
    have hinc := h.increasing
    rw [Increasing, List.map_append, List.pairwise_append] at hinc
    cases hpost : t.post with
    | nil => rw [hpost] at he; cases he
    | cons x post =>
        rw [hpost] at hitems he hinc
        rw [items, List.map_cons, List.cons_append, List.cons.injEq, Prod.mk.injEq] at hitems
        have hx : k.toInt < x.2.toInt := by rw [hitems.1.2]; exact hhigh
        rcases List.mem_cons.mp he with rfl | hmem
        · exact hx
        · exact Int.lt_trans hx ((List.pairwise_cons.mp hinc.2.1).1 _ (List.mem_map_of_mem hmem))
  have hlo := h.rising_left.le_endBound
  have hhi := h.bound_le
  have hinc := h.increasing
  rw [Increasing, List.map_append, List.pairwise_append] at hinc
  constructor
  · rw [Increasing, List.map_append, List.map_cons, List.pairwise_append, List.pairwise_cons]
    refine ⟨hinc.1, ⟨fun b hb => ?_, hinc.2.1⟩, fun a ha b hb => ?_⟩
    · obtain ⟨e, he, rfl⟩ := List.mem_map.mp hb
      exact hbehind e he
    · obtain ⟨e, he, rfl⟩ := List.mem_map.mp ha
      rcases List.mem_cons.mp hb with rfl | hb
      · exact hbefore e he
      · exact hinc.2.2 _ (List.mem_map_of_mem he) _ hb
  · intro e he
    rcases List.mem_append.mp he with he | he
    · exact h.keys e (List.mem_append_left _ he)
    · rcases List.mem_cons.mp he with rfl | he
      · exact ⟨by simp only; omega, by simp only; omega⟩
      · exact h.keys e (List.mem_append_right _ he)

theorem TurnAt.increasing_relink (h : TurnAt H depth page lo hi leaves inner rowid t)
    (hlow : endBound lo (childBounds t.pre) ≤ k.toInt) (hhigh : k.toInt < t.bound)
    (hnew : endBound lo (childBounds t.pre) < k.toInt ∨ k ∉ (t.pre ++ t.post).map Prod.snd) :
    Increasing (relink t.pre.length n t.right (t.pre ++ (t.child, k) :: t.post)).1 ∧
      ∀ e ∈ (relink t.pre.length n t.right (t.pre ++ (t.child, k) :: t.post)).1,
        lo ≤ e.2.toInt ∧ e.2.toInt < hi := by
  obtain ⟨hinc, hkeys⟩ := h.increasing_add hlow hhigh hnew
  have hsame := keys_relink t.right n t.child t.pre t.post k
  refine ⟨hinc.of_keys hsame, fun e he => ?_⟩
  obtain ⟨e', he', heq⟩ := List.mem_map.mp (hsame ▸ List.mem_map_of_mem he)
  rw [← heq]
  exact hkeys e' he'

theorem TurnAt.kids_add (h : TurnAt H depth page lo hi leaves inner rowid t)
    (hsame : ∀ q ∈ t.innerLeft ++ t.innerRight, H₁ q = H q)
    (hleft : Sub H₁ depth t.child (endBound lo (childBounds t.pre)) k.toInt la ia)
    (hright : Sub H₁ depth n k.toInt t.bound lb ib) :
    Kids (Sub H₁ depth) lo
      (items (relink t.pre.length n t.right (t.pre ++ (t.child, k) :: t.post)).1
        (relink t.pre.length n t.right (t.pre ++ (t.child, k) :: t.post)).2 hi)
      (t.leavesLeft ++ ((la ++ lb) ++ t.leavesRight)) (t.innerLeft ++ ((ia ++ ib) ++ t.innerRight)) := by
  rw [items_relink h.place, kids_append]
  refine ⟨t.leavesLeft, _, t.innerLeft, _, rfl, rfl,
    h.kidsLeft.frame fun q hq => hsame q (List.mem_append_left _ hq),
    ⟨la, lb ++ t.leavesRight, ia, ib ++ t.innerRight, by simp, by simp, hleft,
      ⟨lb, t.leavesRight, ib, t.innerRight, rfl, rfl, hright,
        h.kidsRight.frame fun q hq => hsame q (List.mem_append_right _ hq)⟩⟩⟩

theorem TurnAt.kids_keep (h : TurnAt H depth page lo hi leaves inner rowid t)
    (hsame : ∀ q ∈ t.innerLeft ++ t.innerRight, H₁ q = H q)
    (hchild : Sub H₁ depth t.child (endBound lo (childBounds t.pre)) t.bound lc' ic') :
    Kids (Sub H₁ depth) lo (items (t.pre ++ t.post) t.right hi) (t.leavesLeft ++ (lc' ++ t.leavesRight))
      (t.innerLeft ++ (ic' ++ t.innerRight)) := by
  rw [items_append, kids_append, h.place]
  exact ⟨t.leavesLeft, _, t.innerLeft, _, rfl, rfl,
    h.kidsLeft.frame fun q hq => hsame q (List.mem_append_left _ hq),
    ⟨lc', t.leavesRight, ic', t.innerRight, rfl, rfl, hchild,
      h.kidsRight.frame fun q hq => hsame q (List.mem_append_right _ hq)⟩⟩

theorem kids_halves {cells : List (Nat × Int64)} {final mid c : Nat} {dl dr : PageData}
    (hkids : Kids (Sub H₂ depth) lo (items cells final hi) leaves inner) (hinc : Increasing cells)
    (hkeys : ∀ e ∈ cells, lo ≤ e.2.toInt ∧ e.2.toInt < hi) (hmid : 1 ≤ mid)
    (hget : cells[mid]? = some (c, k)) (hl : H₂ page = some dl) (hintl : InteriorAt dl (cells.take mid) c)
    (hr : H₂ n = some dr) (hintr : InteriorAt dr (cells.drop (mid + 1)) final) :
    ∃ la lb ia ib, leaves = la ++ lb ∧ inner = ia ++ ib ∧
      Sub H₂ (depth + 1) page lo k.toInt la (page :: ia) ∧
      Sub H₂ (depth + 1) n k.toInt hi lb (n :: ib) ∧ lo < k.toInt ∧ k.toInt < hi := by
  obtain ⟨hlt, heq⟩ := List.getElem?_eq_some_iff.mp hget
  have hsplit : cells = cells.take mid ++ (c, k) :: cells.drop (mid + 1) := by
    rw [← heq, ← List.drop_eq_getElem_cons hlt, List.take_append_drop]
  have hsorted := hinc
  rw [hsplit, Increasing, List.map_append, List.map_cons, List.pairwise_append, List.pairwise_cons] at hsorted
  obtain ⟨hincl, ⟨hafter, hincr⟩, hbefore⟩ := hsorted
  have hbelow : ∀ e ∈ cells.take mid, e.2.toInt < k.toInt := fun e he =>
    hbefore _ (List.mem_map_of_mem he) _ List.mem_cons_self
  have habove : ∀ e ∈ cells.drop (mid + 1), k.toInt < e.2.toInt := fun e he =>
    hafter _ (List.mem_map_of_mem he)
  have hk := hkeys (c, k) (List.mem_of_getElem? hget)
  have hfirst : lo < k.toInt := by
    have hpos : 0 < (cells.take mid).length := by
      rw [List.length_take]
      omega
    obtain ⟨e, es, hes⟩ := List.exists_cons_of_length_pos hpos
    have hmem : e ∈ cells.take mid := by rw [hes]; exact List.mem_cons_self
    have := hbelow e hmem
    have := (hkeys e (List.mem_of_mem_take hmem)).1
    omega
  rw [← List.take_append_drop (mid + 1) (items cells final hi), ← items_take hget, ← items_drop hlt,
    kids_append, endBound_items] at hkids
  obtain ⟨la, lb, ia, ib, rfl, rfl, hkl, hkr⟩ := hkids
  refine ⟨la, lb, ia, ib, rfl, rfl, ⟨dl, _, c, ia, hl, hintl, rfl, hincl, fun e he => ?_, hkl⟩,
    ⟨dr, _, final, ib, hr, hintr, rfl, hincr, fun e he => ?_, hkr⟩, hfirst, hk.2⟩
  · exact ⟨(hkeys e (List.mem_of_mem_take he)).1, hbelow e he⟩
  · exact ⟨Int.le_of_lt (habove e he), (hkeys e (List.mem_of_mem_drop he)).2⟩

end Interior

section Halves

variable {H H₁ : Heap} {A B leaves leaves₁ : List Leaf} {inner below : List Nat} {s : Pager}
  {total page depth final : Nat} {lo hi : Int} {cells : List (Nat × Int64)} {d d' : PageData}
  {r : InsertResult}

-- The page has taken in the divider.
theorem Spread.direct (h : Spread H A leaves B inner H₁ leaves₁ (page :: below)) (hpage : page ∈ inner)
    (hkids : Kids (Sub H₁ depth) lo (items cells final hi) leaves₁ below) (hsorted : Increasing cells)
    (hkeys : ∀ e ∈ cells, lo ≤ e.2.toInt ∧ e.2.toInt < hi) (hint : InteriorAt d' cells final) :
    Spread H A leaves B inner (Function.update H₁ page (some d')) leaves₁ (page :: below) ∧
      Sub (Function.update H₁ page (some d')) (depth + 1) page lo hi leaves₁ (page :: below) := by
  have hnot := (List.nodup_cons.mp (List.nodup_append.mp h.nodup).1).1
  refine ⟨h.write hpage List.mem_cons_self, d', cells, final, below, Function.update_self _ _ _, hint, rfl,
    hsorted, hkeys, ?_⟩
  exact hkids.frame fun q hq => Function.update_of_ne (ne_of_mem_of_not_mem hq hnot) _ _

-- The page was full: a new page takes the upper half of its cells.
theorem Spread.halved [Lz4Flex] (keys : List Int64) (above : Nat)
    (h : Spread H A leaves B inner H₁ leaves₁ (page :: below)) (hpage : page ∈ inner)
    (hkids : Kids (Sub H₁ depth) lo (items cells final hi) leaves₁ below) (hsorted : Increasing cells)
    (hkeys : ∀ e ∈ cells, lo ≤ e.2.toInt ∧ e.2.toInt < hi) (hd : H₁ page = some d)
    (hmore : total + (above + 1) ≤ MAX_PAGES) (hhalf : Halved H₁ page cells final r total s) :
    ∃ H' inner' total', Spread H A leaves B inner H' leaves₁ inner' ∧
      Outcome H' (depth + 1) page lo hi keys above leaves₁ inner' total' r ∧ total ≤ total' ∧
      Owns H' total' s := by
  have hnot := (List.nodup_cons.mp (List.nodup_append.mp h.nodup).1).1
  obtain ⟨mid, c, k, n, dl, dr, total', hmid, hget, rfl, hfree, hl, hr, hle, hge, hO⟩ := hhalf.halves
  have howned : ∀ q ∈ below, ∃ d, H₁ q = some d := by
    intro q hq
    obtain ⟨c', a, b, l, i, hs, hq'⟩ := hkids.mem_inner hq
    exact hs.owned q hq'
  have hne : n ≠ page := by
    rintro rfl
    rw [hd] at hfree
    cases hfree
  have hnew : n ∉ below := fun hmem => by
    obtain ⟨d', hd'⟩ := howned n hmem
    rw [hfree] at hd'
    cases hd'
  have hkids' : Kids (Sub (Function.update (Function.update H₁ page (some dl)) n (some dr)) depth) lo _ _ _ :=
    hkids.frame fun q hq => by
      rw [Function.update_of_ne (ne_of_mem_of_not_mem hq hnew),
        Function.update_of_ne (ne_of_mem_of_not_mem hq hnot)]
  obtain ⟨la, lb, ia, ib, hL, hI, hsl, hsr, hlk, hkh⟩ := kids_halves hkids' hsorted hkeys hmid hget
    (by rw [Function.update_of_ne (Ne.symm hne), Function.update_self]) hl (Function.update_self _ _ _) hr
  have hfree' : Function.update H₁ page (some dl) n = none := by
    rw [Function.update_of_ne hne]
    exact hfree
  have hperm : ((page :: ia) ++ (n :: ib)).Perm (n :: page :: below) := by
    rw [hI]
    exact List.perm_middle
  have hgrown := (h.write (d := dl) hpage List.mem_cons_self).grow hfree' (d := dr) (fun q hq => by
    by_cases hqp : q = page
    · rw [hqp, Function.update_self]
      exact ⟨dl, rfl⟩
    · rw [Function.update_of_ne hqp]
      exact howned q ((List.mem_cons.mp hq).resolve_left hqp)) hperm
  exact ⟨_, _, total', hgrown, ⟨la, lb, page :: ia, n :: ib, hL, rfl, hsl, hsr,
    hO.small (Function.update_self _ _ _), Int.le_of_lt hlk, hkh, .inl hlk, by omega⟩, by omega, hO⟩

end Halves

section Page

variable [Lz4Flex] {H : Heap} {A B leaves : List Leaf} {inner : List Nat} {total page depth fuel above : Nat}
  {s : Pager} {rowid : Int64} {payload : List UInt8} {view : Nat → PageData} {lo hi : Int}
  {keys : List Int64}

-- By induction on the depth: the insert below a child changes the subtree of that child only, and
-- this page takes in the divider when the child was split.
theorem insertIntoPage_owns (hO : Owns H total s) (hview : ∀ p d, H p = some d → view p = d)
    (hsub : Sub H depth page lo hi leaves inner) (hF : Forest H (A ++ (leaves ++ B)))
    (hnodup : (inner ++ pagesOf (A ++ (leaves ++ B))).Nodup) (hlo : lo ≤ rowid.toInt) (hhi : rowid.toInt < hi)
    (habsent : ∀ c ∈ cellsOf leaves, c.rowid ≠ rowid) (hshort : payload.length ≤ U32_MAX)
    (hadmits : Admits view total rowid payload fuel above keys page) :
    Yields (insertIntoPage rowid payload fuel page) s fun r s' => ∃ (c : Cell) (H' : Heap)
      (leaves' : List Leaf) (inner' : List Nat) (total' : Nat), c.rowid = rowid ∧ c.payload = payload ∧
        Inserted H A leaves B inner c H' leaves' inner' ∧
        Outcome H' depth page lo hi keys above leaves' inner' total' r ∧ total ≤ total' ∧
        Owns H' total' s' := by
  induction depth generalizing page lo hi leaves inner A B fuel above keys s with
  | zero =>
      obtain ⟨cells, rfl, rfl, hbounds⟩ := hsub
      cases fuel with
      | zero => exact hadmits.elim
      | succ fuel =>
          refine (insertIntoPage_leaf hO hview hF hbounds hlo hhi (fun c hc => habsent c (by simpa using hc))
            hshort hadmits).mono fun r s' ⟨c, H', leaves', total', h⟩ => ⟨c, H', leaves', [], total', h⟩
  | succ depth ih =>
      obtain ⟨t, ht⟩ := hsub.turn hlo hhi
      obtain ⟨d, hd, hint⟩ := ht.data
      have howned := hsub.owned
      have hinner := ht.inner
      have hleaves := ht.leaves
      subst hinner hleaves
      cases fuel with
      | zero => exact hadmits.elim
      | succ fuel =>
          have hchild := hint.childFor ht.before ht.behind
          rw [← ht.child_eq] at hchild
          rw [Admits, Reaches, hview page d hd, hint.laid.type, if_pos rfl, hint.cells, hchild] at hadmits
          have hchildNodup := (List.nodup_append.mp (nodup_rotate hnodup)).2.1
          rw [leaves_assoc] at hF hchildNodup
          rw [insertIntoPage, if_neg (by omega)]
          refine (getPage_owns hO hd).bind fun pg s₁ ⟨hdata, hO₁⟩ => ?_
          rw [hdata, hint.laid.type, if_neg interior_ne_leaf, if_pos rfl]
          refine (childFor_owns hO₁ hd hchild).bind fun c s₂ ⟨hc, hO₂⟩ => ?_
          rw [hc]
          have habsent' : ∀ c ∈ cellsOf t.leavesBelow, c.rowid ≠ rowid := fun c hc => habsent c (by
            simp only [cellsOf_append, List.mem_append]
            exact .inr (.inl hc))
          refine (ih hO₂ ht.below hF hchildNodup ht.low ht.high habsent' hadmits).bind
            fun r s₃ ⟨c, H₁, lc', ic', total₁, hrowid, hpayload, hins, hout, hge, hO₃⟩ => ?_
          have hwide := hins.spread.widen hnodup howned
          have hsame : ∀ q ∈ t.innerLeft ++ t.innerRight, H₁ q = H q := fun q hq =>
            hins.spread.same hnodup howned (List.mem_cons_of_mem _ hq)
          have hd₁ : H₁ page = some d := by
            rw [hins.spread.same hnodup howned List.mem_cons_self]
            exact hd
          have hcells : ∃ pre post, cellsOf (t.leavesLeft ++ (t.leavesBelow ++ t.leavesRight)) = pre ++ post ∧
              cellsOf (t.leavesLeft ++ (lc' ++ t.leavesRight)) = pre ++ c :: post := by
            obtain ⟨pre, post, hpre, hpost⟩ := hins.cells
            exact ⟨cellsOf t.leavesLeft ++ pre, post ++ cellsOf t.leavesRight, by simp [hpre],
              by simp [hpost]⟩
          cases r with
          | Done =>
              exact .pure ⟨c, H₁, _, _, total₁, hrowid, hpayload, ⟨hwide, hcells⟩,
                ⟨d, _, t.right, _, hd₁, hint, rfl, ht.increasing, ht.keys, ht.kids_keep hsame hout⟩, hge, hO₃⟩
          | Split k n =>
              obtain ⟨la, lb, ia, ib, rfl, rfl, hsubl, hsubr, hn, hlk, hkh, hnew, hmore⟩ := hout
              have hkids := ht.kids_add hsame hsubl hsubr
              obtain ⟨hsorted, hkeys⟩ := ht.increasing_relink hlk hkh hnew
              refine (addChild_owns hO₃ hd₁ hint (ht.increasing_add hlk hkh hnew).1 ht.child_lt hn (by omega)).mono
                fun r s₄ hr => ?_
              rcases hr with ⟨rfl, d', hint', hO₄⟩ | hhalf
              · obtain ⟨hspread, hsub'⟩ := hwide.direct List.mem_cons_self hkids hsorted hkeys hint'
                exact ⟨c, _, _, _, total₁, hrowid, hpayload, ⟨hspread, hcells⟩, hsub', hge, hO₄⟩
              · obtain ⟨H', inner', total₂, hspread, hout, hle, hO₄⟩ :=
                  hwide.halved keys above List.mem_cons_self hkids hsorted hkeys hd₁ (by omega) hhalf
                exact ⟨c, H', _, inner', total₂, hrowid, hpayload, ⟨hspread, hcells⟩, hout, by omega, hO₄⟩

end Page

section Refused

variable [Lz4Flex] {H : Heap} {total page leaf depth fuel above : Nat} {s : Pager} {rowid : Int64}
  {payload : List UInt8} {view : Nat → PageData} {keys : List Int64} {e : Fault} {Q : Pager → Prop}

theorem insertIntoPage_descends_fails (hO : Owns H total s) (hview : ∀ p d, H p = some d → view p = d)
    (hroute : Route H rowid depth page leaf) (hshort : payload.length ≤ U32_MAX)
    (hadmits : Admits view total rowid payload fuel above keys page)
    (hleaf : ∀ fuel' above' keys' s', Owns H total s' →
      Admits view total rowid payload (fuel' + 1) above' keys' leaf →
      Raises (insertIntoPage rowid payload (fuel' + 1) leaf) s' e Q) :
    Raises (insertIntoPage rowid payload fuel page) s e Q := by
  induction depth generalizing page fuel above keys s with
  | zero =>
      cases fuel with
      | zero => exact hadmits.elim
      | succ fuel =>
          rw [show page = leaf from hroute] at hadmits ⊢
          exact hleaf fuel above keys s hO hadmits
  | succ depth ih =>
      cases fuel with
      | zero => exact hadmits.elim
      | succ fuel =>
          obtain ⟨d, child, hd, htype, hchild, hrest⟩ := hroute
          rw [Admits, Reaches, hview page d hd, htype, if_pos rfl, hchild] at hadmits
          rw [insertIntoPage, if_neg (by omega)]
          refine (getPage_owns hO hd).bind_raises fun pg s₁ ⟨hdata, hO₁⟩ => ?_
          rw [hdata, htype, if_neg interior_ne_leaf, if_pos rfl]
          refine (childFor_owns hO₁ hd hchild).bind_raises fun c s₂ ⟨hc, hO₂⟩ => ?_
          rw [hc]
          cases hcells : interiorCells d with
          | error e => simp only [hcells] at hadmits
          | ok cells =>
              simp only [hcells] at hadmits
              exact (ih hO₂ hrest hadmits).bind

end Refused

end BTree

end Kkdb
