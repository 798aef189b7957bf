import Kkdb.BTree.Search

namespace Kkdb

open Lib

namespace BTree

def Cell.row (c : Cell) : Row :=
  match deserializeRow c.payload with
  | .ok row => row
  | .error _ => []

def Cell.Whole (c : Cell) : Prop := deserializeRow c.payload = .ok c.row

theorem Cell.whole_of_ok {c : Cell} {row : Row} (h : deserializeRow c.payload = .ok row) :
    c.Whole ∧ c.row = row := by
  have hrow : c.row = row := by rw [Cell.row, h]
  exact ⟨by rw [Cell.Whole, h, hrow], hrow⟩

section Edges

variable {H : Heap} {depth page : Nat} {lo hi : Int} {leaves : List Leaf} {inner : List Nat}

theorem Sub.first (h : Sub H depth page lo hi leaves inner) : ∃ l ls, leaves = l :: ls := by
  induction depth generalizing page lo hi leaves inner with
  | zero =>
      obtain ⟨cells, rfl, -, -⟩ := h
      exact ⟨_, [], rfl⟩
  | succ depth ih =>
      obtain ⟨d, entries, right, below, -, -, -, -, -, hkids⟩ := h
      cases entries with
      | nil =>
          obtain ⟨l₁, l₂, i₁, i₂, rfl, -, hchild, -⟩ := hkids
          obtain ⟨l, ls, rfl⟩ := ih hchild
          exact ⟨l, ls ++ l₂, rfl⟩
      | cons e entries =>
          obtain ⟨l₁, l₂, i₁, i₂, rfl, -, hchild, -⟩ := hkids
          obtain ⟨l, ls, rfl⟩ := ih hchild
          exact ⟨l, ls ++ l₂, rfl⟩

end Edges

section Descend

variable [Lz4Flex] {H : Heap} {total depth fuel page : Nat} {lo hi : Int} {leaves : List Leaf}
  {inner : List Nat} {s : Pager}

theorem findLeftmost_owns (hO : Owns H total s) (h : Sub H depth page lo hi leaves inner)
    (hleaf : ∀ l ∈ leaves, ∃ d lo next prev, H l.page = some d ∧ LeafAt d l.cells lo next prev)
    (hfuel : depth < fuel) :
    Yields (findLeftmost fuel page) s fun r s' => r = headPage leaves 0 ∧ Owns H total s' := by
  induction depth generalizing page lo hi leaves inner fuel s with
  | zero =>
      obtain ⟨cells, rfl, -, -⟩ := h
      obtain ⟨d, _, _, _, hd, hat⟩ := hleaf ⟨page, cells⟩ List.mem_cons_self
      obtain ⟨fuel, rfl⟩ : ∃ n, fuel = n + 1 := ⟨fuel - 1, by omega⟩
      rw [findLeftmost]
      refine (getPage_owns hO hd).bind fun pg s₁ ⟨hdata, hO₁⟩ => ?_
      rw [hdata, hat.laid.type, if_pos rfl]
      exact .pure ⟨rfl, hO₁⟩
  | succ depth ih =>
      obtain ⟨d, entries, right, below, hd, hint, -, -, -, hkids⟩ := h
      obtain ⟨fuel, rfl⟩ : ∃ n, fuel = n + 1 := ⟨fuel - 1, by omega⟩
      rw [findLeftmost]
      refine (getPage_owns hO hd).bind fun pg s₁ ⟨hdata, hO₁⟩ => ?_
      rw [hdata, hint.laid.type, if_neg interior_ne_leaf]
      -- the first child, which is the right one on a page without cells
      have hfirst : ∀ {child b rest}, items entries right hi = (child, b) :: rest →
          Yields (findLeftmost fuel child) s₁ fun r s' => r = headPage leaves 0 ∧ Owns H total s' := by
        intro child b rest hitems
        rw [hitems] at hkids
        obtain ⟨l₁, l₂, i₁, i₂, rfl, -, hchild, -⟩ := hkids
        obtain ⟨l, ls, rfl⟩ := hchild.first
        have hless : depth < fuel := by omega
        have hrun := ih hO₁ hchild (fun x hx => hleaf x (List.mem_append_left _ hx)) hless
        exact hrun
      cases entries with
      | nil =>
          have hcount : cellCount d = 0 := hint.count
          have hright : rightChild d = right := hint.link
          rw [if_neg (by omega), hright]
          exact hfirst rfl
      | cons e entries =>
          have hcount : cellCount d = entries.length + 1 := hint.count
          obtain ⟨off, hoff, hchild, -⟩ := hint.cell (i := 0) (some 4) rfl (by simp)
          rw [if_pos (by omega), hoff]
          simp only [ofRes, pure_bind, hchild]
          exact hfirst rfl

theorem findRightmost_owns (hO : Owns H total s) (h : Sub H depth page lo hi leaves inner)
    (hleaf : ∀ l ∈ leaves, ∃ d lo next prev, H l.page = some d ∧ LeafAt d l.cells lo next prev)
    (hfuel : depth < fuel) :
    Yields (findRightmost fuel page) s fun r s' => r = lastPage 0 leaves ∧ Owns H total s' := by
  induction depth generalizing page lo hi leaves inner fuel s with
  | zero =>
      obtain ⟨cells, rfl, -, -⟩ := h
      obtain ⟨d, _, _, _, hd, hat⟩ := hleaf ⟨page, cells⟩ List.mem_cons_self
      obtain ⟨fuel, rfl⟩ : ∃ n, fuel = n + 1 := ⟨fuel - 1, by omega⟩
      rw [findRightmost]
      refine (getPage_owns hO hd).bind fun pg s₁ ⟨hdata, hO₁⟩ => ?_
      rw [hdata, hat.laid.type, if_pos rfl]
      exact .pure ⟨rfl, hO₁⟩
  | succ depth ih =>
      obtain ⟨d, entries, right, below, hd, hint, -, -, -, hkids⟩ := h
      obtain ⟨fuel, rfl⟩ : ∃ n, fuel = n + 1 := ⟨fuel - 1, by omega⟩
      rw [findRightmost]
      refine (getPage_owns hO hd).bind fun pg s₁ ⟨hdata, hO₁⟩ => ?_
      have hright : rightChild d = right := hint.link
      rw [hdata, hint.laid.type, if_neg interior_ne_leaf, if_pos rfl, hright]
      rw [items, kids_append] at hkids
      obtain ⟨l₁, l₂, i₁, i₂, rfl, -, -, ⟨l₃, l₄, i₃, i₄, rfl, -, hchild, rfl, -⟩⟩ := hkids
      rw [List.append_nil] at hleaf ⊢
      obtain ⟨l, ls, rfl⟩ := hchild.first
      refine (ih hO₁ hchild (fun x hx => hleaf x (List.mem_append_right _ hx)) (by omega)).mono
        fun r s' hr => ?_
      rw [lastPage_append]
      exact hr

theorem count_owns (hO : Owns H total s) (h : Sub H depth page lo hi leaves inner)
    (hleaf : ∀ l ∈ leaves, ∃ d lo next prev, H l.page = some d ∧ LeafAt d l.cells lo next prev)
    (hfuel : depth < fuel) :
    Yields (count fuel page) s fun r s' => r = (cellsOf leaves).length ∧ Owns H total s' := by
  induction depth generalizing page lo hi leaves inner fuel s with
  | zero =>
      obtain ⟨cells, rfl, -, -⟩ := h
      obtain ⟨d, _, _, _, hd, hat⟩ := hleaf ⟨page, cells⟩ List.mem_cons_self
      obtain ⟨fuel, rfl⟩ : ∃ n, fuel = n + 1 := ⟨fuel - 1, by omega⟩
      rw [count]
      refine (getPage_owns hO hd).bind fun pg s₁ hstep => ?_
      obtain ⟨hdata, hO₁⟩ := hstep
      rw [hdata, hat.laid.type, if_pos rfl, hat.count]
      exact .pure ⟨by simp, hO₁⟩
  | succ depth ih =>
      obtain ⟨d, entries, right, below, hd, hint, -, -, -, hkids⟩ := h
      obtain ⟨fuel, rfl⟩ : ∃ n, fuel = n + 1 := ⟨fuel - 1, by omega⟩
      rw [count]
      refine (getPage_owns hO hd).bind fun pg s₁ hstep => ?_
      obtain ⟨hdata, hO₁⟩ := hstep
      rw [hdata, hint.laid.type, if_neg interior_ne_leaf, if_pos rfl, hint.childPages]
      simp only [ofRes, pure_bind]
      have hall : ∀ (xs : List (Nat × Int)) (lo : Int) (leaves : List Leaf) (inner : List Nat) (s : Pager),
          Owns H total s → Kids (Sub H depth) lo xs leaves inner →
          (∀ l ∈ leaves, ∃ d lo next prev, H l.page = some d ∧ LeafAt d l.cells lo next prev) →
          Yields ((xs.map Prod.fst).mapM (count fuel)) s fun r s' =>
            r.sum = (cellsOf leaves).length ∧ Owns H total s' := by
        intro xs
        induction xs with
        | nil =>
            rintro lo leaves inner s hO ⟨rfl, -⟩ -
            exact .pure ⟨rfl, hO⟩
        | cons x xs ihx =>
            rintro lo leaves inner s hO ⟨l₁, l₂, i₁, i₂, rfl, rfl, hchild, hrest⟩ hleaf
            rw [List.map_cons, List.mapM_cons]
            refine (ih hO hchild (fun l hl => hleaf l (List.mem_append_left _ hl)) (by omega)).bind
              fun n s₂ hstep => ?_
            obtain ⟨hn, hO₂⟩ := hstep
            refine (ihx _ _ _ _ hO₂ hrest fun l hl => hleaf l (List.mem_append_right _ hl)).bind
              fun ns s₃ hstep => ?_
            obtain ⟨hns, hO₃⟩ := hstep
            refine .pure ⟨?_, hO₃⟩
            rw [List.sum_cons, hn, hns, cellsOf_append, List.length_append]
      have hmap : entries.map Prod.fst ++ [right] = (items entries right hi).map Prod.fst := by
        rw [items, List.map_append, List.map_map]
        rfl
      rw [hmap]
      refine (hall _ _ _ _ _ hO₁ hkids hleaf).bind fun ns s₂ hstep => ?_
      obtain ⟨hns, hO₂⟩ := hstep
      exact .pure ⟨hns, hO₂⟩

end Descend

section Visits

-- The leaves that a scan passes when it follows a link from leaf to leaf.
def Visits (H : Heap) (link : PageData → Nat) : Nat → List Leaf → Prop
  | cur, [] => cur = 0
  | cur, l :: ls => cur = l.page ∧ l.page ≠ 0 ∧ ∃ d lo next prev, H l.page = some d ∧
      LeafAt d l.cells lo next prev ∧ Visits H link (link d) ls

variable {H : Heap} {prev after : Nat} {leaves : List Leaf}

theorem LeavesAt.visits (h : LeavesAt H prev leaves 0) (hpos : ∀ q d, H q = some d → q ≠ 0) :
    Visits H nextLeaf (headPage leaves 0) leaves := by
  induction leaves generalizing prev with
  | nil => rfl
  | cons l ls ih =>
      obtain ⟨⟨d, lo, hd, hleaf⟩, hrest⟩ := h
      refine ⟨rfl, hpos _ _ hd, d, lo, _, _, hd, hleaf, ?_⟩
      rw [hleaf.next]
      exact ih hrest

theorem LeavesAt.visits_reverse (h : LeavesAt H 0 leaves after) (hpos : ∀ q d, H q = some d → q ≠ 0) :
    Visits H prevLeaf (lastPage 0 leaves) leaves.reverse := by
  induction leaves using List.reverseRecOn generalizing after with
  | nil => rfl
  | append_singleton ls l ih =>
      obtain ⟨hinit, ⟨d, lo, hd, hleaf⟩, -⟩ := leavesAt_append.mp h
      rw [List.reverse_append, List.reverse_singleton, List.singleton_append, lastPage_append]
      refine ⟨rfl, hpos _ _ hd, d, lo, _, _, hd, hleaf, ?_⟩
      rw [hleaf.prev]
      exact ih hinit

end Visits

section Limit

variable {α : Type} {limit : Option Nat} {xs ys : List α}

def capped (limit : Option Nat) (xs : List α) : List α :=
  match limit with
  | none => xs
  | some n => xs.take n

def Within (limit : Option Nat) (xs : List α) : Prop := ∀ n, limit = some n → xs.length ≤ n

theorem capped_within (h : Within limit xs) : capped limit xs = xs := by
  cases limit with
  | none => rfl
  | some n => exact List.take_of_length_le (h n rfl)

theorem capped_reached (h : Within limit xs) (hr : reached limit xs = true) :
    capped limit (xs ++ ys) = xs := by
  cases limit with
  | none => cases hr
  | some n =>
      have hge : n ≤ xs.length := of_decide_eq_true hr
      have hlen : xs.length = n := Nat.le_antisymm (h n rfl) hge
      exact List.take_left' hlen

theorem within_push {x : α} (h : Within limit xs) (hr : reached limit xs = false) :
    Within limit (xs ++ [x]) := by
  rintro n rfl
  have := of_decide_eq_false hr
  rw [List.length_append, List.length_singleton]
  omega

end Limit

theorem map_range_getElem? (cells : List Cell) :
    (List.range cells.length).map (fun i => cells[i]?) = cells.map some := by
  refine List.ext_getElem? fun i => ?_
  by_cases hi : i < cells.length <;> simp [hi]

section Scan

variable [Lz4Flex] {α : Type} {H : Heap} {total : Nat} {entry : PageData → Nat → PagerM α} {f : Cell → α}
  {places : Nat → List Nat} {link : PageData → Nat} {limit : Option Nat}

def Reads (H : Heap) (total : Nat) (entry : PageData → Nat → PagerM α) (f : Cell → α) (c : Cell) : Prop :=
  ∀ d cells lo next prev i s, LeafAt d cells lo next prev → cells[i]? = some c → Owns H total s →
    Yields (entry d i) s fun e s' => e = f c ∧ Owns H total s'

theorem scanCells_owns {d : PageData} {cells : List Cell} {lo next prev : Nat} {s : Pager} {is : List Nat}
    {cs : List Cell} {acc : List α} (hO : Owns H total s) (h : LeafAt d cells lo next prev)
    (hreads : ∀ c ∈ cs, Reads H total entry f c) (hcs : is.map (fun i => cells[i]?) = cs.map some)
    (hacc : Within limit acc) :
    Yields (scanCells entry limit d is acc) s fun r s' => Owns H total s' ∧
      (r.1 = false → r.2 = acc ++ cs.map f ∧ Within limit r.2) ∧
      (r.1 = true → ∀ more, capped limit (acc ++ (cs.map f ++ more)) = r.2) := by
  induction cs generalizing is acc s with
  | nil =>
      obtain rfl : is = [] := List.map_eq_nil_iff.mp hcs
      exact .pure ⟨hO, fun _ => ⟨by simp, hacc⟩, fun h => (by cases h)⟩
  | cons c cs ih =>
      cases is with
      | nil => cases hcs
      | cons i is =>
          rw [List.map_cons, List.map_cons, List.cons.injEq] at hcs
          rw [scanCells]
          cases hr : reached limit acc with
          | true =>
              exact .pure ⟨hO, fun h => (by cases h), fun _ more => capped_reached hacc hr⟩
          | false =>
              rw [if_neg Bool.false_ne_true]
              refine (hreads c List.mem_cons_self d cells lo next prev i s h hcs.1 hO).bind
                fun e s₁ ⟨he, hO₁⟩ => ?_
              refine (ih hO₁ (fun x hx => hreads x (List.mem_cons_of_mem _ hx)) hcs.2
                (within_push hacc hr)).mono fun r s₂ ⟨hO₂, hfalse, htrue⟩ =>
                  ⟨hO₂, fun hr => ?_, fun hr more => ?_⟩
              · obtain ⟨heq, hwithin⟩ := hfalse hr
                refine ⟨?_, hwithin⟩
                rw [heq, he, List.map_cons, List.append_assoc]
                rfl
              · have heq := htrue hr more
                rw [he, List.append_assoc] at heq
                exact heq

theorem scanFrom_owns (arrange : List Cell → List Cell) (limit : Option Nat) {leaves : List Leaf}
    {cur fuel : Nat} {acc : List α} {s : Pager} (hO : Owns H total s)
    (h : Visits H link cur leaves) (hfuel : leaves.length < fuel)
    (hplaces : ∀ cells : List Cell, (places cells.length).map (fun i => cells[i]?) = (arrange cells).map some)
    (hreads : ∀ l ∈ leaves, ∀ c ∈ arrange l.cells, Reads H total entry f c) (hacc : Within limit acc) :
    Yields (scanFrom entry places link limit fuel cur acc) s fun r s' =>
      r = capped limit (acc ++ (leaves.flatMap fun l => (arrange l.cells).map f)) ∧ Owns H total s' := by
  induction leaves generalizing cur fuel acc s with
  | nil =>
      obtain ⟨fuel, rfl⟩ : ∃ n, fuel = n + 1 := ⟨fuel - 1, by omega⟩
      rw [scanFrom, if_pos (show cur = 0 from h)]
      refine .pure ⟨?_, hO⟩
      rw [List.flatMap_nil, List.append_nil, capped_within hacc]
  | cons l ls ih =>
      obtain ⟨rfl, hpos, d, lo, next, prev, hd, hleaf, hrest⟩ := h
      rw [List.length_cons] at hfuel
      obtain ⟨fuel, rfl⟩ : ∃ n, fuel = n + 1 := ⟨fuel - 1, by omega⟩
      rw [scanFrom, if_neg hpos]
      refine (getPage_owns hO hd).bind fun pg s₁ ⟨hdata, hO₁⟩ => ?_
      rw [hdata, hleaf.count]
      refine (scanCells_owns hO₁ hleaf (hreads l List.mem_cons_self) (hplaces l.cells) hacc).bind
        fun r s₂ ⟨hO₂, hfalse, htrue⟩ => ?_
      obtain ⟨flag, acc'⟩ := r
      rw [List.flatMap_cons]
      cases flag with
      | true => exact .pure ⟨(htrue rfl _).symm, hO₂⟩
      | false =>
          obtain ⟨heq, hwithin⟩ := hfalse rfl
          simp only at heq hwithin
          refine (ih hO₂ hrest (by omega) (fun x hx => hreads x (List.mem_cons_of_mem _ hx)) hwithin).mono
            fun r s₃ ⟨hr, hO₃⟩ => ⟨?_, hO₃⟩
          rw [hr, heq, List.append_assoc]

end Scan

end BTree

end Kkdb
