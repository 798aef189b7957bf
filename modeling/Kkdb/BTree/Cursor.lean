import Kkdb.BTree.Order

namespace Kkdb

open Lib

namespace BTree

-- The stack holds the pages from the leaf up to the root, each with a place on it.
structure Cursor where
  stack : List (Nat × Nat)
  endOfTable : Bool

namespace Cursor

section Calls

variable [Lz4Flex]

def firstChild (data : PageData) : Res Nat :=
  if cellCount data = 0 then .ok (rightChild data)
  else do
    let off ← cellOffset INTERIOR_HEADER_SIZE none data 0
    readU32 data off

def moveToLeftmost : Nat → List (Nat × Nat) → Nat → PagerM (List (Nat × Nat))
  | 0, _, _ => throw .Hang
  | fuel + 1, stack, page => do
      let pg ← Pager.getPage page
      if pageType pg.data = LEAF_TABLE then return (page, 0) :: stack
      else if pageType pg.data = INTERIOR_TABLE then do
        let child ← ofRes (firstChild pg.data)
        moveToLeftmost fuel ((page, 0) :: stack) child
      else throw (.Err (.BTreeError ("invalid page type " ++ hexByte (pageType pg.data))))

def tableStart (root : Nat) : PagerM Cursor := do
  let fuel ← depthLimit
  let stack ← moveToLeftmost fuel [] root
  match stack with
  | (page, _) :: _ => do
      let pg ← Pager.getPage page
      return { stack := stack, endOfTable := cellCount pg.data = 0 }
  | [] => return { stack := stack, endOfTable := false }

-- A cell that reaches beyond its page panics here; the reader of the tree reports it.
def readCellPayload (rawSize start : Nat) (data : PageData) : PagerM (List UInt8) :=
  if rawSize < OVERFLOW_FLAG then
    if PAGE_SIZE < start + rawSize then throw .Panic else return data.slice start rawSize
  else if PAGE_SIZE < start + 8 + (rawSize - OVERFLOW_FLAG) then throw .Panic
  else
    readChain (data.u32 start) (data.u32 start) (data.u32 (start + 4))
      (data.slice (start + 8) (rawSize - OVERFLOW_FLAG))

-- The row at a place of a leaf, whether or not the leaf counts a cell there.
def readAt (page idx : Nat) : PagerM (Int64 × Row) := do
  let pg ← Pager.getPage page
  let off ← ofRes (cellOffset LEAF_HEADER_SIZE none pg.data idx)
  let rawSize ← ofRes (readU32 pg.data off)
  let rowid ← ofRes (readRowid pg.data (off + 4))
  let pg ← Pager.getPage page
  let payload ← readCellPayload rawSize (off + 12) pg.data
  let row ← ofRes (deserializeRow payload)
  return (rowid, row)

def current (c : Cursor) : PagerM (Int64 × Row) :=
  if c.endOfTable then throw (.Err (.BTreeError "cursor past end of table"))
  else
    match c.stack with
    | [] => throw (.Err (.BTreeError "empty cursor stack"))
    | (page, idx) :: _ => readAt page idx

def childAfter (data : PageData) (idx : Nat) : Res (Option Nat) :=
  if idx < cellCount data then
    if idx + 1 < cellCount data then do
      let off ← cellOffset INTERIOR_HEADER_SIZE none data (idx + 1)
      let child ← readU32 data off
      return some child
    else return some (rightChild data)
  else return none

-- Up to the first page with a child behind, and down to its first leaf.
def ascend (fuel : Nat) : List (Nat × Nat) → PagerM Cursor
  | [] => return { stack := [], endOfTable := true }
  | (parent, idx) :: stack => do
      let pg ← Pager.getPage parent
      match ← ofRes (childAfter pg.data idx) with
      | some child => do
          let stack ← moveToLeftmost fuel ((parent, idx + 1) :: stack) child
          return { stack := stack, endOfTable := false }
      | none => ascend fuel stack

def advance (c : Cursor) : PagerM Cursor :=
  if c.endOfTable then return c
  else
    match c.stack with
    | [] => throw (.Err (.BTreeError "empty cursor stack"))
    | (page, idx) :: stack => do
        let pg ← Pager.getPage page
        if idx + 1 < cellCount pg.data then return { c with stack := (page, idx + 1) :: stack }
        else do
          let fuel ← depthLimit
          ascend fuel stack

def collect : Nat → Cursor → List (Int64 × Row) → PagerM (List (Int64 × Row))
  | 0, _, _ => throw .Hang
  | fuel + 1, c, acc =>
      if c.endOfTable then return acc
      else do
        let row ← c.current
        let c ← c.advance
        collect fuel c (acc ++ [row])

-- No page holds as many rows as it has bytes.
def rows (root : Nat) : PagerM (List (Int64 × Row)) := do
  let c ← tableStart root
  let s ← get
  collect ((s.header.totalPages + 1) * PAGE_SIZE + 1) c []

end Calls

end Cursor

section Stack

variable {H : Heap} {bound idx : Nat} {d : PageData}

-- The leaves that the interior pages on the stack still lead to.
def Ahead (H : Heap) (bound : Nat) : List (Nat × Nat) → List Leaf → Prop
  | [], leaves => leaves = []
  | (page, idx) :: stack, leaves => ∃ d entries right depth lo hi here inner above, H page = some d ∧
      InteriorAt d entries right ∧ depth < bound ∧ leaves = here ++ above ∧
      Kids (Sub H depth) lo ((items entries right hi).drop (idx + 1)) here inner ∧ Ahead H bound stack above

theorem firstChild_interior {entries : List (Nat × Int64)} {right : Nat} (h : InteriorAt d entries right)
    (hi : Int) : ∃ child b rest, items entries right hi = (child, b) :: rest ∧
      Cursor.firstChild d = .ok child := by
  have hcount := h.count
  unfold Cursor.firstChild
  cases entries with
  | nil =>
      have hright : rightChild d = right := h.link
      have hzero : cellCount d = 0 := hcount
      exact ⟨right, hi, [], rfl, by rw [if_pos hzero, hright]⟩
  | cons e entries =>
      obtain ⟨off, hoff, hchild, -⟩ := h.cell (i := 0) none rfl no_needed
      refine ⟨e.1, e.2.toInt, items entries right hi, rfl, ?_⟩
      rw [if_neg (by rw [hcount, List.length_cons]; omega), hoff]
      exact hchild

theorem childAfter_interior {entries : List (Nat × Int64)} {right : Nat} (h : InteriorAt d entries right)
    (hi : Int) (idx : Nat) :
    ((items entries right hi).drop (idx + 1) = [] ∧ Cursor.childAfter d idx = .ok none) ∨
      ∃ child b rest, (items entries right hi).drop (idx + 1) = (child, b) :: rest ∧
        (items entries right hi).drop (idx + 1 + 1) = rest ∧ Cursor.childAfter d idx = .ok (some child) := by
  have hcount := h.count
  have hlen : (items entries right hi).length = entries.length + 1 := by simp [items]
  unfold Cursor.childAfter
  by_cases hidx : idx < entries.length
  · right
    rw [hcount, if_pos hidx, List.drop_eq_getElem_cons (by omega)]
    refine ⟨_, _, _, rfl, rfl, ?_⟩
    by_cases hnext : idx + 1 < entries.length
    · obtain ⟨off, hoff, hchild, -⟩ := h.cell none (List.getElem?_eq_getElem hnext) no_needed
      simp only [if_pos hnext, hoff, hchild, bind, Except.bind]
      simp [items, hnext, pure, Except.pure]
    · have hright : rightChild d = right := h.link
      have hend : idx + 1 = entries.length := by omega
      rw [if_neg hnext, hright]
      simp [items, hend, pure, Except.pure]
  · left
    rw [hcount, if_neg hidx]
    exact ⟨List.drop_eq_nil_of_le (by omega), rfl⟩

end Stack

section Spec

variable [Lz4Flex] {H : Heap} {total depth fuel bound page idx : Nat} {lo hi : Int} {leaves after : List Leaf}
  {inner : List Nat} {stack : List (Nat × Nat)} {s : Pager} {d : PageData}

theorem moveToLeftmost_owns (hO : Owns H total s) (h : Sub H depth page lo hi leaves inner)
    (hleaf : ∀ l ∈ leaves, ∃ d lo next prev, H l.page = some d ∧ LeafAt d l.cells lo next prev)
    (hfuel : depth < fuel) (hbound : depth ≤ bound) (hstack : Ahead H bound stack after) :
    Yields (Cursor.moveToLeftmost fuel stack page) s fun r s' => Owns H total s' ∧
      ∃ l ls stack', leaves = l :: ls ∧ r = (l.page, 0) :: stack' ∧ Ahead H bound stack' (ls ++ after) := by
  induction depth generalizing page lo hi leaves inner fuel s stack after with
  | zero =>
      obtain ⟨cells, rfl, -, -⟩ := h
      obtain ⟨d, _, _, _, hd, hat⟩ := hleaf ⟨page, cells⟩ List.mem_cons_self
      obtain ⟨fuel, rfl⟩ : ∃ n, fuel = n + 1 := ⟨fuel - 1, by omega⟩
      rw [Cursor.moveToLeftmost]
      refine (getPage_owns hO hd).bind fun pg s₁ ⟨hdata, hO₁⟩ => ?_
      rw [hdata, hat.laid.type, if_pos rfl]
      exact .pure ⟨hO₁, _, [], stack, rfl, rfl, hstack⟩
  | succ depth ih =>
      obtain ⟨d, entries, right, below, hd, hint, -, -, -, hkids⟩ := h
      obtain ⟨fuel, rfl⟩ : ∃ n, fuel = n + 1 := ⟨fuel - 1, by omega⟩
      obtain ⟨child, b, rest, hitems, hchild⟩ := firstChild_interior hint hi
      rw [Cursor.moveToLeftmost]
      refine (getPage_owns hO hd).bind fun pg s₁ ⟨hdata, hO₁⟩ => ?_
      rw [hdata, hint.laid.type, if_neg interior_ne_leaf, if_pos rfl, hchild]
      simp only [ofRes, pure_bind]
      have hsplit := hkids
      rw [hitems] at hsplit
      obtain ⟨l₁, l₂, i₁, i₂, rfl, -, hsub, hrest⟩ := hsplit
      have hpush : Ahead H bound ((page, 0) :: stack) (l₂ ++ after) :=
        ⟨d, entries, right, depth, b, hi, l₂, i₂, after, hd, hint, by omega, rfl, by rw [hitems]; exact hrest,
          hstack⟩
      refine (ih hO₁ hsub (fun x hx => hleaf x (List.mem_append_left _ hx)) (by omega) (by omega) hpush).mono
        fun r s₂ hstep => ?_
      obtain ⟨hO₂, l, ls, stack', rfl, hr, hahead⟩ := hstep
      refine ⟨hO₂, l, ls ++ l₂, stack', rfl, hr, ?_⟩
      rw [List.append_assoc]
      exact hahead

-- Past the last row of a leaf the cursor stands on the next leaf, whether or not it has rows.
theorem ascend_owns (hO : Owns H total s) (hstack : Ahead H fuel stack leaves)
    (hleaf : ∀ l ∈ leaves, ∃ d lo next prev, H l.page = some d ∧ LeafAt d l.cells lo next prev) :
    Yields (Cursor.ascend fuel stack) s fun c s' => Owns H total s' ∧
      ((leaves = [] ∧ c.endOfTable = true) ∨ ∃ l ls stack', leaves = l :: ls ∧
        c = { stack := (l.page, 0) :: stack', endOfTable := false } ∧ Ahead H fuel stack' ls) := by
  induction stack generalizing leaves s with
  | nil => exact .pure ⟨hO, .inl ⟨hstack, rfl⟩⟩
  | cons frame stack ih =>
      obtain ⟨page, idx⟩ := frame
      obtain ⟨d, entries, right, depth, lo, hi, here, inner, above, hd, hint, hdepth, rfl, hkids,
          habove⟩ := hstack
      rw [Cursor.ascend]
      refine (getPage_owns hO hd).bind fun pg s₁ ⟨hdata, hO₁⟩ => ?_
      rw [hdata]
      rcases childAfter_interior hint hi idx with ⟨hnil, hafter⟩ | ⟨child, b, rest, hcons, hrest, hafter⟩
      · rw [hafter]
        simp only [ofRes, pure_bind]
        rw [hnil] at hkids
        obtain ⟨rfl, -⟩ := hkids
        exact ih hO₁ habove hleaf
      · rw [hafter]
        simp only [ofRes, pure_bind]
        rw [hcons] at hkids
        obtain ⟨l₁, l₂, i₁, i₂, rfl, -, hsub, hmore⟩ := hkids
        have hpush : Ahead H fuel ((page, idx + 1) :: stack) (l₂ ++ above) :=
          ⟨d, entries, right, depth, b, hi, l₂, i₂, above, hd, hint, hdepth, rfl, by rw [hrest]; exact hmore,
            habove⟩
        have hbelow : ∀ x ∈ l₁, ∃ d lo next prev, H x.page = some d ∧ LeafAt d x.cells lo next prev :=
            fun x hx =>
          hleaf x (List.mem_append_left _ (List.mem_append_left _ hx))
        refine (moveToLeftmost_owns hO₁ hsub hbelow hdepth (by omega) hpush).bind fun r s₂ hstep => ?_
        obtain ⟨hO₂, l, ls, stack', rfl, rfl, hahead⟩ := hstep
        refine .pure ⟨hO₂, .inr ⟨l, ls ++ (l₂ ++ above), stack', ?_, rfl, hahead⟩⟩
        rw [List.append_assoc, List.cons_append]

-- A table whose leaves all have rows, or have none.
def Even (t : Table) : Prop :=
  match leavesInOrder (view t.pager) (t.pager.header.totalPages + 1) t.root with
  | some pages => (∀ p ∈ pages, cellCount (view t.pager p) = 0) ∨ ∀ p ∈ pages, cellCount (view t.pager p) ≠ 0
  | none => False

end Spec

end BTree

end Kkdb
