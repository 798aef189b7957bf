import Kkdb.BTree.Cursor

namespace Kkdb

open Lib

namespace BTree

section Steps

variable [Lz4Flex] {H : Heap} {total page idx : Nat} {s s' : Pager} {d : PageData}

theorem ofRes_keeps {α : Type} (hO : Owns H total s) (r : Res α) : Owns H total (left (ofRes r) s) := by
  cases r with
  | ok a => exact hO
  | error e => exact hO

theorem readChain_keeps (hO : Owns H total s) (len fuel p : Nat) (acc : List UInt8) :
    Owns H total (left (readChain len fuel p acc) s) := by
  induction fuel generalizing p acc s with
  | zero => exact hO
  | succ fuel ih =>
      rw [readChain]
      split_ifs
      · exact hO
      · exact left_bind_inv (Owns H total) (getPage_keeps hO p) fun pg s' hO' => ih hO' _ _

theorem readCellPayload_keeps (hO : Owns H total s) (rawSize start : Nat) (data : PageData) :
    Owns H total (left (Cursor.readCellPayload rawSize start data) s) := by
  unfold Cursor.readCellPayload
  split_ifs
  · exact hO
  · exact hO
  · exact hO
  · exact readChain_keeps hO _ _ _ _

theorem readAt_keeps (hO : Owns H total s) (page idx : Nat) :
    Owns H total (left (Cursor.readAt page idx) s) := by
  refine left_bind_inv (Owns H total) (getPage_keeps hO page) fun pg s₁ hO₁ => ?_
  refine left_bind_inv (Owns H total) (ofRes_keeps hO₁ _) fun off s₂ hO₂ => ?_
  refine left_bind_inv (Owns H total) (ofRes_keeps hO₂ _) fun rawSize s₃ hO₃ => ?_
  refine left_bind_inv (Owns H total) (ofRes_keeps hO₃ _) fun rowid s₄ hO₄ => ?_
  refine left_bind_inv (Owns H total) (getPage_keeps hO₄ page) fun pg s₅ hO₅ => ?_
  refine left_bind_inv (Owns H total) (readCellPayload_keeps hO₅ _ _ _) fun payload s₆ hO₆ => ?_
  exact left_bind_inv (Owns H total) (ofRes_keeps hO₆ _) fun row s₇ hO₇ => hO₇

theorem readCellPayload_ok {rawSize start : Nat} {data : PageData} {payload : List UInt8}
    (h : readCellPayload rawSize start data s = .ok payload s') :
    Cursor.readCellPayload rawSize start data s = .ok payload s' := by
  unfold readCellPayload at h
  unfold Cursor.readCellPayload
  by_cases hinline : rawSize < OVERFLOW_FLAG
  · rw [if_pos hinline] at h ⊢
    split_ifs at h ⊢
    · cases h
    · exact h
  · rw [if_neg hinline] at h ⊢
    by_cases hheader : PAGE_SIZE < start + 8
    · rw [if_pos hheader] at h
      cases h
    · rw [if_neg hheader] at h
      split_ifs at h ⊢
      · cases h
      · exact h

theorem readAt_owns {cells : List Cell} {c : Cell} {lo next prev : Nat} (hO : Owns H total s)
    (hp : H page = some d) (h : LeafAt d cells lo next prev) (hget : cells[idx]? = some c)
    (hstored : c.Stored H) (hwhole : c.Whole) :
    Yields (Cursor.readAt page idx) s fun e s' => e = (c.rowid, c.row) ∧ Owns H total s' := by
  obtain ⟨off, hoff, hfit, hslice, hhead, hkey⟩ := h.cell none hget no_needed
  rw [Cursor.readAt]
  refine (getPage_owns hO hp).bind fun pg s₁ hpg => ?_
  obtain ⟨hdata, hO₁⟩ := hpg
  simp only [hdata, hoff, hhead, hkey, ofRes, pure_bind]
  refine (getPage_owns hO₁ hp).bind fun pg s₂ hpg => ?_
  obtain ⟨hdata, hO₂⟩ := hpg
  rw [hdata]
  obtain ⟨payload, s₃, hok, hpayload, hO₃⟩ := readCellPayload_owns hO₂ hstored hfit hslice
  have hread : Yields (Cursor.readCellPayload (cellHead c.bytes) (off + 12) d) s₂ fun payload s' =>
      payload = c.payload ∧ Owns H total s' := ⟨payload, s₃, readCellPayload_ok hok, hpayload, hO₃⟩
  refine hread.bind fun payload s₄ hrow => ?_
  obtain ⟨hpayload, hO₄⟩ := hrow
  rw [hpayload, hwhole]
  exact .pure ⟨rfl, hO₄⟩

end Steps

def OnPages (H : Heap) (leaves : List Leaf) : Prop :=
  ∀ l ∈ leaves, ∃ d lo next prev, H l.page = some d ∧ LeafAt d l.cells lo next prev

inductive Advanced (H : Heap) (total : Nat) (l : Leaf) (idx : Nat) (stack : List (Nat × Nat)) (ls : List Leaf) :
    Cursor → Prop where
  | within (h : idx + 1 < l.cells.length) :
      Advanced H total l idx stack ls { stack := (l.page, idx + 1) :: stack, endOfTable := false }
  | next (h : l.cells.length ≤ idx + 1) {l' : Leaf} {ls' : List Leaf} {stack' : List (Nat × Nat)}
        (hls : ls = l' :: ls')
      (hstack : Ahead H (total + 1) stack' ls') :
      Advanced H total l idx stack ls { stack := (l'.page, 0) :: stack', endOfTable := false }
  | ended (h : l.cells.length ≤ idx + 1) {c : Cursor} (hls : ls = []) (hend : c.endOfTable = true) :
      Advanced H total l idx stack ls c

section Stops

def stops (l : Leaf) : Nat := max 1 l.cells.length

def stopsOf (leaves : List Leaf) : Nat := (leaves.map stops).sum

theorem length_le_stopsOf (leaves : List Leaf) : (cellsOf leaves).length ≤ stopsOf leaves := by
  induction leaves with
  | nil => exact Nat.le_refl _
  | cons l leaves ih =>
      rw [cellsOf_cons, List.length_append, stopsOf, List.map_cons, List.sum_cons]
      have : l.cells.length ≤ stops l := Nat.le_max_right _ _
      unfold stopsOf at ih
      omega

-- A leaf without rows is one stop too many.
theorem length_lt_stopsOf {leaves : List Leaf} (h : ∃ l ∈ leaves, l.cells = []) :
    (cellsOf leaves).length < stopsOf leaves := by
  obtain ⟨l, hl, hnil⟩ := h
  obtain ⟨xs, ys, rfl⟩ := List.append_of_mem hl
  have hxs := length_le_stopsOf xs
  have hys := length_le_stopsOf ys
  have hstop : stops l = 1 := by rw [stops, hnil]; rfl
  unfold stopsOf at hxs hys ⊢
  rw [cellsOf_append, cellsOf_cons, hnil, List.map_append, List.map_cons, List.sum_append, List.sum_cons, hstop,
    List.length_append, List.nil_append]
  omega

theorem length_cellsOf_le {H : Heap} {leaves : List Leaf} (hleaf : OnPages H leaves) :
    (cellsOf leaves).length ≤ leaves.length * PAGE_SIZE := by
  induction leaves with
  | nil => exact Nat.zero_le _
  | cons l leaves ih =>
      obtain ⟨d, lo, next, prev, hd, hat⟩ := hleaf l List.mem_cons_self
      have harray := hat.laid.array
      have hlo := hat.laid.lo_le
      have hrest := ih fun x hx => hleaf x (List.mem_cons_of_mem _ hx)
      rw [List.length_map] at harray
      rw [cellsOf_cons, List.length_append, List.length_cons, Nat.succ_mul]
      omega

end Stops

theorem get_yields {s : Pager} : Yields (get : PagerM Pager) s fun a s' => a = s ∧ s' = s :=
    ⟨_, _, rfl, rfl, rfl⟩

section Run

variable [Lz4Flex] {H : Heap} {total idx : Nat} {s s' : Pager} {l : Leaf} {ls leaves : List Leaf}
  {stack : List (Nat × Nat)}

theorem advance_owns (idx : Nat) (hO : Owns H total s) (hleaf : OnPages H (l :: ls))
    (hstack : Ahead H (total + 1) stack ls) :
    Yields (Cursor.advance { stack := (l.page, idx) :: stack, endOfTable := false }) s fun c s' =>
      Owns H total s' ∧ Advanced H total l idx stack ls c := by
  obtain ⟨d, lo, next, prev, hd, hat⟩ := hleaf l List.mem_cons_self
  rw [Cursor.advance, if_neg Bool.false_ne_true]
  refine (getPage_owns hO hd).bind fun pg s₁ ⟨hdata, hO₁⟩ => ?_
  rw [hdata, hat.count]
  by_cases hin : idx + 1 < l.cells.length
  · rw [if_pos hin]
    exact .pure ⟨hO₁, .within hin⟩
  · rw [if_neg hin]
    refine depthLimit_yields.bind fun fuel s₂ hstep => ?_
    obtain ⟨rfl, rfl⟩ := hstep
    rw [hO₁.total]
    refine (ascend_owns hO₁ hstack fun x hx => hleaf x (List.mem_cons_of_mem _ hx)).mono fun c s₂ hstep => ?_
    obtain ⟨hO₂, ⟨hnil, hend⟩ | ⟨l', ls', stack', hls, rfl, hahead⟩⟩ := hstep
    · exact ⟨hO₂, .ended (by omega) hnil hend⟩
    · exact ⟨hO₂, .next (by omega) hls hahead⟩

-- Whatever is read on the way, a run to the end of the table stops once at every row and
-- once at every empty leaf.
theorem collect_length {fuel : Nat} {acc entries : List (Int64 × Row)} (hO : Owns H total s)
    (hleaf : OnPages H (l :: ls)) (hstack : Ahead H (total + 1) stack ls)
    (hidx : idx = 0 ∨ idx < l.cells.length)
    (h : Cursor.collect fuel { stack := (l.page, idx) :: stack, endOfTable := false } acc s = .ok entries s') :
    entries.length = acc.length + (stops l - idx) + stopsOf ls := by
  induction fuel generalizing l ls stack idx acc s with
  | zero => cases h
  | succ fuel ih =>
      rw [Cursor.collect, if_neg Bool.false_ne_true] at h
      obtain ⟨row, s₁, hrow, h⟩ := ok_of_bind_state h
      have hread : Cursor.readAt l.page idx s = .ok row s₁ := hrow
      have hO₁ := readAt_keeps hO l.page idx
      rw [left_ok hread] at hO₁
      obtain ⟨c, s₂, hadvance, hO₂, hnext⟩ := advance_owns idx hO₁ hleaf hstack
      rw [bind_ok hadvance] at h
      have hmax : stops l = max 1 l.cells.length := rfl
      cases hnext with
      | within hin =>
          have hlen := ih hO₂ hleaf hstack (.inr hin) h
          rw [List.length_append, List.length_singleton] at hlen
          omega
      | next hout hls hahead =>
          subst hls
          have hlen := ih hO₂ (fun x hx => hleaf x (List.mem_cons_of_mem _ hx)) hahead (.inl rfl) h
          rw [List.length_append, List.length_singleton] at hlen
          rw [stopsOf, List.map_cons, List.sum_cons]
          unfold stopsOf at hlen
          omega
      | ended hout hls hend =>
          subst hls
          cases fuel with
          | zero => cases h
          | succ fuel =>
              rw [Cursor.collect, if_pos hend] at h
              obtain ⟨rfl, -⟩ := EStateM.Result.ok.inj h
              rw [List.length_append, List.length_singleton, stopsOf, List.map_nil, List.sum_nil]
              omega

def entryOf (c : Cell) : Int64 × Row := (c.rowid, c.row)

theorem collect_owns {fuel : Nat} {acc : List (Int64 × Row)} (hO : Owns H total s) (hleaf : OnPages H (l :: ls))
    (hstack : Ahead H (total + 1) stack ls) (hidx : idx < l.cells.length) (hrows : ∀ x ∈ ls, x.cells ≠ [])
    (hcells : ∀ c ∈ cellsOf (l :: ls), c.Stored H ∧ c.Whole)
    (hfuel : l.cells.length - idx + (cellsOf ls).length < fuel) :
    Yields (Cursor.collect fuel { stack := (l.page, idx) :: stack, endOfTable := false } acc) s fun r s' =>
      r = acc ++ (l.cells.drop idx ++ cellsOf ls).map entryOf ∧ Owns H total s' := by
  induction fuel generalizing l ls stack idx acc s with
  | zero => omega
  | succ fuel ih =>
      obtain ⟨d, lo, next, prev, hd, hat⟩ := hleaf l List.mem_cons_self
      have hget := List.getElem?_eq_getElem hidx
      have hmem : l.cells[idx] ∈ cellsOf (l :: ls) := List.mem_append_left _ (List.getElem_mem hidx)
      obtain ⟨hstored, hwhole⟩ := hcells _ hmem
      rw [Cursor.collect, if_neg Bool.false_ne_true, List.drop_eq_getElem_cons hidx]
      refine (readAt_owns hO hd hat hget hstored hwhole).bind fun row s₁ ⟨hrow, hO₁⟩ => ?_
      refine (advance_owns idx hO₁ hleaf hstack).bind fun c s₂ ⟨hO₂, hnext⟩ => ?_
      subst hrow
      cases hnext with
      | within hin =>
          refine (ih hO₂ hleaf hstack hin hrows hcells (by omega)).mono fun r s₃ ⟨hr, hO₃⟩ => ⟨?_, hO₃⟩
          rw [hr, List.append_assoc]
          rfl
      | @next hout l' ls' stack' hls hahead =>
          subst hls
          have hlast : l.cells.drop (idx + 1) = [] := List.drop_eq_nil_of_le (by omega)
          have hsome : 0 < l'.cells.length := List.length_pos_iff.mpr (hrows l' List.mem_cons_self)
          have hlen : (cellsOf (l' :: ls')).length = l'.cells.length + (cellsOf ls').length := by
            rw [cellsOf_cons, List.length_append]
          refine (ih hO₂ (fun x hx => hleaf x (List.mem_cons_of_mem _ hx)) hahead hsome
            (fun x hx => hrows x (List.mem_cons_of_mem _ hx))
            (fun c hc => hcells c (List.mem_append_right _ hc)) (by omega)).mono fun r s₃ ⟨hr, hO₃⟩ => ⟨?_, hO₃⟩
          rw [hr, hlast, cellsOf_cons, List.drop_zero, List.append_assoc]
          rfl
      | ended hout hls hend =>
          subst hls
          have hlast : l.cells.drop (idx + 1) = [] := List.drop_eq_nil_of_le (by omega)
          obtain ⟨fuel, rfl⟩ : ∃ n, fuel = n + 1 := ⟨fuel - 1, by omega⟩
          rw [Cursor.collect, if_pos hend, hlast]
          exact .pure ⟨rfl, hO₂⟩

theorem tableStart_owns {root : Nat} (hO : Owns H total s) (hT : Tree H root leaves) :
    Yields (Cursor.tableStart root) s fun c s' => Owns H total s' ∧ ∃ l ls stack, leaves = l :: ls ∧
      c = { stack := (l.page, 0) :: stack, endOfTable := l.cells.length = 0 } ∧
        Ahead H (total + 1) stack ls := by
  obtain ⟨depth, inner, hsub, hnodup⟩ := hT.index
  have hdepth := Tree.depth_lt hO hsub hnodup
  rw [Cursor.tableStart]
  refine depthLimit_yields.bind fun fuel s₁ hstep => ?_
  obtain ⟨rfl, rfl⟩ := hstep
  rw [hO.total]
  have hstack : Ahead H (total + 1) [] [] := rfl
  refine (moveToLeftmost_owns hO hsub hT.leafAt hdepth (Nat.le_of_lt hdepth) hstack).bind fun r s₁ hstep => ?_
  obtain ⟨hO₁, l, ls, stack, rfl, rfl, hahead⟩ := hstep
  obtain ⟨d, lo, next, prev, hd, hat⟩ := hT.leafAt l List.mem_cons_self
  refine (getPage_owns hO₁ hd).bind fun pg s₂ ⟨hdata, hO₂⟩ => ?_
  rw [hdata, hat.count]
  rw [List.append_nil] at hahead
  exact .pure ⟨hO₂, l, ls, stack, rfl, rfl, hahead⟩

theorem rows_owns {root : Nat} (hO : Owns H total s) (hT : Tree H root leaves)
    (hcells : ∀ c ∈ cellsOf leaves, c.Stored H ∧ c.Whole) (hrows : ∀ l ∈ leaves, l.cells ≠ []) :
    Yields (Cursor.rows root) s fun r _ => r = (cellsOf leaves).map entryOf := by
  have hlen := hT.length_le hO
  have hmany := length_cellsOf_le hT.leafAt
  have hbound := Nat.mul_le_mul_right PAGE_SIZE hlen
  rw [Cursor.rows]
  refine (tableStart_owns hO hT).bind fun c s₁ hstep => ?_
  obtain ⟨hO₁, l, ls, stack, rfl, rfl, hahead⟩ := hstep
  have hsome : 0 < l.cells.length := List.length_pos_iff.mpr (hrows l List.mem_cons_self)
  have hstart : decide (l.cells.length = 0) = false := decide_eq_false (by omega)
  rw [hstart]
  have hall : (cellsOf (l :: ls)).length = l.cells.length + (cellsOf ls).length := by
    rw [cellsOf_cons, List.length_append]
  have hfuel : l.cells.length - 0 + (cellsOf ls).length < (s₁.header.totalPages + 1) * PAGE_SIZE + 1 := by
    rw [hO₁.total, Nat.succ_mul]
    omega
  refine get_yields.bind fun s₂ s₃ hget => ?_
  rw [hget.1, hget.2]
  generalize (s₁.header.totalPages + 1) * PAGE_SIZE + 1 = fuel at hfuel ⊢
  refine (collect_owns hO₁ hT.leafAt hahead hsome (fun x hx => hrows x (List.mem_cons_of_mem _ hx)) hcells
    hfuel).mono fun r s₂ ⟨hr, _⟩ => ?_
  rw [hr, cellsOf_cons, List.drop_zero]
  rfl

theorem rows_empty {root : Nat} {l : Leaf} (hO : Owns H total s) (hT : Tree H root (l :: ls))
    (hnil : l.cells = []) :
    Yields (Cursor.rows root) s fun r _ => r = [] := by
  rw [Cursor.rows]
  refine (tableStart_owns hO hT).bind fun c s₁ hstep => ?_
  obtain ⟨hO₁, l', ls', stack, heq, rfl, hahead⟩ := hstep
  obtain ⟨rfl, rfl⟩ := List.cons.inj heq
  have hstart : decide (l.cells.length = 0) = true := decide_eq_true (by rw [hnil]; rfl)
  rw [hstart]
  exact .pure rfl

theorem rows_length {root : Nat} {l : Leaf} {entries : List (Int64 × Row)} (hO : Owns H total s)
    (hT : Tree H root (l :: ls)) (hsome : l.cells ≠ []) (h : Cursor.rows root s = .ok entries s') :
    entries.length = stopsOf (l :: ls) := by
  obtain ⟨c, s₁, hok, hO₁, l', ls', stack, heq, rfl, hahead⟩ := tableStart_owns hO hT
  obtain ⟨rfl, rfl⟩ := List.cons.inj heq
  have hstart : decide (l.cells.length = 0) = false :=
    decide_eq_false fun hzero => hsome (List.eq_nil_of_length_eq_zero hzero)
  rw [Cursor.rows, bind_ok hok, hstart] at h
  have hlen := collect_length hO₁ hT.leafAt hahead (.inl rfl) h
  rw [hlen, stopsOf, stopsOf, List.map_cons, List.sum_cons]
  simp

end Run

section Agreement

variable [Lz4Flex] {t : Table} {m : Rows} {H : Heap} {total : Nat} {leaves : List Leaf}

theorem even_iff (hO : Owns H total t.pager) (hT : Tree H t.root leaves) :
    Even t ↔ (∀ l ∈ leaves, l.cells = []) ∨ ∀ l ∈ leaves, l.cells ≠ [] := by
  obtain ⟨depth, inner, hsub, hnodup⟩ := hT.index
  have hdepth := Tree.depth_lt hO hsub hnodup
  have hpages := leavesInOrder_sub hO.view hsub hT.leafAt hdepth
  have hcount : ∀ l ∈ leaves, cellCount (view t.pager l.page) = l.cells.length := by
    intro l hl
    obtain ⟨d, lo, next, prev, hd, hat⟩ := hT.leafAt l hl
    rw [hO.view _ _ hd, hat.count]
  unfold Even
  rw [hO.total, hpages]
  simp only [leafPages, List.forall_mem_map]
  refine or_congr (forall₂_congr fun l hl => ?_) (forall₂_congr fun l hl => ?_)
  · rw [hcount l hl, List.length_eq_zero_iff]
  · rw [hcount l hl, Ne, List.length_eq_zero_iff]

def CursorAgrees (t : Table) : Prop :=
  ∃ entries, Returns (scanAll t.root) t.pager entries ∧ Returns (Cursor.rows t.root) t.pager entries

theorem cursorAgrees_iff (h : Holding (t, m)) : CursorAgrees t ↔ Even t := by
  obtain ⟨leaves, ⟨H, total, hO, hT⟩, hS⟩ := h
  simp only at hO hT hS
  have hscan : Returns (scanAll t.root) t.pager ((cellsOf leaves).map entryOf) :=
    returns_of_yields (scanAll_owns hO hT hS) fun _ _ hq => hq.1
  have hcells : ∀ c ∈ cellsOf leaves, c.Stored H ∧ c.Whole := fun c hc =>
    ⟨hT.forest.stored c hc, (hS.whole hc).1⟩
  obtain ⟨depth, inner, hsub, -⟩ := hT.index
  obtain ⟨l, ls, rfl⟩ := hsub.first
  rw [even_iff hO hT]
  constructor
  · rintro ⟨entries, ⟨s₁, hentries⟩, s₂, hcursor⟩
    obtain ⟨s₃, hsame⟩ := hscan
    obtain ⟨rfl, -⟩ := EStateM.Result.ok.inj (hsame.symm.trans hentries)
    by_cases hnil : l.cells = []
    · obtain ⟨r, s₄, hok, rfl⟩ := rows_empty hO hT hnil
      obtain ⟨hempty, -⟩ := EStateM.Result.ok.inj (hok.symm.trans hcursor)
      left
      have hzero : cellsOf (l :: ls) = [] := List.map_eq_nil_iff.mp hempty.symm
      exact fun x hx => List.flatMap_eq_nil_iff.mp hzero x hx
    · have hlen := rows_length hO hT hnil hcursor
      rw [List.length_map] at hlen
      right
      by_contra hsome
      simp only [not_forall, ne_eq, not_not] at hsome
      obtain ⟨x, hx, hxnil⟩ := hsome
      have := length_lt_stopsOf ⟨x, hx, hxnil⟩
      omega
  · rintro (hempty | hsome)
    · have hzero : cellsOf (l :: ls) = [] := List.flatMap_eq_nil_iff.mpr hempty
      rw [hzero] at hscan
      exact ⟨[], hscan, returns_of_yields (rows_empty hO hT (hempty l List.mem_cons_self)) fun _ _ hq => hq⟩
    · exact ⟨_, hscan, returns_of_yields (rows_owns hO hT hcells hsome) fun _ _ hq => hq⟩

-- After a run a cursor gives what a scan gives exactly when no leaf is empty, or all are.
theorem run_cursorAgrees_iff {base : Nat} {l : Pager.Ledger} {s : Pager} (ops : List TableOp)
    (hs : Pager.Ready base s l) (hwal : s.wal = none) (hroom : s.header.totalPages < MAX_PAGES)
    (hops : Meets TableOp.step TableOp.Sound ops (Table.start s)) :
    CursorAgrees (run TableOp.step ops (Table.start s)).1 ↔ Even (run TableOp.step ops (Table.start s)).1 :=
  cursorAgrees_iff (run_holding ops hs hwal hroom hops)

end Agreement

section Samples

attribute [local instance] Lz4Flex.incompressible

theorem cursorAgrees_mixed :
    CursorAgrees (run TableOp.step mixedRun (Table.start (Pager.openMemory Buf.zero))).1 ↔
      Even (run TableOp.step mixedRun (Table.start (Pager.openMemory Buf.zero))).1 :=
  run_cursorAgrees_iff mixedRun (Pager.ready_openMemory Buf.zero) rfl (by decide) mixedRun_sound

def emptiedRun : List TableOp :=
  [.Insert 1 (blobRow 2000), .Insert 2 (blobRow 2000), .Insert 3 (blobRow 2000), .Delete 1, .Delete 2]

instance (t : Table) : Decidable (Even t) := by
  unfold Even
  split <;> infer_instance

set_option maxRecDepth 10000 in
theorem emptiedRun_sound :
    Meets TableOp.step TableOp.Sound emptiedRun (Table.start (Pager.openMemory Buf.zero)) := by
  decide +kernel

set_option maxRecDepth 10000 in
theorem emptiedRun_uneven : ¬Even (run TableOp.step emptiedRun
    (Table.start (Pager.openMemory Buf.zero))).1 := by
  decide +kernel

theorem cursor_misses_row :
    Meets TableOp.step TableOp.Sound emptiedRun (Table.start (Pager.openMemory Buf.zero)) ∧
      ¬CursorAgrees (run TableOp.step emptiedRun (Table.start (Pager.openMemory Buf.zero))).1 := by
  refine ⟨emptiedRun_sound, fun h => emptiedRun_uneven ?_⟩
  have hholding := run_holding emptiedRun (Pager.ready_openMemory Buf.zero) rfl (by decide) emptiedRun_sound
  generalize run TableOp.step emptiedRun (Table.start (Pager.openMemory Buf.zero)) = c at h hholding ⊢
  exact (cursorAgrees_iff hholding).mp h

end Samples

end BTree

end Kkdb
