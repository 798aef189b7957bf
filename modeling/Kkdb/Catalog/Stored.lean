import Kkdb.BTree.MaxRowid
import Kkdb.Catalog.Calls
import Kkdb.Lib.Assoc

namespace Kkdb.Catalog

open Lib

section Pages

variable [Lz4Flex]

-- The calls on the pages of the tree. An error of `max_rowid` counts as the rowid 0.
def CatalogCall.run (root : Nat) : CatalogCall → PagerM Nat
  | Append row => do
      let nextRowid ← BTree.openNextRowid root
      BTree.insert root nextRowid row
  | Update rowid row => BTree.updateRow root rowid row
  | Delete rowid => do
      let (_, root) ← BTree.deleteByRowid root rowid
      return root

def CatalogCall.step (c : CatalogCall) (s : BTree.Table × Rows) : BTree.Table × Rows :=
  (s.1.after (c.run s.1.root), c.apply s.2)

-- A call finds the last rowid where the last leaf has a row, and its row can be read back and its cell placed.
def CatalogCall.Sound (c : CatalogCall) (s : BTree.Table × Rows) : Prop :=
  match c with
  | Append row =>
      (BTree.LastLeafHolds s.1 ∨ maxRowid s.2 = 0) ∧ maxRowid s.2 ≠ Int64.maxValue ∧ row.Readable ∧
        BTree.Placeable (left (BTree.openNextRowid s.1.root) s.1.pager) s.1.root (maxRowid s.2 + 1) row
  | Update rowid row =>
      rowid ∈ s.2.map Prod.fst ∧ row.Readable ∧
        BTree.Placeable (left (BTree.deleteByRowid s.1.root rowid) s.1.pager) s.1.root rowid row
  | Delete _ => True

instance (c : CatalogCall) (s : BTree.Table × Rows) : Decidable (c.Sound s) := by
  unfold CatalogCall.Sound
  split <;> infer_instance

-- The tree that the calls have made of an empty one, each of them sound. What else the pager does in between
-- keeps the tree.
inductive Stored : List CatalogCall → BTree.Table → Prop where
  | start {t : BTree.Table} (h : BTree.Planted t [⟨t.root, []⟩]) : Stored [] t
  | call {calls : List CatalogCall} {t : BTree.Table} (h : Stored calls t) {c : CatalogCall}
      (hsound : c.Sound (t, rowsOf calls)) : Stored (calls ++ [c]) (t.after (c.run t.root))
  | elsewhere {calls : List CatalogCall} {t t' : BTree.Table} (h : Stored calls t)
      (hkeep : ∀ leaves, BTree.Planted t leaves → BTree.Planted t' leaves) : Stored calls t'

-- The tree answers as the list of its rows.
structure Answers (t : BTree.Table) (rows : Rows) : Prop where
  scan : BTree.Returns (BTree.scanAll t.root) t.pager rows
  next : BTree.LastLeafHolds t ∨ maxRowid rows = 0 →
    BTree.Returns (BTree.openNextRowid t.root) t.pager (maxRowid rows + 1)

-- So it did before every call of the run.
def Served (calls : List CatalogCall) : Prop :=
  ∀ before, before <+: calls → ∃ t, Stored before t ∧ Answers t (rowsOf before)

end Pages

section Rows

variable {rows : Rows} {rowid : Int64} {row : Row}

theorem Ascending.nodup (h : Ascending rows) : (rows.map Prod.fst).Nodup := by
  rw [List.Nodup, List.pairwise_map]
  exact h.imp fun hlt heq => by
    rw [heq] at hlt
    omega

def contents (rows : Rows) : BTree.Rows := fun rowid => rows.lookup rowid

theorem contents_some (h : Ascending rows) : contents rows rowid = some row ↔ (rowid, row) ∈ rows :=
  lookup_eq_some_iff h.nodup

theorem contents_append (h : Ascending rows) (hmax : maxRowid rows ≠ Int64.maxValue) (row : Row) :
    contents rows (maxRowid rows + 1) = none ∧
      contents ((CatalogCall.Append row).apply rows) =
        Function.update (contents rows) (maxRowid rows + 1) (some row) := by
  have habsent : maxRowid rows + 1 ∉ rows.map Prod.fst := by
    rintro hmem
    obtain ⟨r, hr, heq⟩ := List.mem_map.mp hmem
    have hle := h.lt_last hr
    rw [heq, succ_toInt hmax] at hle
    omega
  refine ⟨lookup_eq_none_of_notMem habsent, ?_⟩
  funext x
  rw [CatalogCall.apply, if_neg hmax, ← put_of_notMem habsent, contents, lookup_put, Function.update_apply]
  rfl

theorem contents_update (h : Ascending rows) (hmem : rowid ∈ rows.map Prod.fst) (row : Row) :
    contents ((CatalogCall.Update rowid row).apply rows) =
      Function.update (contents rows) rowid (some row) := by
  have hasc : Ascending ((CatalogCall.Update rowid row).apply rows) := h.apply _
  obtain ⟨r, hr, heq⟩ := List.mem_map.mp hmem
  funext x
  apply Option.ext
  intro v
  rw [contents_some hasc, Function.update_apply, CatalogCall.apply, List.mem_map]
  split_ifs with hx
  · rw [Option.some_inj]
    constructor
    · rintro ⟨r', -, hr'⟩
      split_ifs at hr' with hrow
      · exact (Prod.mk.inj hr').2
      · rw [hr'] at hrow
        exact absurd hx hrow
    · rintro rfl
      exact ⟨r, hr, by rw [if_pos heq, hx]⟩
  · rw [contents_some h]
    constructor
    · rintro ⟨r', hin, hr'⟩
      split_ifs at hr' with hrow
      · exact absurd (Prod.mk.inj hr').1.symm hx
      · rwa [← hr']
    · exact fun hin => ⟨_, hin, if_neg hx⟩

theorem contents_delete (rows : Rows) (rowid : Int64) :
    contents ((CatalogCall.Delete rowid).apply rows) = Function.update (contents rows) rowid none := by
  funext x
  rw [CatalogCall.apply, contents, ← remove, lookup_remove, Function.update_apply]
  rfl

end Rows

section Refinement

theorem eq_of_ascending {xs ys : Rows} (hx : Ascending xs) (hy : Ascending ys) (h : ∀ r, r ∈ xs ↔ r ∈ ys) :
    xs = ys := by
  have hnodup : ∀ {rows : Rows}, Ascending rows → rows.Nodup := fun h => .of_map Prod.fst h.nodup
  refine List.Perm.eq_of_pairwise (fun a b _ _ hab hba => ?_) hx hy
    ((List.perm_ext_iff_of_nodup (hnodup hx) (hnodup hy)).mpr h)
  omega

variable {t : BTree.Table} {rows : Rows} {calls : List CatalogCall} {leaves : List BTree.Leaf}
  {H : BTree.Heap}

theorem rows_eq_cells (hasc : Ascending rows) (hT : BTree.Tree H t.root leaves)
    (hS : BTree.Stores leaves (contents rows)) :
    rows = (BTree.cellsOf leaves).map fun c => (c.rowid, c.row) := by
  refine eq_of_ascending hasc ?_ fun r => ?_
  · have hcells := hT.ascending
    rw [BTree.Ascending, List.pairwise_map] at hcells
    rw [Ascending, List.pairwise_map]
    exact hcells
  · rw [← contents_some hasc, List.mem_map]
    constructor
    · intro hr
      obtain ⟨-, c, hc, heq⟩ := hS.row _ _ hr
      have hrow := (hS.whole hc).2
      rw [heq, hr] at hrow
      exact ⟨c, hc, by rw [heq, ← Option.some.inj hrow]⟩
    · rintro ⟨c, hc, rfl⟩
      exact (hS.whole hc).2

variable [Lz4Flex]

-- The last leaf has the last row, or it is empty and the rowid 0 of an empty leaf is that of the list.
theorem openNextRowid_planted (hP : BTree.Planted t leaves) (hS : BTree.Stores leaves (contents rows))
    (hasc : Ascending rows) (hlast : BTree.LastLeafHolds t ∨ maxRowid rows = 0) :
    ∃ s, BTree.openNextRowid t.root t.pager = .ok (maxRowid rows + 1) s ∧ BTree.Planted ⟨s, t.root⟩ leaves := by
  obtain ⟨H, total, hO, hT⟩ := hP
  obtain ⟨depth, inner, hsub, -⟩ := hT.index
  obtain ⟨x, xs, hx⟩ := hsub.first
  rcases List.eq_nil_or_concat' leaves with rfl | ⟨ls, l, rfl⟩
  · cases hx
  obtain ⟨r, s, hok, rfl, hO'⟩ := BTree.maxRowid_owns hO hT
  have htop : BTree.topRowid l.cells = maxRowid rows := by
    rw [BTree.lastLeafHolds_iff hO hT] at hlast
    rcases List.eq_nil_or_concat' l.cells with hnil | ⟨front, c, hcells⟩
    · rw [hlast.resolve_left fun hne => hne hnil, hnil]
      rfl
    · have hrows := rows_eq_cells hasc hT hS
      rw [BTree.cellsOf_append, BTree.cellsOf_cons, BTree.cellsOf_nil, List.append_nil, hcells,
        ← List.append_assoc, List.map_append] at hrows
      rw [hrows, hcells, BTree.topRowid_concat, maxRowid]
      simp
  refine ⟨s, ?_, H, total, hO', hT⟩
  rw [BTree.openNextRowid, hok, htop]

theorem CatalogCall.step_holding {c : CatalogCall} (h : BTree.Holding (t, contents rows)) (hasc : Ascending rows)
    (hsound : c.Sound (t, rows)) : BTree.Holding (t.after (c.run t.root), contents (c.apply rows)) := by
  cases c with
  | Append row =>
      obtain ⟨hlast, hmax, hread, hplace⟩ := hsound
      obtain ⟨leaves, hP, hS⟩ := h
      obtain ⟨s, hnext, hP'⟩ := openNextRowid_planted hP hS hasc hlast
      obtain ⟨habsent, hafter⟩ := contents_append hasc hmax row
      rw [left_ok hnext] at hplace
      obtain ⟨root, s', leaves', hok, hplanted, hstores⟩ :=
        BTree.insert_placed (t := ⟨s, t.root⟩) hP' hS habsent hread hplace
      have hrun : (Append row).run t.root t.pager = .ok root s' := (bind_ok hnext).trans hok
      rw [BTree.Table.after_ok hrun, hafter]
      exact ⟨leaves', hplanted, hstores⟩
  | Update rowid row =>
      obtain ⟨hmem, hop⟩ := hsound
      have hop' : (BTree.TableOp.Update rowid row).Sound (t, contents rows) := hop
      rw [contents_update hasc hmem]
      exact BTree.TableOp.step_holding h hop'
  | Delete rowid =>
      have hop : (BTree.TableOp.Delete rowid).Sound (t, contents rows) := trivial
      rw [contents_delete]
      exact BTree.TableOp.step_holding h hop

theorem Stored.holding (h : Stored calls t) : BTree.Holding (t, contents (rowsOf calls)) := by
  induction h with
  | start h => exact ⟨_, h, fun c hc => (by cases hc), fun k r hk => (by cases hk)⟩
  | @call calls t h c hsound ih =>
      rw [rowsOf_append]
      exact CatalogCall.step_holding ih (ascending_rowsOf calls) hsound
  | elsewhere h hkeep ih =>
      obtain ⟨leaves, hP, hS⟩ := ih
      exact ⟨leaves, hkeep leaves hP, hS⟩

-- The tree that the calls have made answers as the list does.
theorem Stored.answers (h : Stored calls t) : Answers t (rowsOf calls) := by
  obtain ⟨leaves, hP, hS⟩ := h.holding
  have hasc := ascending_rowsOf calls
  refine ⟨?_, fun hlast => ?_⟩
  · obtain ⟨H, total, hO, hT⟩ := hP
    rw [rows_eq_cells hasc hT hS]
    exact BTree.returns_of_yields (BTree.scanAll_owns hO hT hS) fun _ _ hq => hq.1
  · obtain ⟨s, hok, -⟩ := openNextRowid_planted hP hS hasc hlast
    exact ⟨s, hok⟩

theorem Stored.before (h : Stored calls t) {before : List CatalogCall} (hbefore : before <+: calls) :
    ∃ t', Stored before t' := by
  induction h with
  | @start t h =>
      obtain rfl := List.prefix_nil.mp hbefore
      exact ⟨t, .start h⟩
  | @call calls t h c hsound ih =>
      rcases List.prefix_concat_iff.mp hbefore with rfl | hshorter
      · exact ⟨_, .call h hsound⟩
      · exact ih hshorter
  | elsewhere h hkeep ih => exact ih hbefore

theorem Stored.served (h : Stored calls t) : Served calls := fun _ hbefore => by
  obtain ⟨t', h'⟩ := h.before hbefore
  exact ⟨t', h', h'.answers⟩

theorem stored_calls (h : Stored calls t) {more : List CatalogCall}
    (hmeets : Meets CatalogCall.step CatalogCall.Sound more (t, rowsOf calls)) :
    Stored (calls ++ more) (Lib.run CatalogCall.step more (t, rowsOf calls)).1 := by
  induction more generalizing calls t with
  | nil =>
      rw [List.append_nil]
      exact h
  | cons c more ih =>
      obtain ⟨hsound, hrest⟩ := hmeets
      have hnext := ih (Stored.call h hsound) (by rw [rowsOf_append]; exact hrest)
      rw [List.append_assoc, rowsOf_append] at hnext
      exact hnext

end Refinement

section Start

theorem leafAt_initial : BTree.LeafAt (Pager.initLeafTablePage Buf.zero) [] PAGE_SIZE 0 0 where
  laid := {
    type := rfl
    count := rfl
    offset := rfl
    slots := ⟨[], rfl, slotted_nil (by decide) (Nat.le_refl _) (by decide)⟩
    long := fun _ h => absurd h List.not_mem_nil
    header := by decide }
  next := rfl
  prev := rfl
  sorted := List.Pairwise.nil

-- The schema root page of a new database in memory.
def emptyTree (dbUuid : Buf 16) : BTree.Table × Rows := (⟨Pager.openMemory dbUuid, 3⟩, [])

theorem stored_emptyTree [Lz4Flex] (dbUuid : Buf 16) : Stored [] (emptyTree dbUuid).1 := by
  refine .start ⟨fun p => if p = 3 then some (Pager.initLeafTablePage Buf.zero) else none, 3,
    ⟨⟨0, .start Pager.createdLedger, (Pager.ready_openMemory dbUuid).space, fun p => ?_⟩, rfl, rfl⟩,
    ⟨⟨0, [], ⟨[], rfl, rfl, fun c hc => (by cases hc)⟩, List.nodup_singleton _⟩,
      ⟨⟨_, _, rfl, leafAt_initial⟩, trivial⟩, fun c hc => (by cases hc), List.nodup_singleton _⟩⟩
  have hmem : p ∈ (Pager.Space.start Pager.createdLedger).now.allocated ↔ p = 3 := Finset.mem_singleton
  simp only [hmem]
  split_ifs with hp
  · rw [hp]
    rfl
  · rfl

end Start

end Kkdb.Catalog
