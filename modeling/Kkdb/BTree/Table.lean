import Kkdb.BTree.Tree

namespace Kkdb

open Lib

namespace BTree

inductive TableOp where
  | Insert (rowid : Int64) (row : Row)
  | InsertWithBuf (rowid : Int64) (row : Row) (buf : List UInt8)
  | Delete (rowid : Int64)
  | Update (rowid : Int64) (row : Row)
  | UpdateWithBuf (rowid : Int64) (row : Row) (buf : List UInt8)

structure Table where
  pager : Pager
  root : Nat

abbrev Rows := Int64 → Option Row

def TableOp.apply : TableOp → Rows → Rows
  | Insert rowid row, m => if (m rowid).isSome then m else Function.update m rowid (some row)
  | InsertWithBuf rowid row _, m => if (m rowid).isSome then m else Function.update m rowid (some row)
  | Delete rowid, m => Function.update m rowid none
  | Update rowid row, m => Function.update m rowid (some row)
  | UpdateWithBuf rowid row _, m => Function.update m rowid (some row)

section Ops

variable [Lz4Flex]

def TableOp.call (root : Nat) : TableOp → PagerM Nat
  | Insert rowid row => insert root rowid row
  | InsertWithBuf rowid row buf => insertWithBuf root rowid row buf
  | Delete rowid => do
      let (_, root) ← deleteByRowid root rowid
      return root
  | Update rowid row => updateRow root rowid row
  | UpdateWithBuf rowid row buf => updateRowWithBuf root rowid row buf

def Table.after (t : Table) (x : PagerM Nat) : Table :=
  match x t.pager with
  | .ok root s => ⟨s, root⟩
  | .error _ s => ⟨s, t.root⟩

def TableOp.step (op : TableOp) (c : Table × Rows) : Table × Rows :=
  (c.1.after (op.call c.1.root), op.apply c.2)

def Table.created (s : Pager) : Table := Table.after ⟨s, 0⟩ createTable

def Table.start (s : Pager) : Table × Rows := (Table.created s, fun _ => none)

-- A cell for the row can be placed: see `Admits`.
def Placeable (s : Pager) (root : Nat) (rowid : Int64) (row : Row) : Prop :=
  (serializeRow row).length ≤ U32_MAX ∧
    Admits (view s) s.header.totalPages rowid (serializeRow row) (s.header.totalPages + 1) 1 [] root

instance (s : Pager) (root : Nat) (rowid : Int64) (row : Row) : Decidable (Placeable s root rowid row) := by
  unfold Placeable Admits
  infer_instance

-- The conditions on a step of a run: the rowid inserted is absent, and the row can be read back and
-- its cell placed. An update is a delete and an insert.
def TableOp.Sound (op : TableOp) (c : Table × Rows) : Prop :=
  match op with
  | Insert rowid row => c.2 rowid = none ∧ row.Readable ∧ Placeable c.1.pager c.1.root rowid row
  | InsertWithBuf rowid row _ => c.2 rowid = none ∧ row.Readable ∧ Placeable c.1.pager c.1.root rowid row
  | Delete _ => True
  | Update rowid row =>
      row.Readable ∧ Placeable (left (deleteByRowid c.1.root rowid) c.1.pager) c.1.root rowid row
  | UpdateWithBuf rowid row _ =>
      row.Readable ∧ Placeable (left (deleteByRowid c.1.root rowid) c.1.pager) c.1.root rowid row

instance (op : TableOp) (c : Table × Rows) : Decidable (op.Sound c) := by
  unfold TableOp.Sound
  split <;> infer_instance

def Planted (t : Table) (leaves : List Leaf) : Prop :=
  ∃ H total, Owns H total t.pager ∧ Tree H t.root leaves

structure Carries (leaves : List Leaf) (m : Rows) : Prop where
  cell : ∀ c ∈ cellsOf leaves, ∃ row, m c.rowid = some row ∧ c.payload = serializeRow row
  row : ∀ rowid row, m rowid = some row → Has leaves rowid

structure Stores (leaves : List Leaf) (m : Rows) : Prop where
  cell : ∀ c ∈ cellsOf leaves, ∃ row, m c.rowid = some row ∧ c.payload = serializeRow row
  row : ∀ rowid row, m rowid = some row → row.Readable ∧ Has leaves rowid

end Ops

theorem Table.after_ok {t : Table} {x : PagerM Nat} {root : Nat} {s : Pager} (h : x t.pager = .ok root s) :
    t.after x = ⟨s, root⟩ := by
  rw [Table.after, h]

theorem Table.after_error {t : Table} {x : PagerM Nat} {e : Fault} {s : Pager}
    (h : x t.pager = .error e s) : t.after x = ⟨s, t.root⟩ := by
  rw [Table.after, h]

section Stores

variable {leaves leaves' : List Leaf} {m : Rows} {rowid : Int64} {row : Row} {c : Cell} {pre post : List Cell}

theorem Stores.whole (h : Stores leaves m) (hc : c ∈ cellsOf leaves) :
    c.Whole ∧ m c.rowid = some c.row := by
  obtain ⟨row, hrow, hpayload⟩ := h.cell c hc
  have hread := deserializeRow_serializeRow row (h.row _ _ hrow).1
  rw [← hpayload] at hread
  obtain ⟨hwhole, heq⟩ := Cell.whole_of_ok hread
  exact ⟨hwhole, by rw [heq, hrow]⟩

theorem Stores.carries (h : Stores leaves m) : Carries leaves m :=
  ⟨h.cell, fun rowid row hm => (h.row rowid row hm).2⟩

theorem Carries.stores (h : Carries leaves m) (hread : ∀ rowid row, m rowid = some row → row.Readable) :
    Stores leaves m :=
  ⟨h.cell, fun rowid row hm => ⟨hread rowid row hm, h.row rowid row hm⟩⟩

theorem Carries.has_iff (h : Carries leaves m) (rowid : Int64) : Has leaves rowid ↔ (m rowid).isSome := by
  constructor
  · rintro ⟨c, hc, rfl⟩
    obtain ⟨row, hrow, -⟩ := h.cell c hc
    rw [hrow]
    rfl
  · intro hsome
    obtain ⟨row, hrow⟩ := Option.isSome_iff_exists.mp hsome
    exact h.row rowid row hrow

theorem Stores.has_iff (h : Stores leaves m) (rowid : Int64) : Has leaves rowid ↔ (m rowid).isSome :=
  h.carries.has_iff rowid

theorem Carries.add (h : Carries leaves m) (hold : cellsOf leaves = pre ++ post)
    (hnew : cellsOf leaves' = pre ++ c :: post) (hc : c.rowid = rowid) (hpayload : c.payload = serializeRow row)
    (habsent : ¬Has leaves rowid) : Carries leaves' (Function.update m rowid (some row)) where
  cell := by
    intro x hx
    by_cases hxr : x.rowid = rowid
    · have hxc : x = c := by
        rw [hnew, List.mem_append, List.mem_cons] at hx
        rcases hx with hx | hx | hx
        · exact absurd ⟨x, by rw [hold]; exact List.mem_append_left _ hx, hxr⟩ habsent
        · exact hx
        · exact absurd ⟨x, by rw [hold]; exact List.mem_append_right _ hx, hxr⟩ habsent
      exact ⟨row, by rw [hxr, Function.update_self], by rw [hxc, hpayload]⟩
    · rw [Function.update_of_ne hxr]
      refine h.cell x ?_
      rw [hnew, List.mem_append, List.mem_cons] at hx
      rw [hold, List.mem_append]
      rcases hx with hx | rfl | hx
      · exact .inl hx
      · exact absurd hc hxr
      · exact .inr hx
  row := by
    intro k r hk
    by_cases hkr : k = rowid
    · exact ⟨c, by rw [hnew]; simp, by rw [hc, hkr]⟩
    · rw [Function.update_of_ne hkr] at hk
      obtain ⟨x, hx, hxk⟩ := h.row k r hk
      refine ⟨x, ?_, hxk⟩
      rw [hold, List.mem_append] at hx
      rw [hnew, List.mem_append, List.mem_cons]
      exact hx.imp id .inr

theorem Carries.erase (rowid : Int64) (h : Carries leaves m) :
    Carries (leaves.map (Leaf.erase rowid)) (Function.update m rowid none) where
  cell := by
    intro x hx
    rw [cellsOf_erase, List.mem_filter, decide_eq_true_eq] at hx
    rw [Function.update_of_ne hx.2]
    exact h.cell x hx.1
  row := by
    intro k r hk
    have hne : k ≠ rowid := by
      rintro rfl
      rw [Function.update_self] at hk
      cases hk
    rw [Function.update_of_ne hne] at hk
    obtain ⟨x, hx, hxk⟩ := h.row k r hk
    refine ⟨x, ?_, hxk⟩
    rw [cellsOf_erase, List.mem_filter, decide_eq_true_eq, hxk]
    exact ⟨hx, hne⟩

theorem Stores.add (h : Stores leaves m) (hrow : row.Readable)
    (hcarries : Carries leaves' (Function.update m rowid (some row))) :
    Stores leaves' (Function.update m rowid (some row)) := by
  refine hcarries.stores fun k r hk => ?_
  by_cases hkr : k = rowid
  · rw [hkr, Function.update_self] at hk
    obtain rfl := Option.some.inj hk
    exact hrow
  · rw [Function.update_of_ne hkr] at hk
    exact (h.row k r hk).1

theorem Stores.erase (rowid : Int64) (h : Stores leaves m) :
    Stores (leaves.map (Leaf.erase rowid)) (Function.update m rowid none) := by
  refine (h.carries.erase rowid).stores fun k r hk => ?_
  have hne : k ≠ rowid := by
    rintro rfl
    rw [Function.update_self] at hk
    cases hk
  rw [Function.update_of_ne hne] at hk
  exact (h.row k r hk).1

end Stores

section Steps

variable [Lz4Flex] {t : Table} {leaves : List Leaf} {m : Rows} {rowid : Int64} {row : Row}

theorem createTable_planted {base : Nat} {l : Pager.Ledger} {s : Pager} (hs : Pager.Ready base s l)
    (hwal : s.wal = none) (hroom : s.header.totalPages < MAX_PAGES) :
    ∃ p, Planted (Table.created s) [⟨p, []⟩] := by
  have hO : Owns (fun p => if p ∈ l.allocated then some (s.content 2 p) else none) s.header.totalPages s :=
    ⟨⟨base, .start l, hs.space, fun p => rfl⟩, hwal, rfl⟩
  have hrun : Yields createTable s fun root s' => ∃ H total, Owns H total s' ∧ Tree H root [⟨root, []⟩] := by
    refine (allocatePage_owns hO hroom).bind fun p s₁ ⟨_, d, total', _, _, hO₁⟩ => ?_
    refine (initLeafPage_owns hO₁ (Function.update_self _ _ _)).bind fun _ s₂ ⟨d', hleaf, hO₂⟩ => ?_
    refine .pure ⟨_, total', hO₂, ⟨⟨0, [], ⟨[], rfl, rfl, fun c hc => (by cases hc)⟩, List.nodup_singleton _⟩,
      ⟨⟨⟨d', _, Function.update_self _ _ _, hleaf⟩, trivial⟩, fun c hc => (by cases hc),
        List.nodup_singleton _⟩⟩⟩
  obtain ⟨root, s', hok, hplanted⟩ := hrun
  refine ⟨root, ?_⟩
  rw [Table.created, Table.after_ok hok]
  exact hplanted

theorem insert_carries (h : Planted t leaves) (hC : Carries leaves m) (habsent : m rowid = none)
    (hplace : Placeable t.pager t.root rowid row) :
    ∃ root s leaves', insertPayload t.root rowid (serializeRow row) t.pager = .ok root s ∧
      Planted ⟨s, root⟩ leaves' ∧ Carries leaves' (Function.update m rowid (some row)) := by
  obtain ⟨H, total, hO, hT⟩ := h
  obtain ⟨hshort, hadmits⟩ := hplace
  rw [hO.total] at hadmits
  have hno : ¬Has leaves rowid := by
    rw [hC.has_iff, habsent]
    exact Bool.false_ne_true
  obtain ⟨root, s, hok, H', leaves', total', c, hT', ⟨pre, post, hold, hnew⟩, hc, hpayload, hO'⟩ :=
    insertPayload_owns hO hT hno hshort hadmits
  exact ⟨root, s, leaves', hok, ⟨H', total', hO', hT'⟩, hC.add hold hnew hc hpayload hno⟩

theorem insert_placed (h : Planted t leaves) (hS : Stores leaves m) (habsent : m rowid = none)
    (hrow : row.Readable) (hplace : Placeable t.pager t.root rowid row) :
    ∃ root s leaves', insertPayload t.root rowid (serializeRow row) t.pager = .ok root s ∧
      Planted ⟨s, root⟩ leaves' ∧ Stores leaves' (Function.update m rowid (some row)) := by
  obtain ⟨root, s, leaves', hok, hP, hC⟩ := insert_carries h hS.carries habsent hplace
  exact ⟨root, s, leaves', hok, hP, hS.add hrow hC⟩

theorem delete_placed (rowid : Int64) (h : Planted t leaves) :
    ∃ s, deleteByRowid t.root rowid t.pager = .ok (decide (Has leaves rowid), t.root) s ∧
      Planted ⟨s, t.root⟩ (leaves.map (Leaf.erase rowid)) := by
  obtain ⟨H, total, hO, hT⟩ := h
  obtain ⟨r, s, hok, H', rfl, hT', hO'⟩ := deleteByRowid_owns rowid hO hT
  exact ⟨s, hok, H', total, hO', hT'⟩

theorem update_placed (h : Planted t leaves) (hS : Stores leaves m) (hrow : row.Readable)
    (hplace : Placeable (left (deleteByRowid t.root rowid) t.pager) t.root rowid row) :
    ∃ root s leaves', updateRow t.root rowid row t.pager = .ok root s ∧ Planted ⟨s, root⟩ leaves' ∧
      Stores leaves' (Function.update m rowid (some row)) := by
  obtain ⟨s₁, hok, h₁⟩ := delete_placed rowid h
  rw [left_ok hok] at hplace
  obtain ⟨root, s₂, leaves', hok', h₂, hS'⟩ :=
    insert_placed (t := ⟨s₁, t.root⟩) h₁ (hS.erase rowid) (Function.update_self _ _ _) hrow hplace
  rw [Function.update_idem] at hS'
  exact ⟨root, s₂, leaves', (bind_ok hok).trans hok', h₂, hS'⟩

def Holding (c : Table × Rows) : Prop := ∃ leaves, Planted c.1 leaves ∧ Stores leaves c.2

theorem TableOp.runs {op : TableOp} {c : Table × Rows} (h : Holding c) (hop : op.Sound c) :
    ∃ root s, op.call c.1.root c.1.pager = .ok root s ∧ Holding (⟨s, root⟩, op.apply c.2) := by
  obtain ⟨t, m⟩ := c
  obtain ⟨leaves, hP, hS⟩ := h
  have hinsert : ∀ rowid row, m rowid = none → row.Readable → Placeable t.pager t.root rowid row →
      ∃ root s, insertPayload t.root rowid (serializeRow row) t.pager = .ok root s ∧
        Holding (⟨s, root⟩, if (m rowid).isSome then m else Function.update m rowid (some row)) := by
    intro rowid row habsent hrow hplace
    obtain ⟨root, s, leaves', hok, hP', hS'⟩ := insert_placed hP hS habsent hrow hplace
    refine ⟨root, s, hok, leaves', hP', ?_⟩
    rw [habsent]
    exact hS'
  have hupdate : ∀ rowid row, row.Readable →
      Placeable (left (deleteByRowid t.root rowid) t.pager) t.root rowid row →
      ∃ root s, updateRow t.root rowid row t.pager = .ok root s ∧
        Holding (⟨s, root⟩, Function.update m rowid (some row)) := by
    intro rowid row hrow hplace
    obtain ⟨root, s, leaves', hok, hP', hS'⟩ := update_placed hP hS hrow hplace
    exact ⟨root, s, hok, leaves', hP', hS'⟩
  cases op with
  | Insert rowid row => exact hinsert rowid row hop.1 hop.2.1 hop.2.2
  | InsertWithBuf rowid row buf => exact hinsert rowid row hop.1 hop.2.1 hop.2.2
  | Delete rowid =>
      obtain ⟨s, hok, hP'⟩ := delete_placed rowid hP
      exact ⟨t.root, s, bind_ok hok, _, hP', hS.erase rowid⟩
  | Update rowid row => exact hupdate rowid row hop.1 hop.2
  | UpdateWithBuf rowid row buf => exact hupdate rowid row hop.1 hop.2

theorem TableOp.step_holding {op : TableOp} {c : Table × Rows} (h : Holding c) (hop : op.Sound c) :
    Holding (op.step c) := by
  obtain ⟨root, s, hok, hholding⟩ := TableOp.runs h hop
  rw [TableOp.step, Table.after_ok hok]
  exact hholding

theorem start_holding {base : Nat} {l : Pager.Ledger} {s : Pager} (hs : Pager.Ready base s l)
    (hwal : s.wal = none) (hroom : s.header.totalPages < MAX_PAGES) : Holding (Table.start s) := by
  obtain ⟨p, hP⟩ := createTable_planted hs hwal hroom
  exact ⟨_, hP, fun c hc => (by cases hc), fun k r hk => (by cases hk)⟩

theorem run_holding {base : Nat} {l : Pager.Ledger} {s : Pager} (ops : List TableOp)
    (hs : Pager.Ready base s l) (hwal : s.wal = none) (hroom : s.header.totalPages < MAX_PAGES)
    (hops : Meets TableOp.step TableOp.Sound ops (Table.start s)) :
    Holding (run TableOp.step ops (Table.start s)) :=
  run_invariant Holding (start_holding hs hwal hroom) (fun _ _ h hop => TableOp.step_holding h hop) hops

end Steps

def Returns {α : Type} (x : PagerM α) (s : Pager) (a : α) : Prop := ∃ s', x s = .ok a s'

theorem returns_of_yields {α : Type} {x : PagerM α} {s : Pager} {Q : α → Pager → Prop} {a : α}
    (h : Yields x s Q)
    (ha : ∀ a' s', Q a' s' → a' = a) : Returns x s a := by
  obtain ⟨a', s', hok, hq⟩ := h
  exact ⟨s', by rw [hok, ha a' s' hq]⟩

section Refinement

variable [Lz4Flex]

-- The table answers as the map does.
structure RefinesMap (t : Table) (m : Rows) : Prop where
  find : ∀ rowid, Returns (findByRowid t.root rowid) t.pager ((m rowid).map fun row => (rowid, row))
  delete : ∀ rowid, Returns (deleteByRowid t.root rowid) t.pager ((m rowid).isSome, t.root)
  scan : ∃ entries, Returns (scanAll t.root) t.pager entries ∧
    (entries.map fun e => e.1.toInt).Pairwise (· < ·) ∧ ∀ rowid row, (rowid, row) ∈ entries ↔ m rowid = some row

variable {t : Table} {m : Rows} {H : Heap} {total : Nat} {leaves : List Leaf}

theorem scanAll_owns (hO : Owns H total t.pager) (hT : Tree H t.root leaves) (hS : Stores leaves m) :
    Yields (scanAll t.root) t.pager fun r s' =>
      r = (cellsOf leaves).map (fun c => (c.rowid, c.row)) ∧ Owns H total s' := by
  refine (findLeftmostLeaf_owns hO hT).bind fun first s₁ ⟨hfirst, hO₁⟩ => ?_
  rw [hfirst]
  exact scanLeaves_forward none hO₁ hT fun c hc =>
    reads_entry (hT.forest.stored c hc) (hS.whole hc).1 no_needed

theorem refinesMap_of_holding (h : Holding (t, m)) : RefinesMap t m := by
  obtain ⟨leaves, ⟨H, total, hO, hT⟩, hS⟩ := h
  refine ⟨fun rowid => ?_, fun rowid => ?_, ?_⟩
  · by_cases hhas : Has leaves rowid
    · obtain ⟨c, hc, rfl⟩ := hhas
      obtain ⟨hwhole, hm⟩ := hS.whole hc
      simp only at hm
      rw [hm]
      exact returns_of_yields (findByRowid_present hO hT hc hwhole) fun _ _ hq => hq.1
    · have hnone : m rowid = none := Option.not_isSome_iff_eq_none.mp fun hsome =>
          hhas ((hS.has_iff rowid).mpr hsome)
      rw [hnone]
      exact returns_of_yields (findByRowid_absent hO hT hhas) fun _ _ hq => hq.1
  · have hdec : decide (Has leaves rowid) = (m rowid).isSome := by
      rw [Bool.eq_iff_iff, decide_eq_true_eq]
      exact hS.has_iff rowid
    rw [← hdec]
    exact returns_of_yields (deleteByRowid_owns rowid hO hT) fun _ _ ⟨_, hr, _⟩ => hr
  · refine ⟨_, returns_of_yields (scanAll_owns hO hT hS) fun _ _ hq => hq.1, ?_, fun rowid row => ?_⟩
    · rw [List.map_map]
      exact hT.ascending
    · rw [List.mem_map]
      constructor
      · rintro ⟨c, hc, heq⟩
        obtain ⟨rfl, rfl⟩ := Prod.mk.inj heq
        exact (hS.whole hc).2
      · intro hm
        obtain ⟨-, c, hc, rfl⟩ := hS.row rowid row hm
        have hm' := (hS.whole hc).2
        simp only at hm hm'
        rw [hm] at hm'
        exact ⟨c, hc, by rw [Option.some.inj hm']⟩

-- A table that is made by calls that meet their conditions answers as the map does, and so do the
-- calls themselves.
theorem run_refinesMap {base : Nat} {l : Pager.Ledger} {s : Pager} (ops : List TableOp)
    (hs : Pager.Ready base s l) (hwal : s.wal = none) (hroom : s.header.totalPages < MAX_PAGES)
    (hops : Meets TableOp.step TableOp.Sound ops (Table.start s)) :
    RefinesMap (run TableOp.step ops (Table.start s)).1 (run TableOp.step ops (Table.start s)).2 ∧
      ∀ op : TableOp, op.Sound (run TableOp.step ops (Table.start s)) →
        ∃ root s', op.call (run TableOp.step ops (Table.start s)).1.root
          (run TableOp.step ops (Table.start s)).1.pager = .ok root s' := by
  have h := run_holding ops hs hwal hroom hops
  refine ⟨refinesMap_of_holding h, fun op hop => ?_⟩
  obtain ⟨root, s', hok, -⟩ := TableOp.runs h hop
  exact ⟨root, s', hok⟩

-- A rowid that is in the table is refused where its leaf has room, and every row stays.
theorem insert_present {base : Nat} {l : Pager.Ledger} {s : Pager} (ops : List TableOp) (rowid : Int64)
    (row : Row) (hs : Pager.Ready base s l) (hwal : s.wal = none) (hroom : s.header.totalPages < MAX_PAGES)
    (hops : Meets TableOp.step TableOp.Sound ops (Table.start s))
    (hpresent : ((run TableOp.step ops (Table.start s)).2 rowid).isSome)
    (hplace : Placeable (run TableOp.step ops (Table.start s)).1.pager
      (run TableOp.step ops (Table.start s)).1.root rowid row) :
    let t := (run TableOp.step ops (Table.start s)).1
    ∃ s', insert t.root rowid row t.pager = .error (duplicateRowid rowid) s' ∧
      (∃ entries, Returns (scanAll t.root) t.pager entries ∧ Returns (scanAll t.root) s' entries) ∧
      ∀ k, ∃ found, Returns (findByRowid t.root k) t.pager found ∧ Returns (findByRowid t.root k) s' found := by
  have h := run_holding ops hs hwal hroom hops
  generalize run TableOp.step ops (Table.start s) = c at h hpresent hplace
  obtain ⟨t, m⟩ := c
  have hbefore := refinesMap_of_holding h
  obtain ⟨leaves, ⟨H, total, hO, hT⟩, hS⟩ := h
  obtain ⟨hshort, hadmits⟩ := hplace
  simp only at hO hT hS hpresent hadmits hbefore
  rw [hO.total] at hadmits
  obtain ⟨s', hrun, H', total', hT', hO'⟩ :=
    insertPayload_fails hO hT ((hS.has_iff rowid).mpr hpresent) hshort hadmits
  have hafter : RefinesMap ⟨s', t.root⟩ m := refinesMap_of_holding ⟨leaves, ⟨H', total', hO', hT'⟩, hS⟩
  refine ⟨s', hrun, ⟨_, returns_of_yields (scanAll_owns hO hT hS) fun _ _ hq => hq.1,
    returns_of_yields (scanAll_owns (t := ⟨s', t.root⟩) hO' hT' hS) fun _ _ hq => hq.1⟩, fun k => ?_⟩
  exact ⟨_, hbefore.find k, hafter.find k⟩

end Refinement

section Samples

attribute [local instance] Lz4Flex.incompressible

def blobRow (len : Nat) : Row := [.Blob (List.replicate len 7)]

def mixedRun : List TableOp :=
  [.Insert 5 (blobRow 2000), .Insert (-1) (blobRow 5000), .InsertWithBuf 7 (blobRow 2000) [], .Delete 7,
    .Insert 6 (blobRow 1000), .Delete (-1), .Update 5 (blobRow 3)]

set_option maxRecDepth 10000 in
theorem mixedRun_sound :
    Meets TableOp.step TableOp.Sound mixedRun (Table.start (Pager.openMemory Buf.zero)) := by
  decide +kernel

theorem run_refinesMap_mixed :
    RefinesMap (run TableOp.step mixedRun (Table.start (Pager.openMemory Buf.zero))).1
        (run TableOp.step mixedRun (Table.start (Pager.openMemory Buf.zero))).2 ∧
      ∀ op : TableOp, op.Sound (run TableOp.step mixedRun (Table.start (Pager.openMemory Buf.zero))) →
        ∃ root s', op.call (run TableOp.step mixedRun (Table.start (Pager.openMemory Buf.zero))).1.root
          (run TableOp.step mixedRun (Table.start (Pager.openMemory Buf.zero))).1.pager = .ok root s' :=
  run_refinesMap mixedRun (Pager.ready_openMemory Buf.zero) rfl (by decide) mixedRun_sound

-- The new cell goes onto a leaf with room for it, or both halves of the leaf fit.
def LeafFits (rowid : Int64) (payload : List UInt8) (_above : Nat) (_keys : List Int64) (data : PageData) :
    Prop :=
  cellLen payload + 2 ≤ available LEAF_HEADER_SIZE data ∨ SplitFits data rowid payload

instance (rowid : Int64) (payload : List UInt8) (above : Nat) (keys : List Int64) (data : PageData) :
    Decidable (LeafFits rowid payload above keys data) := by
  unfold LeafFits
  infer_instance

def CellsFit (s : Pager) (root : Nat) (rowid : Int64) (row : Row) : Prop :=
  Reaches (view s) rowid (LeafFits rowid (serializeRow row)) (s.header.totalPages + 1) 0 [] root

instance (s : Pager) (root : Nat) (rowid : Int64) (row : Row) : Decidable (CellsFit s root rowid row) := by
  unfold CellsFit
  infer_instance

def TableOp.Fitting (op : TableOp) (c : Table × Rows) : Prop :=
  match op with
  | Insert rowid row => c.2 rowid = none ∧ CellsFit c.1.pager c.1.root rowid row
  | InsertWithBuf rowid row _ => c.2 rowid = none ∧ CellsFit c.1.pager c.1.root rowid row
  | Delete _ => True
  | Update rowid row => CellsFit (left (deleteByRowid c.1.root rowid) c.1.pager) c.1.root rowid row
  | UpdateWithBuf rowid row _ => CellsFit (left (deleteByRowid c.1.root rowid) c.1.pager) c.1.root rowid row

instance (op : TableOp) (c : Table × Rows) : Decidable (op.Fitting c) := by
  unfold TableOp.Fitting
  split <;> infer_instance

-- The updates of one row leave an empty leaf without room. Its split makes the rowid the divider, and
-- the next such split does so once more.
def updatesRun : List TableOp :=
  [.Insert 5 (blobRow 2008), .Update 5 (blobRow 2008), .Update 5 (blobRow 2008), .Update 5 (blobRow 2008),
    .Update 5 (blobRow 2008)]

set_option maxRecDepth 10000 in
theorem updatesRun_fits :
    Meets TableOp.step TableOp.Fitting updatesRun (Table.start (Pager.openMemory Buf.zero)) := by
  decide +kernel

def findsNothing (t : Table) (rowid : Int64) : Bool :=
  match findByRowid t.root rowid t.pager with
  | .ok none _ => true
  | _ => false

theorem returns_of_findsNothing {t : Table} {rowid : Int64} (h : findsNothing t rowid = true) :
    Returns (findByRowid t.root rowid) t.pager none := by
  unfold findsNothing at h
  split at h
  · exact ⟨_, ‹_›⟩
  · cases h

set_option maxRecDepth 10000 in
theorem updatesRun_finds_nothing :
    findsNothing (run TableOp.step updatesRun (Table.start (Pager.openMemory Buf.zero))).1 5 = true := by
  decide +kernel

theorem updates_lose_row :
    Meets TableOp.step TableOp.Fitting updatesRun (Table.start (Pager.openMemory Buf.zero)) ∧
      (run TableOp.step updatesRun (Table.start (Pager.openMemory Buf.zero))).2 5 = some (blobRow 2008) ∧
      Returns (findByRowid (run TableOp.step updatesRun (Table.start (Pager.openMemory Buf.zero))).1.root 5)
        (run TableOp.step updatesRun (Table.start (Pager.openMemory Buf.zero))).1.pager none ∧
      ¬RefinesMap (run TableOp.step updatesRun (Table.start (Pager.openMemory Buf.zero))).1
        (run TableOp.step updatesRun (Table.start (Pager.openMemory Buf.zero))).2 := by
  have hrow : (run TableOp.step updatesRun (Table.start (Pager.openMemory Buf.zero))).2 5 =
      some (blobRow 2008) := rfl
  have hnone := returns_of_findsNothing updatesRun_finds_nothing
  refine ⟨updatesRun_fits, hrow, hnone, fun h => ?_⟩
  obtain ⟨s, hs⟩ := hnone
  obtain ⟨s', hs'⟩ := h.find 5
  rw [hs, hrow] at hs'
  cases hs'

def fullRun : List TableOp := [.Insert 1 (blobRow 2000), .Insert 2 (blobRow 2000)]

set_option maxRecDepth 10000 in
theorem fullRun_sound :
    Meets TableOp.step TableOp.Sound fullRun (Table.start (Pager.openMemory Buf.zero)) := by
  decide +kernel

-- A short row still fits beside them and is refused.
theorem insert_present_short :
    let t := (run TableOp.step fullRun (Table.start (Pager.openMemory Buf.zero))).1
    ∃ s', insert t.root 1 (blobRow 9) t.pager = .error (duplicateRowid 1) s' ∧
      (∃ entries, Returns (scanAll t.root) t.pager entries ∧ Returns (scanAll t.root) s' entries) ∧
      ∀ k, ∃ found, Returns (findByRowid t.root k) t.pager found ∧ Returns (findByRowid t.root k) s' found :=
  insert_present fullRun 1 (blobRow 9) (Pager.ready_openMemory Buf.zero) rfl (by decide) fullRun_sound
    (by set_option maxRecDepth 10000 in decide +kernel) (by set_option maxRecDepth 10000 in decide +kernel)

def scannedRowids (t : Table) : List Int64 :=
  match scanAll t.root t.pager with
  | .ok entries _ => entries.map Prod.fst
  | .error _ _ => []

def accepts (t : Table) (rowid : Int64) (row : Row) : Bool :=
  match insert t.root rowid row t.pager with
  | .ok _ _ => true
  | .error _ _ => false

theorem ok_of_accepts {t : Table} {rowid : Int64} {row : Row} (h : accepts t rowid row = true) :
    ∃ root s', insert t.root rowid row t.pager = .ok root s' := by
  unfold accepts at h
  split at h
  · exact ⟨_, _, ‹_›⟩
  · cases h

set_option maxRecDepth 10000 in
theorem fullRun_accepts :
    accepts (run TableOp.step fullRun (Table.start (Pager.openMemory Buf.zero))).1 1 (blobRow 1000) = true := by
  decide +kernel

set_option maxRecDepth 10000 in
-- A long one does not, and the split stores the rowid twice.
theorem duplicate_stored_twice :
    let t := (run TableOp.step fullRun (Table.start (Pager.openMemory Buf.zero))).1
    Meets TableOp.step TableOp.Sound fullRun (Table.start (Pager.openMemory Buf.zero)) ∧
      (∃ root s', insert t.root 1 (blobRow 1000) t.pager = .ok root s') ∧
      scannedRowids t = [1, 2] ∧ scannedRowids (t.after (insert t.root 1 (blobRow 1000))) = [1, 1, 2] :=
  ⟨fullRun_sound, ok_of_accepts fullRun_accepts, by decide +kernel, by decide +kernel⟩

end Samples

end BTree

end Kkdb
