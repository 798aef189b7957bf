import Kkdb.Vm.Purge

namespace Kkdb

open Lib

inductive RowWrite where
  | Insert (row : Row)
  | Update (row : Row)
  | Delete

namespace RowWrite

def apply : RowWrite → Option Row → Option Row
  | .Insert row, _ => some row
  | .Update row, _ => some row
  | .Delete, _ => none

-- An insert finds no row under its rowid; the others find one.
def Legal : RowWrite → Option Row → Prop
  | .Insert _, current => current = none
  | .Update _, current => current.isSome = true
  | .Delete, current => current.isSome = true

end RowWrite

abbrev RowKey := List Char × Int64

structure TableWrite where
  table : String
  rowid : Int64
  write : RowWrite

namespace TableWrite

def key (w : TableWrite) : RowKey := (toAsciiLowercase w.table, w.rowid)

-- The undo entry that `exec_insert`, `exec_update` and `exec_delete` record.
def entry (w : TableWrite) (txnId : Nat) (old : Row) : UndoEntry :=
  match w.write with
  | .Insert _ => .Insert w.table w.rowid txnId
  | .Update _ => .Update w.table w.rowid old txnId
  | .Delete => .Delete w.table w.rowid old txnId

end TableWrite

namespace UndoEntry

def key : UndoEntry → Option RowKey
  | .Insert table rowid _ => some (toAsciiLowercase table, rowid)
  | .Update table rowid _ _ => some (toAsciiLowercase table, rowid)
  | .Delete table rowid _ _ => some (toAsciiLowercase table, rowid)
  | .Savepoint _ _ => none

def oldRow : UndoEntry → Option Row
  | .Update _ _ row _ => some row
  | .Delete _ _ row _ => some row
  | _ => none

def hides : UndoEntry → Bool
  | .Insert _ _ _ => true
  | .Update _ _ _ _ => true
  | _ => false

end UndoEntry

-- The entries of one row lead from the row before them to the row after them.
inductive Path : Option Row → List UndoEntry → Option Row → Prop where
  | nil (row : Option Row) : Path row [] row
  | insert {table : String} {rowid : Int64} {txnId : Nat} (row : Row) {K : List UndoEntry}
      {last : Option Row} (h : Path (some row) K last) : Path none (.Insert table rowid txnId :: K) last
  | update {table : String} {rowid : Int64} {txnId : Nat} {old : Row} (row : Row) {K : List UndoEntry}
      {last : Option Row} (h : Path (some row) K last) :
      Path (some old) (.Update table rowid old txnId :: K) last
  | delete {table : String} {rowid : Int64} {txnId : Nat} {old : Row} {K : List UndoEntry}
      {last : Option Row} (h : Path none K last) :
      Path (some old) (.Delete table rowid old txnId :: K) last

-- At most one entry, or a delete and an insert after it.
def Simple : List UndoEntry → Prop
  | [] => True
  | [_] => True
  | [.Delete _ _ _ _, .Insert _ _ _] => True
  | _ => False

theorem Path.trans {a b c : Option Row} {K K' : List UndoEntry} (h : Path a K b) (h' : Path b K' c) :
    Path a (K ++ K') c := by
  induction h with
  | nil => exact h'
  | insert row _ ih => exact .insert row (ih h')
  | update row _ ih => exact .update row (ih h')
  | delete _ ih => exact .delete (ih h')

theorem Path.nil_eq {a b : Option Row} (h : Path a [] b) : a = b := by
  cases h
  rfl

theorem Path.entry (w : TableWrite) (txnId : Nat) {current : Option Row} (h : w.write.Legal current) :
    Path current [w.entry txnId (current.getD [])] (w.write.apply current) := by
  unfold TableWrite.entry
  cases hw : w.write with
  | Insert row =>
      rw [hw] at h
      rw [show current = none from h]
      exact .insert row (.nil _)
  | Update row =>
      rw [hw] at h
      obtain ⟨old, rfl⟩ := Option.isSome_iff_exists.mp h
      exact .update row (.nil _)
  | Delete =>
      rw [hw] at h
      obtain ⟨old, rfl⟩ := Option.isSome_iff_exists.mp h
      exact .delete (.nil _)

theorem Path.some_cons {row : Row} {K : List UndoEntry} {last : Option Row}
    (h : Path (some row) K last) :
    K = [] ∨ ∃ e K', K = e :: K' ∧ (e :: K').filterMap UndoEntry.oldRow ≠ [] := by
  cases h with
  | nil => exact .inl rfl
  | update => exact .inr ⟨_, _, rfl, by simp [UndoEntry.oldRow]⟩
  | delete => exact .inr ⟨_, _, rfl, by simp [UndoEntry.oldRow]⟩

-- The versions of a row that a reader gets are the right ones exactly when the chain
-- of entries that it must not see is simple.
theorem Path.shown_iff {first last : Option Row} {K : List UndoEntry} (h : Path first K last) :
    (if K.any UndoEntry.hides then [] else last.toList) ++ K.filterMap UndoEntry.oldRow =
      first.toList ↔ Simple K := by
  cases h with
  | nil => simp [Simple]
  | @insert table rowid txnId row K last h =>
      rcases h.some_cons with rfl | ⟨e, K', rfl, hne⟩
      · simp [Simple, UndoEntry.hides, UndoEntry.oldRow]
      · simp only [Simple, List.any_cons, UndoEntry.hides, Bool.true_or, if_true, List.nil_append,
          List.filterMap_cons_none (show UndoEntry.oldRow (.Insert table rowid txnId) = none from rfl),
          Option.toList_none, iff_false]
        exact hne
  | @update table rowid txnId old row K last h =>
      rcases h.some_cons with rfl | ⟨e, K', rfl, hne⟩
      · simp [Simple, UndoEntry.hides, UndoEntry.oldRow]
      · simp only [Simple, List.any_cons, UndoEntry.hides, Bool.true_or, if_true, List.nil_append,
          List.filterMap_cons_some (show UndoEntry.oldRow (.Update table rowid old txnId) = some old from rfl),
          Option.toList_some, iff_false, List.cons.injEq, true_and]
        exact hne
  | @delete table rowid txnId old K last h =>
      cases h with
      | nil => simp [Simple, UndoEntry.hides, UndoEntry.oldRow]
      | @insert table' rowid' txnId' row K last h =>
          rcases h.some_cons with rfl | ⟨e, K', rfl, hne⟩
          · simp [Simple, UndoEntry.hides, UndoEntry.oldRow]
          · simp only [Simple, List.any_cons, UndoEntry.hides, Bool.true_or, Bool.false_or, if_true,
              List.nil_append, List.filterMap_cons_some
                (show UndoEntry.oldRow (.Delete table rowid old txnId) = some old from rfl),
              List.filterMap_cons_none (show UndoEntry.oldRow (.Insert table' rowid' txnId') = none from rfl),
              Option.toList_some, iff_false, List.cons.injEq, true_and]
            exact hne

-- Transactions that write rows beside the registry and the undo log. A transaction
-- that is rolled back leaves neither rows nor entries, so it is not part of this.
structure Timeline where
  history : TransactionRegistry.History
  tables : RowKey → Option Row
  undoLog : UndoLog
  writes : List (Nat × TableWrite)
  seen : Nat → List Nat

namespace Timeline

inductive Event where
  | Begin
  | Commit (txnId : Nat)
  | Write (txnId : Nat) (write : TableWrite)

def start (tables : RowKey → Option Row) : Timeline where
  history := .start
  tables := tables
  undoLog := UndoLog.new
  writes := []
  seen := fun _ => []

-- `seen` keeps the transactions that had committed when one began.
def step : Event → Timeline → Timeline
  | .Begin, st => { st with
      history := st.history.step .Begin
      seen := Function.update st.seen st.history.registry.nextTxnId st.history.committed }
  | .Commit txnId, st => { st with history := st.history.step (.Commit txnId) }
  | .Write txnId w, st => { st with
      tables := Function.update st.tables w.key (w.write.apply (st.tables w.key))
      undoLog := st.undoLog.push (w.entry txnId ((st.tables w.key).getD []))
      writes := st.writes ++ [(txnId, w)] }

-- Only active transactions write and commit, and a row that another transaction
-- wrote is written only by one that began after the other's commit: no two
-- concurrent transactions write the same row.
def Legal : Event → Timeline → Prop
  | .Begin, _ => True
  | .Commit txnId, st => txnId ∈ st.history.registry.activeTxns
  | .Write txnId w, st => txnId ∈ st.history.registry.activeTxns ∧
      w.write.Legal (st.tables w.key) ∧
      ∀ e ∈ st.undoLog.entries, e.key = some w.key → e.txnId ≠ txnId → e.txnId ∈ st.seen txnId

def replay (tables : RowKey → Option Row) (writes : List (Nat × TableWrite)) : RowKey → Option Row :=
  writes.foldl (fun t w => Function.update t w.2.key (w.2.write.apply (t w.2.key))) tables

-- The undo entries on one row by transactions that the snapshot does not show.
def chain (snapshot : MvccSnapshot) (key : RowKey) (undoLog : UndoLog) : List UndoEntry :=
  undoLog.entries.filter fun e => e.key = some key ∧ snapshot.isVisible e.txnId = false

variable {st : Timeline} {txnId : Nat}

theorem key_entry (w : TableWrite) (txnId : Nat) (old : Row) :
    (w.entry txnId old).key = some w.key ∧ (w.entry txnId old).txnId = txnId := by
  unfold TableWrite.entry
  cases w.write <;> exact ⟨rfl, rfl⟩

-- The facts about the registry that hold in every state.
structure Sane (st : Timeline) : Prop where
  inv : st.history.Inv
  aborted : st.history.aborted = []
  seen : ∀ t, ∀ x ∈ st.seen t, x ∈ st.history.committed
  writers : ∀ e ∈ st.undoLog.entries, 0 < e.txnId

theorem sane_start (tables : RowKey → Option Row) : Sane (start tables) :=
  ⟨TransactionRegistry.History.inv_start, rfl, fun _ _ hx => (nomatch hx), fun _ he => (nomatch he)⟩

theorem sane_step {ev : Event} (hs : Sane st) (hev : Legal ev st) : Sane (step ev st) := by
  cases ev with
  | Begin =>
      refine ⟨TransactionRegistry.History.inv_begin hs.inv, hs.aborted, fun t x hx => ?_, hs.writers⟩
      by_cases ht : t = st.history.registry.nextTxnId
      · simp only [step, ht, Function.update_self] at hx
        exact hx
      · simp only [step, Function.update_of_ne ht] at hx
        exact hs.seen t x hx
  | Commit txnId =>
      refine ⟨TransactionRegistry.History.inv_commit hs.inv hev, hs.aborted, fun t x hx => ?_,
        hs.writers⟩
      have hmem : txnId ∈ st.history.registry.activeTxns := hev
      simp only [step, TransactionRegistry.History.step, if_pos hmem]
      exact List.mem_cons_of_mem _ (hs.seen t x hx)
  | Write txnId w =>
      refine ⟨hs.inv, hs.aborted, hs.seen, fun e he => ?_⟩
      rcases List.mem_append.mp he with he | he
      · exact hs.writers e he
      · rw [List.mem_singleton.mp he, (key_entry w txnId _).2]
        exact (hs.inv.active txnId hev.1).1

-- Later events neither take a commit back nor hand an id out twice.
structure Later (st st' : Timeline) : Prop where
  next : st.history.registry.nextTxnId ≤ st'.history.registry.nextTxnId
  committed : ∀ x ∈ st.history.committed, x ∈ st'.history.committed
  seen : ∀ t, t < st.history.registry.nextTxnId → st'.seen t = st.seen t

theorem later_step (ev : Event) (st : Timeline) : Later st (step ev st) := by
  cases ev with
  | Begin =>
      exact ⟨Nat.le_succ _, fun _ hx => hx, fun t ht => Function.update_of_ne (by omega) _ _⟩
  | Commit txnId =>
      refine ⟨Nat.le_refl _, fun x hx => ?_, fun _ _ => rfl⟩
      simp only [step, TransactionRegistry.History.step]
      split_ifs
      · exact List.mem_cons_of_mem _ hx
      · exact hx
  | Write txnId w => exact ⟨Nat.le_refl _, fun _ hx => hx, fun _ _ => rfl⟩

theorem later_run (events : List Event) (st : Timeline) : Later st (run step events st) := by
  induction events generalizing st with
  | nil => exact ⟨Nat.le_refl _, fun _ hx => hx, fun _ _ => rfl⟩
  | cons ev events ih =>
      have h₁ := later_step ev st
      have h₂ := ih (step ev st)
      exact ⟨Nat.le_trans h₁.next h₂.next, fun x hx => h₂.committed x (h₁.committed x hx),
        fun t ht => (h₂.seen t (Nat.lt_of_lt_of_le ht h₁.next)).trans (h₁.seen t ht)⟩

theorem sane_run {tables : RowKey → Option Row} {events : List Event}
    (h : Meets step Legal events (start tables)) : Sane (run step events (start tables)) :=
  run_invariant Sane (sane_start tables) (fun _ _ hs hev => sane_step hs hev) h

theorem isVisible_sane (hs : Sane st) (r x : Nat) (hpos : 0 < x) :
    (st.history.registry.snapshot r).isVisible x = true ↔ x = r ∨ x ∈ st.history.committed :=
  TransactionRegistry.History.isVisible_of_late hs.inv hpos
    (fun y hy => by rw [hs.aborted] at hy; cases hy)

-- A transaction that the snapshot shows finds no row written by one that it does not.
def Fresh (snapshot : MvccSnapshot) : Event → Timeline → Prop
  | .Write txnId w, st => snapshot.isVisible txnId = true → ∀ e ∈ st.undoLog.entries,
      e.key = some w.key → snapshot.isVisible e.txnId = true
  | _, _ => True

-- The writer began before the snapshot was taken, so what had committed by then is shown.
theorem fresh_write {now taken : Timeline} {r : Nat} {w : TableWrite} (hnow : Sane now)
    (htaken : Sane taken) (horder : Later now taken ∨ Later taken now)
    (hr : r ∈ taken.history.registry.activeTxns) (hev : Legal (.Write txnId w) now) :
    Fresh (taken.history.registry.snapshot r) (.Write txnId w) now := by
  intro hvis e he hkey
  obtain ⟨hact, -, hserial⟩ := hev
  by_cases heq : e.txnId = txnId
  · rw [heq]
    exact hvis
  obtain ⟨hpos, hlt, -, -⟩ := hnow.inv.active txnId hact
  have hbegun : txnId < taken.history.registry.nextTxnId := by
    rcases (isVisible_sane htaken r txnId hpos).mp hvis with rfl | hc
    · exact (htaken.inv.active _ hr).2.1
    · exact (htaken.inv.committed _ hc).2.1
  have hseen : now.seen txnId = taken.seen txnId := by
    rcases horder with h | h
    · exact (h.seen txnId hlt).symm
    · exact h.seen txnId hbegun
  have hc : e.txnId ∈ taken.history.committed :=
    htaken.seen txnId _ (by rw [← hseen]; exact hserial e he hkey heq)
  exact (isVisible_sane htaken r _ (hnow.writers e he)).mpr (.inr hc)

theorem meets_fresh {tables : RowKey → Option Row} {before after : List Event} {r : Nat}
    (h : Meets step Legal (before ++ after) (start tables))
    (hr : r ∈ (run step before (start tables)).history.registry.activeTxns) :
    Meets step (fun ev st => Legal ev st ∧
      Fresh ((run step before (start tables)).history.registry.snapshot r) ev st)
      (before ++ after) (start tables) := by
  have htaken : Sane (run step before (start tables)) := sane_run (meets_append h).1
  refine meets_of_prefixes fun pre ev post heq => ?_
  rw [heq] at h
  have hlegal := h.at
  refine ⟨hlegal, ?_⟩
  cases ev with
  | Begin => trivial
  | Commit t => trivial
  | Write t w =>
      refine fresh_write (sane_run (meets_append h).1) htaken ?_ hr hlegal
      -- one of the two points comes first
      rcases List.append_eq_append_iff.mp heq with ⟨rest, rfl, -⟩ | ⟨rest, rfl, -⟩
      · right
        rw [run_append]
        exact later_run rest _
      · left
        rw [run_append]
        exact later_run rest _

-- The current row is what the invisible entries lead to from the row of the visible transactions.
def Explained (snapshot : MvccSnapshot) (tables : RowKey → Option Row) (st : Timeline) : Prop :=
  ∀ key, Path (replay tables (st.writes.filter fun w => snapshot.isVisible w.1) key)
    (chain snapshot key st.undoLog) (st.tables key)

theorem replay_snoc (tables : RowKey → Option Row) (writes : List (Nat × TableWrite)) (t : Nat)
    (w : TableWrite) : replay tables (writes ++ [(t, w)]) =
      Function.update (replay tables writes) w.key (w.write.apply (replay tables writes w.key)) := by
  rw [replay, List.foldl_append]
  rfl

theorem explained_step {snapshot : MvccSnapshot} {tables : RowKey → Option Row} {ev : Event}
    (h : Explained snapshot tables st) (hev : Legal ev st ∧ Fresh snapshot ev st) :
    Explained snapshot tables (step ev st) := by
  cases ev with
  | Begin => exact h
  | Commit t => exact h
  | Write t w =>
      obtain ⟨⟨-, hlegal, -⟩, hfresh⟩ := hev
      obtain ⟨hkey, htxn⟩ := key_entry w t ((st.tables w.key).getD [])
      intro key
      simp only [step, chain, UndoLog.push, List.filter_append]
      have hpath := h key
      by_cases hk : key = w.key
      swap
      · have hdrop : ([w.entry t ((st.tables w.key).getD [])].filter fun e =>
            e.key = some key ∧ snapshot.isVisible e.txnId = false) = [] := by
          rw [List.filter_cons_of_neg, List.filter_nil]
          simp [hkey, Ne.symm hk]
        have hsame : replay tables ((st.writes.filter fun w => snapshot.isVisible w.1) ++
            [(t, w)].filter fun w => snapshot.isVisible w.1) key =
            replay tables (st.writes.filter fun w => snapshot.isVisible w.1) key := by
          cases hv : snapshot.isVisible t with
          | true =>
              rw [List.filter_cons_of_pos (by exact hv), List.filter_nil, replay_snoc,
                Function.update_of_ne hk]
          | false => rw [List.filter_cons_of_neg (by simp [hv]), List.filter_nil, List.append_nil]
        rw [hdrop, List.append_nil, hsame, Function.update_of_ne hk]
        exact hpath
      subst hk
      rw [Function.update_self]
      cases hv : snapshot.isVisible t with
      | true =>
          -- no invisible entry before a visible one
          have hempty : chain snapshot w.key st.undoLog = [] := by
            rw [chain, List.filter_eq_nil_iff]
            intro e he hc
            simp only [decide_eq_true_eq] at hc
            rw [hfresh hv e he hc.1] at hc
            exact Bool.noConfusion hc.2
          rw [hempty] at hpath
          rw [List.filter_cons_of_pos (by exact hv), List.filter_nil, replay_snoc, Function.update_self,
            hpath.nil_eq, ← chain, hempty, List.filter_cons_of_neg (by simp [htxn, hv]),
            List.filter_nil, List.append_nil]
          exact .nil _
      | false =>
          rw [List.filter_cons_of_neg (by simp [hv]), List.filter_nil, List.append_nil,
            List.filter_cons_of_pos (by simp [hkey, htxn, hv]), List.filter_nil]
          exact hpath.trans (Path.entry w t hlegal)

-- The scan of `eval_from` under a snapshot.
def visibleRows (rows : List (Int64 × Row)) (delta : Finset Int64 × List (Int64 × Row)) :
    List (Int64 × Row) :=
  rows.filter (fun row => row.1 ∉ delta.1) ++ delta.2

def versions (rows : List (Int64 × Row)) (rowid : Int64) : List Row :=
  (rows.filter fun row => row.1 = rowid).map (·.2)

section Delta

variable (snapshot : MvccSnapshot) (tableName : String) (rowid : Int64)

theorem hidden_eq_some (e : UndoEntry) : e.hidden snapshot tableName = some rowid ↔
    e.key = some (toAsciiLowercase tableName, rowid) ∧ snapshot.isVisible e.txnId = false ∧
      e.hides = true := by
  cases e with
  | Insert table r txnId =>
      simp only [UndoEntry.hidden, UndoEntry.key, UndoEntry.txnId, UndoEntry.hides]
      split_ifs with hc
      · simp [hc]
      · simp only [Option.some.injEq, Prod.mk.injEq, false_iff]
        exact fun hk => hc ⟨hk.1.1, hk.2.1⟩
  | Update table r row txnId =>
      simp only [UndoEntry.hidden, UndoEntry.key, UndoEntry.txnId, UndoEntry.hides]
      split_ifs with hc
      · simp [hc]
      · simp only [Option.some.injEq, Prod.mk.injEq, false_iff]
        exact fun hk => hc ⟨hk.1.1, hk.2.1⟩
  | Delete table r row txnId => simp [UndoEntry.hidden, UndoEntry.hides]
  | Savepoint name txnId => simp [UndoEntry.hidden, UndoEntry.hides]

theorem mem_hidden_iff (undoLog : UndoLog) :
    rowid ∈ (computeVisibilityDelta undoLog snapshot tableName).1 ↔
      (chain snapshot (toAsciiLowercase tableName, rowid) undoLog).any UndoEntry.hides = true := by
  rw [mem_computeVisibilityDelta, List.any_eq_true]
  simp only [hidden_eq_some, chain, List.mem_filter, decide_eq_true_eq]
  exact exists_congr fun e => by tauto

theorem versions_append (rows rows' : List (Int64 × Row)) :
    versions (rows ++ rows') rowid = versions rows rowid ++ versions rows' rowid := by
  simp [versions]

theorem restored_filter (e : UndoEntry) :
    versions (e.restored snapshot tableName).toList rowid =
      if e.key = some (toAsciiLowercase tableName, rowid) ∧ snapshot.isVisible e.txnId = false
      then e.oldRow.toList else [] := by
  cases e with
  | Insert table r txnId => simp [UndoEntry.restored, UndoEntry.oldRow, versions]
  | Savepoint name txnId => simp [UndoEntry.restored, UndoEntry.oldRow, versions]
  | Update table r row txnId =>
      simp only [UndoEntry.restored, UndoEntry.key, UndoEntry.txnId, UndoEntry.oldRow,
        Option.some.injEq, Prod.mk.injEq]
      by_cases ht : toAsciiLowercase table = toAsciiLowercase tableName <;>
        by_cases hv : snapshot.isVisible txnId = false <;> by_cases hr : r = rowid <;>
        simp [ht, hv, hr, versions]
  | Delete table r row txnId =>
      simp only [UndoEntry.restored, UndoEntry.key, UndoEntry.txnId, UndoEntry.oldRow,
        Option.some.injEq, Prod.mk.injEq]
      by_cases ht : toAsciiLowercase table = toAsciiLowercase tableName <;>
        by_cases hv : snapshot.isVisible txnId = false <;> by_cases hr : r = rowid <;>
        simp [ht, hv, hr, versions]

theorem versions_restored (undoLog : UndoLog) :
    versions (computeVisibilityDelta undoLog snapshot tableName).2 rowid =
      (chain snapshot (toAsciiLowercase tableName, rowid) undoLog).filterMap UndoEntry.oldRow := by
  rw [computeVisibilityDelta_restored, chain]
  induction undoLog.entries with
  | nil => rfl
  | cons e entries ih =>
      have hsplit : (e :: entries).filterMap (UndoEntry.restored snapshot tableName) =
          (e.restored snapshot tableName).toList ++
            entries.filterMap (UndoEntry.restored snapshot tableName) := by
        rw [List.filterMap_cons]
        cases e.restored snapshot tableName <;> rfl
      rw [hsplit, versions_append, ih, restored_filter]
      split_ifs with hc
      · rw [List.filter_cons_of_pos (by simpa using hc), List.filterMap_cons]
        cases e.oldRow <;> rfl
      · rw [List.filter_cons_of_neg (by simpa using hc)]
        rfl

theorem versions_kept (rows : List (Int64 × Row)) (delta : Finset Int64 × List (Int64 × Row)) :
    versions (rows.filter fun row => row.1 ∉ delta.1) rowid =
      if rowid ∈ delta.1 then [] else versions rows rowid := by
  unfold versions
  rw [List.filter_filter]
  split_ifs with hmem
  · rw [List.map_eq_nil_iff, List.filter_eq_nil_iff]
    intro row _ hc
    simp only [Bool.and_eq_true, decide_eq_true_eq] at hc
    exact hc.2 (by rw [hc.1]; exact hmem)
  · congr 1
    refine List.filter_congr fun row _ => ?_
    by_cases hr : row.1 = rowid <;> simp [hr, hmem]

end Delta

-- Under a snapshot a table shows what the visible transactions made of it exactly when
-- no row has more than a simple chain of entries that the reader must not see.
theorem computeVisibilityDelta_exact_iff (tables : RowKey → Option Row) (before after : List Event)
    (r : Nat) (tableName : String) (rows : List (Int64 × Row))
    (hlegal : Meets step Legal (before ++ after) (start tables))
    (hr : r ∈ (run step before (start tables)).history.registry.activeTxns)
    (hrows : ∀ rowid, versions rows rowid =
      ((run step (before ++ after) (start tables)).tables (toAsciiLowercase tableName, rowid)).toList) :
    (∀ rowid, versions (visibleRows rows (computeVisibilityDelta
        (run step (before ++ after) (start tables)).undoLog
        ((run step before (start tables)).history.registry.snapshot r) tableName)) rowid =
      (replay tables ((run step (before ++ after) (start tables)).writes.filter fun w =>
        ((run step before (start tables)).history.registry.snapshot r).isVisible w.1)
        (toAsciiLowercase tableName, rowid)).toList) ↔
    ∀ rowid, Simple (chain ((run step before (start tables)).history.registry.snapshot r)
      (toAsciiLowercase tableName, rowid) (run step (before ++ after) (start tables)).undoLog) := by
  have hexp : Explained ((run step before (start tables)).history.registry.snapshot r) tables
      (run step (before ++ after) (start tables)) :=
    run_invariant (Explained _ tables) (fun key => .nil _)
      (fun _ _ h hev => explained_step h hev) (meets_fresh hlegal hr)
  generalize (run step before (start tables)).history.registry.snapshot r = snapshot at hexp ⊢
  generalize run step (before ++ after) (start tables) = st at hexp hrows ⊢
  refine forall_congr' fun rowid => ?_
  rw [← (hexp (toAsciiLowercase tableName, rowid)).shown_iff, visibleRows, versions_append,
    versions_kept, versions_restored, hrows]
  simp only [mem_hidden_iff]

def hiddenInsert : List Event :=
  [.Begin, .Begin, .Write 2 ⟨"t", 5, .Insert [.Null]⟩, .Commit 2]

theorem computeVisibilityDelta_exact_hiddenInsert :
    (∀ rowid, versions (visibleRows [(5, [.Null])] (computeVisibilityDelta
        (run step ([.Begin] ++ hiddenInsert.drop 1) (start fun _ => none)).undoLog
        ((run step [.Begin] (start fun _ => none)).history.registry.snapshot 1) "t")) rowid =
      (replay (fun _ => none) ((run step ([.Begin] ++ hiddenInsert.drop 1)
        (start fun _ => none)).writes.filter fun w =>
          ((run step [.Begin] (start fun _ => none)).history.registry.snapshot 1).isVisible w.1)
        (toAsciiLowercase "t", rowid)).toList) ↔
    ∀ rowid, Simple (chain ((run step [.Begin] (start fun _ => none)).history.registry.snapshot 1)
      (toAsciiLowercase "t", rowid)
      (run step ([.Begin] ++ hiddenInsert.drop 1) (start fun _ => none)).undoLog) := by
  refine computeVisibilityDelta_exact_iff (fun _ => none) [.Begin] (hiddenInsert.drop 1) 1 "t"
    [(5, [.Null])] ⟨trivial, trivial, ⟨by decide, rfl, fun _ he => (nomatch he)⟩,
      (by decide : 2 ∈ [1, 2]), trivial⟩
    (by decide) fun rowid => ?_
  by_cases h : rowid = 5
  · rw [h]
    decide
  · have hkey : (toAsciiLowercase "t", rowid) ≠ (⟨"t", 5, .Insert [.Null]⟩ : TableWrite).key :=
      fun hk => h (congrArg Prod.snd hk)
    have hnone : (run step ([.Begin] ++ hiddenInsert.drop 1) (start fun _ => none)).tables
        (toAsciiLowercase "t", rowid) = none := Function.update_of_ne hkey _ _
    rw [hnone, versions, List.filter_cons_of_neg (by simpa using Ne.symm h)]
    rfl

-- Two updates of one row by a transaction that the reader does not see: the row is
-- shown twice, with both old versions.
def twoUpdates : List Event :=
  [.Begin, .Write 1 ⟨"t", 5, .Insert [.Null]⟩, .Commit 1, .Begin, .Begin,
    .Write 3 ⟨"t", 5, .Update [.Integer 1]⟩, .Write 3 ⟨"t", 5, .Update [.Integer 2]⟩]

theorem computeVisibilityDelta_doubles_row :
    versions (visibleRows [(5, [.Integer 2])] (computeVisibilityDelta
        (run step twoUpdates (start fun _ => none)).undoLog
        ((run step (twoUpdates.take 4) (start fun _ => none)).history.registry.snapshot 2) "t")) 5 =
      [[.Null], [.Integer 1]] ∧
    (replay (fun _ => none) ((run step twoUpdates (start fun _ => none)).writes.filter fun w =>
        ((run step (twoUpdates.take 4) (start fun _ => none)).history.registry.snapshot 2).isVisible
          w.1) (toAsciiLowercase "t", 5)).toList = [[.Null]] := by
  decide

end Timeline

end Kkdb
