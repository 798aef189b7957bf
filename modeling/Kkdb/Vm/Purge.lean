import Kkdb.Vm.Snapshot

namespace Kkdb

open Lib

namespace UndoEntry

def hidden (snapshot : MvccSnapshot) (tableName : String) : UndoEntry → Option Int64
  | .Insert table rowid txnId =>
      if toAsciiLowercase table = toAsciiLowercase tableName ∧ snapshot.isVisible txnId = false then
        some rowid
      else none
  | .Update table rowid _ txnId =>
      if toAsciiLowercase table = toAsciiLowercase tableName ∧ snapshot.isVisible txnId = false then
        some rowid
      else none
  | _ => none

def restored (snapshot : MvccSnapshot) (tableName : String) : UndoEntry → Option (Int64 × Row)
  | .Update table rowid oldRow txnId =>
      if toAsciiLowercase table = toAsciiLowercase tableName ∧ snapshot.isVisible txnId = false then
        some (rowid, oldRow)
      else none
  | .Delete table rowid oldRow txnId =>
      if toAsciiLowercase table = toAsciiLowercase tableName ∧ snapshot.isVisible txnId = false then
        some (rowid, oldRow)
      else none
  | _ => none

end UndoEntry

section Delta

variable (snapshot : MvccSnapshot) (tableName : String)

theorem visibilityStep_eq (delta : Finset Int64 × List (Int64 × Row)) (e : UndoEntry) :
    visibilityStep snapshot tableName delta e =
      ((e.hidden snapshot tableName).elim delta.1 (fun rowid => insert rowid delta.1),
        delta.2 ++ (e.restored snapshot tableName).toList) := by
  cases e with
  | Savepoint name txnId =>
      simp only [visibilityStep, UndoEntry.hidden, UndoEntry.restored, Option.elim, Option.toList,
        List.append_nil]
  | _ =>
      simp only [visibilityStep, UndoEntry.hidden, UndoEntry.restored]
      split_ifs <;> simp only [Option.elim, Option.toList, List.append_nil]

theorem foldl_visibilityStep (entries : List UndoEntry) (delta : Finset Int64 × List (Int64 × Row)) :
    (∀ rowid, rowid ∈ (entries.foldl (visibilityStep snapshot tableName) delta).1 ↔
      rowid ∈ delta.1 ∨ ∃ e ∈ entries, e.hidden snapshot tableName = some rowid) ∧
    (entries.foldl (visibilityStep snapshot tableName) delta).2 =
      delta.2 ++ entries.filterMap (UndoEntry.restored snapshot tableName) := by
  induction entries generalizing delta with
  | nil => simp
  | cons e entries ih =>
      obtain ⟨hhide, hback⟩ := ih (visibilityStep snapshot tableName delta e)
      rw [List.foldl_cons]
      constructor
      · intro rowid
        rw [hhide, visibilityStep_eq]
        cases hh : e.hidden snapshot tableName with
        | none => simp [hh]
        | some r =>
            simp only [Option.elim, Finset.mem_insert, List.mem_cons, exists_eq_or_imp, hh,
              Option.some.injEq, eq_comm (a := r)]
            tauto
      · rw [hback, visibilityStep_eq, List.filterMap_cons]
        cases e.restored snapshot tableName with
        | none => simp
        | some r => simp

theorem mem_computeVisibilityDelta (undoLog : UndoLog) (rowid : Int64) :
    rowid ∈ (computeVisibilityDelta undoLog snapshot tableName).1 ↔
      ∃ e ∈ undoLog.entries, e.hidden snapshot tableName = some rowid := by
  rw [computeVisibilityDelta, (foldl_visibilityStep snapshot tableName _ _).1]
  simp

theorem computeVisibilityDelta_restored (undoLog : UndoLog) :
    (computeVisibilityDelta undoLog snapshot tableName).2 =
      undoLog.entries.filterMap (UndoEntry.restored snapshot tableName) := by
  rw [computeVisibilityDelta, (foldl_visibilityStep snapshot tableName _ _).2, List.nil_append]

end Delta

theorem filterMap_filter_eq_iff {α β : Type} (p : α → Bool) (f : α → Option β) (l : List α) :
    (l.filter p).filterMap f = l.filterMap f ↔ ∀ a ∈ l, p a = false → f a = none := by
  have hlen : ∀ l : List α, ((l.filter p).filterMap f).length ≤ (l.filterMap f).length := fun l =>
    (List.filter_sublist.filterMap f).length_le
  induction l with
  | nil => simp
  | cons a l ih =>
      cases hp : p a with
      | true =>
          have hhead : ((a :: l).filter p).filterMap f = (a :: l).filterMap f ↔
              (l.filter p).filterMap f = l.filterMap f := by
            rw [List.filter_cons_of_pos hp, List.filterMap_cons, List.filterMap_cons]
            cases f a <;> simp
          refine hhead.trans (ih.trans ?_)
          simp [hp]
      | false =>
          rw [List.filter_cons_of_neg (by simp [hp]), List.filterMap_cons]
          cases hf : f a with
          | none => simp [ih, hp, hf]
          | some b =>
              refine ⟨fun heq => ?_, fun hall => absurd (hall a List.mem_cons_self hp) (by simp [hf])⟩
              have hle := hlen l
              rw [heq, List.length_cons] at hle
              omega

namespace UndoLog

-- Another entry that is kept hides the same row from the reader.
def Covered (undoLog : UndoLog) (snapshot : MvccSnapshot) (min : Nat) : UndoEntry → Prop
  | .Insert table rowid _ => ∃ e ∈ undoLog.entries, min ≤ e.txnId ∧ e.hidden snapshot table = some rowid
  | .Savepoint _ _ => True
  | _ => False

variable {undoLog : UndoLog} {snapshot : MvccSnapshot} {min : Nat}

theorem hidden_congr {table tableName : String} (e : UndoEntry)
    (h : toAsciiLowercase table = toAsciiLowercase tableName) :
    e.hidden snapshot table = e.hidden snapshot tableName := by
  cases e <;> simp only [UndoEntry.hidden, h]

-- A purge leaves what a reader computes for every table exactly when each dropped
-- entry is visible to the reader or an insert that is covered.
theorem purge_delta_iff : (∀ tableName, computeVisibilityDelta (undoLog.purge min) snapshot tableName =
      computeVisibilityDelta undoLog snapshot tableName) ↔
    ∀ e ∈ undoLog.entries, e.txnId < min → snapshot.isVisible e.txnId = false →
      undoLog.Covered snapshot min e := by
  have hkept : ∀ e : UndoEntry, decide (min ≤ e.txnId) = false ↔ e.txnId < min := by simp
  constructor
  · intro hall e he hlt hinv
    have hback : ∀ tableName, e.restored snapshot tableName = none := by
      intro tableName
      have h := congrArg Prod.snd (hall tableName)
      rw [computeVisibilityDelta_restored, computeVisibilityDelta_restored, purge,
        filterMap_filter_eq_iff] at h
      exact h e he ((hkept e).mpr hlt)
    cases e with
    | Insert table rowid txnId =>
        have hmem : rowid ∈ (computeVisibilityDelta undoLog snapshot table).1 :=
          (mem_computeVisibilityDelta snapshot table undoLog rowid).mpr
            ⟨_, he, if_pos ⟨rfl, hinv⟩⟩
        rw [← hall table, mem_computeVisibilityDelta] at hmem
        obtain ⟨e', he', hhide⟩ := hmem
        obtain ⟨hin, hle⟩ := List.mem_filter.mp he'
        exact ⟨e', hin, by simpa using hle, hhide⟩
    | Update table rowid oldRow txnId =>
        have h := hback table
        rw [UndoEntry.restored, if_pos ⟨rfl, hinv⟩] at h
        cases h
    | Delete table rowid oldRow txnId =>
        have h := hback table
        rw [UndoEntry.restored, if_pos ⟨rfl, hinv⟩] at h
        cases h
    | Savepoint name txnId => trivial
  · intro hcov tableName
    refine Prod.ext ?_ ?_
    · refine Finset.ext fun rowid => ?_
      rw [mem_computeVisibilityDelta, mem_computeVisibilityDelta]
      constructor
      · rintro ⟨e, he, hhide⟩
        exact ⟨e, (List.mem_filter.mp he).1, hhide⟩
      · rintro ⟨e, he, hhide⟩
        by_cases hlt : e.txnId < min
        swap
        · exact ⟨e, List.mem_filter.mpr ⟨he, by simpa using hlt⟩, hhide⟩
        cases e with
        | Insert table r txnId =>
            simp only [UndoEntry.hidden] at hhide
            split_ifs at hhide with hrel
            obtain rfl := Option.some.inj hhide
            obtain ⟨e', he', hle, hhide'⟩ := hcov _ he hlt hrel.2
            rw [hidden_congr e' hrel.1] at hhide'
            exact ⟨e', List.mem_filter.mpr ⟨he', by simpa using hle⟩, hhide'⟩
        | Update table r oldRow txnId =>
            simp only [UndoEntry.hidden] at hhide
            split_ifs at hhide with hrel
            exact (hcov _ he hlt hrel.2).elim
        | Delete table r oldRow txnId => cases hhide
        | Savepoint name txnId => cases hhide
    · rw [computeVisibilityDelta_restored, computeVisibilityDelta_restored, purge,
        filterMap_filter_eq_iff]
      intro e he hlt
      rw [hkept] at hlt
      cases e with
      | Insert table r txnId => rfl
      | Update table r oldRow txnId =>
          simp only [UndoEntry.restored]
          split_ifs with hrel
          · exact (hcov _ he hlt hrel.2).elim
          · rfl
      | Delete table r oldRow txnId =>
          simp only [UndoEntry.restored]
          split_ifs with hrel
          · exact (hcov _ he hlt hrel.2).elim
          · rfl
      | Savepoint name txnId => rfl

end UndoLog

-- Several transactions that share the registry and the undo log. Each keeps the
-- snapshot taken when it began.
structure MvccState where
  registry : TransactionRegistry
  undoLog : UndoLog
  snapshots : List MvccSnapshot

namespace MvccState

inductive Op where
  | Begin
  | Commit (txnId : Nat)
  | Abort (txnId : Nat)
  | Push (entry : UndoEntry)

def start : MvccState where
  registry := TransactionRegistry.new
  undoLog := UndoLog.new
  snapshots := []

def step : Op → MvccState → MvccState
  | .Begin, st => { st with
      registry := st.registry.begin
      snapshots := st.registry.begin.snapshot st.registry.nextTxnId :: st.snapshots }
  | .Commit txnId, st => { st with registry := st.registry.commit txnId }
  | .Abort txnId, st => { st with registry := st.registry.abort txnId }
  | .Push entry, st => { st with undoLog := st.undoLog.push entry }

-- The snapshots whose reader is still active.
def Reader (st : MvccState) (snapshot : MvccSnapshot) : Prop :=
  snapshot ∈ st.snapshots ∧ snapshot.readerTxnId ∈ st.registry.activeTxns

theorem autoPurge_invisible_iff (ops : List Op) :
    (∀ snapshot, (run step ops start).Reader snapshot → ∀ tableName,
        computeVisibilityDelta ((run step ops start).registry.autoPurge (run step ops start).undoLog)
          snapshot tableName =
        computeVisibilityDelta (run step ops start).undoLog snapshot tableName) ↔
      ∀ snapshot, (run step ops start).Reader snapshot → ∀ e ∈ (run step ops start).undoLog.entries,
        e.txnId < (run step ops start).registry.minActiveTxnId → snapshot.isVisible e.txnId = false →
          (run step ops start).undoLog.Covered snapshot (run step ops start).registry.minActiveTxnId e :=
  forall_congr' fun _ => forall_congr' fun _ => UndoLog.purge_delta_iff

-- Transaction 2 begins while 1 is active; 1 changes a row and commits, and its undo
-- entry is dropped although 2 still needs it.
def purgedHistory : List Op :=
  [.Begin, .Begin, .Push (.Update "t" 5 [.Null] 1), .Commit 1]

theorem autoPurge_drops_needed : ∃ snapshot, (run step purgedHistory start).Reader snapshot ∧
    (computeVisibilityDelta (run step purgedHistory start).undoLog snapshot "t").2 = [(5, [.Null])] ∧
    (computeVisibilityDelta ((run step purgedHistory start).registry.autoPurge
      (run step purgedHistory start).undoLog) snapshot "t").2 = [] := by
  refine ⟨⟨2, [1, 2], 0⟩, ⟨List.mem_cons_self, ?_⟩, ?_, ?_⟩ <;> decide

end MvccState

end Kkdb
