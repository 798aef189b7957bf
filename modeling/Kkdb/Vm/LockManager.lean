import Kkdb.Error
import Kkdb.Lib.Assoc
import Kkdb.Lib.State
import Kkdb.Vm.Mvcc

namespace Kkdb

open Lib

inductive LockMode where
  | Shared
  | Exclusive
  deriving DecidableEq, Repr

def LockMode.name : LockMode → String
  | .Shared => "Shared"
  | .Exclusive => "Exclusive"

structure LockEntry where
  mode : LockMode
  holderTxn : Nat
  deriving DecidableEq, Repr

-- Both hash maps are lists of their entries.
structure LockTable where
  locks : List (List Char × List LockEntry)
  waiters : List (Nat × List (List Char))

namespace LockTable

def new : LockTable where
  locks := []
  waiters := []

def entries (lt : LockTable) (tbl : List Char) : List LockEntry := lookupD lt.locks tbl []

def setEntries (lt : LockTable) (tbl : List Char) (es : List LockEntry) : LockTable :=
  { lt with locks := put tbl es lt.locks }

def waiting (lt : LockTable) (txnId : Nat) : List (List Char) := lookupD lt.waiters txnId []

-- The transactions that `txn` is directly waiting for, itself left out.
def blockers (lt : LockTable) (txn : Nat) : List Nat :=
  ((lt.waiting txn).flatMap fun tbl => (lt.entries tbl).map (·.holderTxn)).filter fun h => h ≠ txn

def explore : List Nat → List Nat → List Nat → List Nat × List Nat
  | [], visited, stack => (visited, stack)
  | holder :: holders, visited, stack =>
      if holder ∈ visited then explore holders visited stack
      else explore holders (holder :: visited) (holder :: stack)

-- The walk of `has_cycle`. A transaction is put on the stack once, and only if it holds a lock.
def walk (lt : LockTable) (start : Nat) : Nat → List Nat → List Nat → Bool
  | 0, _, _ => false
  | _ + 1, _, [] => false
  | fuel + 1, visited, txn :: stack =>
      if start ∈ lt.blockers txn then true
      else walk lt start fuel (explore (lt.blockers txn) visited stack).1
        (explore (lt.blockers txn) visited stack).2

def hasCycle (lt : LockTable) (start : Nat) : Bool :=
  lt.walk start ((lt.locks.map fun e => e.2.length).sum + 2) [] [start]

def wait (lt : LockTable) (txnId : Nat) (tbl : List Char) : LockTable :=
  { lt with waiters := put txnId (lt.waiting txnId ++ [tbl]) lt.waiters }

def stopWaiting (lt : LockTable) (txnId : Nat) (tbl : List Char) : LockTable :=
  let tables := (lt.waiting txnId).filter fun t => t ≠ tbl
  { lt with waiters := (put txnId tables lt.waiters).filter (fun e => e.1 ≠ txnId ∨ e.2 ≠ []) }

def upgrade (txnId : Nat) : List LockEntry → List LockEntry
  | [] => []
  | e :: es => if e.holderTxn = txnId then { e with mode := .Exclusive } :: es else e :: upgrade txnId es

def conflicts (mode : LockMode) (txnId : Nat) (e : LockEntry) : Bool :=
  e.holderTxn ≠ txnId ∧ ¬(e.mode = .Shared ∧ mode = .Shared)

def deadlockDetected (txnId holder : Nat) (tbl : List Char) : Fault :=
  .Err (.Internal ("Deadlock detected: txn " ++ toString txnId ++ " and txn " ++ toString holder ++
    " form a cycle on table `" ++ String.ofList tbl ++ "`"))

def lockConflict (tbl : List Char) (e : LockEntry) (txnId : Nat) (mode : LockMode) : Fault :=
  .Err (.Internal ("Lock conflict: table `" ++ String.ofList tbl ++ "` is " ++ e.mode.name ++
    "-locked by txn " ++ toString e.holderTxn ++ ", txn " ++ toString txnId ++ " cannot acquire " ++
    mode.name))

-- A transaction that holds a lock on the table is not checked against the other holders.
def tryAcquire (table : String) (mode : LockMode) (txnId : Nat) : EStateM Fault LockTable Unit :=
  fun lt =>
    let tbl := toAsciiLowercase table
    let es := lt.entries tbl
    let lt := lt.setEntries tbl es
    if ∃ e ∈ es, e.holderTxn = txnId then
      if mode = .Exclusive then .ok () (lt.setEntries tbl (upgrade txnId es)) else .ok () lt
    else match es.find? (conflicts mode txnId) with
      | some e =>
          let lt := lt.wait txnId tbl
          if lt.hasCycle txnId then
            .error (deadlockDetected txnId e.holderTxn tbl) (lt.stopWaiting txnId tbl)
          else .error (lockConflict tbl e txnId mode) (lt.stopWaiting txnId tbl)
      | none => .ok () (lt.setEntries tbl (es ++ [{ mode := mode, holderTxn := txnId }]))

def releaseAll (lt : LockTable) (txnId : Nat) : LockTable where
  locks := (lt.locks.map fun e => (e.1, e.2.filter fun l => l.holderTxn ≠ txnId)).filter
    fun e => e.2 ≠ []
  waiters := lt.waiters.filter fun e => e.1 ≠ txnId

inductive LockOp where
  | TryAcquire (table : String) (mode : LockMode) (txnId : Nat)
  | ReleaseAll (txnId : Nat)

def step : LockOp → LockTable → LockTable
  | .TryAcquire table mode txnId, lt => left (tryAcquire table mode txnId) lt
  | .ReleaseAll txnId, lt => lt.releaseAll txnId

-- A transaction that asks for an exclusive lock on a table it has locked already is the only
-- one with a lock on it.
def SoleUpgrade : LockOp → LockTable → Prop
  | .TryAcquire table .Exclusive txnId, lt =>
      (∃ e ∈ lt.entries (toAsciiLowercase table), e.holderTxn = txnId) →
        ∀ e ∈ lt.entries (toAsciiLowercase table), e.holderTxn = txnId
  | _, _ => True

-- No other transaction holds a lock on a table that one holds exclusively.
def Excludes (es : List LockEntry) : Prop :=
  ∀ e ∈ es, e.mode = .Exclusive → ∀ e' ∈ es, e'.holderTxn = e.holderTxn

def Exclusion (lt : LockTable) : Prop := ∀ tbl, Excludes (lt.entries tbl)

section Steps

variable {lt lt' : LockTable} {table : String} {mode : LockMode} {txnId : Nat}

theorem entries_setEntries (tbl tbl' : List Char) (es : List LockEntry) :
    (lt.setEntries tbl es).entries tbl' = if tbl' = tbl then es else lt.entries tbl' :=
  lookupD_put tbl'

theorem entries_touch (tbl : List Char) : (lt.setEntries tbl (lt.entries tbl)).entries = lt.entries := by
  funext tbl'
  rw [entries_setEntries]
  split_ifs with h
  · rw [h]
  · rfl

theorem tryAcquire_cases (table : String) (mode : LockMode) (txnId : Nat) (lt : LockTable) :
    (∃ lt', tryAcquire table mode txnId lt = .ok () lt' ∧
      (∃ e ∈ lt.entries (toAsciiLowercase table), e.holderTxn = txnId) ∧
      ∀ tbl, lt'.entries tbl = if tbl = toAsciiLowercase table ∧ mode = .Exclusive
        then upgrade txnId (lt.entries tbl) else lt.entries tbl) ∨
    (∃ lt', tryAcquire table mode txnId lt = .ok () lt' ∧
      (∀ e ∈ lt.entries (toAsciiLowercase table), e.holderTxn ≠ txnId ∧
        e.mode = .Shared ∧ mode = .Shared) ∧
      ∀ tbl, lt'.entries tbl = if tbl = toAsciiLowercase table
        then lt.entries tbl ++ [{ mode := mode, holderTxn := txnId }] else lt.entries tbl) ∨
    ∃ e lt', tryAcquire table mode txnId lt = .error e lt' ∧ lt'.entries = lt.entries ∧
      ¬∃ e ∈ lt.entries (toAsciiLowercase table), e.holderTxn = txnId := by
  unfold tryAcquire
  dsimp only
  by_cases hmine : ∃ e ∈ lt.entries (toAsciiLowercase table), e.holderTxn = txnId
  · rw [if_pos hmine]
    by_cases hmode : mode = .Exclusive
    · rw [if_pos hmode]
      refine .inl ⟨_, rfl, hmine, fun tbl => ?_⟩
      rw [entries_setEntries, entries_touch]
      by_cases h : tbl = toAsciiLowercase table
      · rw [if_pos h, if_pos ⟨h, hmode⟩, h]
      · rw [if_neg h, if_neg (fun hand => h hand.1)]
    · rw [if_neg hmode]
      refine .inl ⟨_, rfl, hmine, fun tbl => ?_⟩
      rw [entries_touch, if_neg (fun hand => hmode hand.2)]
  · rw [if_neg hmine]
    cases hfind : (lt.entries (toAsciiLowercase table)).find? (conflicts mode txnId) with
    | some e =>
        right
        right
        dsimp only
        split_ifs
        · exact ⟨_, _, rfl, entries_touch _, hmine⟩
        · exact ⟨_, _, rfl, entries_touch _, hmine⟩
    | none =>
        refine .inr (.inl ⟨_, rfl, fun e he => ?_, fun tbl => ?_⟩)
        · have hne : e.holderTxn ≠ txnId := fun heq => hmine ⟨e, he, heq⟩
          have hfree := List.find?_eq_none.mp hfind e he
          rw [conflicts, decide_eq_true_eq] at hfree
          exact ⟨hne, not_not.mp fun hmodes => hfree ⟨hne, hmodes⟩⟩
        · rw [entries_setEntries, entries_touch]
          split_ifs with h
          · rw [h]
          · rfl

theorem mem_upgrade {es : List LockEntry} {e : LockEntry} (he : e ∈ upgrade txnId es) :
    e ∈ es ∨ e.holderTxn = txnId := by
  induction es with
  | nil => cases he
  | cons x es ih =>
      rw [upgrade] at he
      split_ifs at he with hx
      · rcases List.mem_cons.mp he with rfl | he
        · exact .inr hx
        · exact .inl (List.mem_cons_of_mem _ he)
      · rcases List.mem_cons.mp he with rfl | he
        · exact .inl List.mem_cons_self
        · exact (ih he).imp (List.mem_cons_of_mem _) id

theorem upgrade_exclusive {es : List LockEntry} (h : ∃ e ∈ es, e.holderTxn = txnId) :
    ∃ e ∈ upgrade txnId es, e.holderTxn = txnId ∧ e.mode = .Exclusive := by
  induction es with
  | nil => obtain ⟨e, he, -⟩ := h; cases he
  | cons x es ih =>
      rw [upgrade]
      split_ifs with hx
      · exact ⟨_, List.mem_cons_self, hx, rfl⟩
      · obtain ⟨e, he, heq⟩ := h
        have hrest : e ∈ es := by
          rcases List.mem_cons.mp he with rfl | he
          · exact absurd heq hx
          · exact he
        obtain ⟨e', he', h'⟩ := ih ⟨e, hrest, heq⟩
        exact ⟨e', List.mem_cons_of_mem _ he', h'⟩

theorem holders_upgrade (es : List LockEntry) :
    (upgrade txnId es).map (·.holderTxn) = es.map (·.holderTxn) := by
  induction es with
  | nil => rfl
  | cons x es ih =>
      rw [upgrade]
      split_ifs
      · rfl
      · rw [List.map_cons, ih, List.map_cons]

-- After an upgrade the exclusion holds exactly if the transaction is the only holder.
theorem excludes_upgrade {es : List LockEntry} (h : ∃ e ∈ es, e.holderTxn = txnId) :
    Excludes (upgrade txnId es) ↔ ∀ e ∈ es, e.holderTxn = txnId := by
  have hholders : ∀ t, (∃ e ∈ upgrade txnId es, e.holderTxn = t) ↔ ∃ e ∈ es, e.holderTxn = t := by
    intro t
    rw [← List.mem_map, ← List.mem_map, holders_upgrade]
  constructor
  · intro hex e he
    obtain ⟨x, hx, hholder, hmode⟩ := upgrade_exclusive h
    obtain ⟨e', he', heq⟩ := (hholders e.holderTxn).mpr ⟨e, he, rfl⟩
    rw [← heq, hex x hx hmode e' he', hholder]
  · intro hsole
    have hall : ∀ e ∈ upgrade txnId es, e.holderTxn = txnId := fun e he => by
      rcases mem_upgrade he with he | heq
      · exact hsole e he
      · exact heq
    intro e he _ e' he'
    rw [hall e he, hall e' he']

theorem entries_releaseAll (hnodup : (lt.locks.map Prod.fst).Nodup) (txnId : Nat) (tbl : List Char) :
    (lt.releaseAll txnId).entries tbl = (lt.entries tbl).filter fun e => e.holderTxn ≠ txnId :=
  lookupD_retain (fun es : List LockEntry => es.filter fun e => e.holderTxn ≠ txnId)
    (fun es => es ≠ []) hnodup rfl (fun v hv => by simpa using hv) tbl

theorem nodup_step (op : LockOp) (h : (lt.locks.map Prod.fst).Nodup) :
    ((step op lt).locks.map Prod.fst).Nodup := by
  cases op with
  | TryAcquire table mode txnId =>
      have hput : ∀ (lt : LockTable) tbl es, (lt.locks.map Prod.fst).Nodup →
          ((lt.setEntries tbl es).locks.map Prod.fst).Nodup := fun lt tbl es h => nodup_put h
      have htouch := hput lt (toAsciiLowercase table) (lt.entries (toAsciiLowercase table)) h
      unfold step left tryAcquire
      dsimp only
      by_cases hmine : ∃ e ∈ lt.entries (toAsciiLowercase table), e.holderTxn = txnId
      · rw [if_pos hmine]
        split_ifs
        · exact hput _ _ _ htouch
        · exact htouch
      · rw [if_neg hmine]
        cases (lt.entries (toAsciiLowercase table)).find? (conflicts mode txnId) with
        | some e =>
            dsimp only
            split_ifs
            · exact htouch
            · exact htouch
        | none => exact hput _ _ _ htouch
  | ReleaseAll txnId =>
      have hmap : (lt.locks.map fun e => (e.1, e.2.filter fun l => l.holderTxn ≠ txnId)).map Prod.fst =
          lt.locks.map Prod.fst := by
        rw [List.map_map]
        rfl
      exact (hmap ▸ h).sublist (List.filter_sublist.map Prod.fst)

-- One step keeps the exclusion exactly if an upgrade in it is one of the sole holder.
theorem exclusion_step (op : LockOp) (hnodup : (lt.locks.map Prod.fst).Nodup) (h : Exclusion lt) :
    Exclusion (step op lt) ↔ SoleUpgrade op lt := by
  cases op with
  | ReleaseAll txnId =>
      refine iff_of_true (fun tbl => ?_) trivial
      rw [step, entries_releaseAll hnodup]
      intro e he hmode e' he'
      exact h tbl e (List.mem_of_mem_filter he) hmode e' (List.mem_of_mem_filter he')
  | TryAcquire table mode txnId =>
      rcases tryAcquire_cases table mode txnId lt with
        ⟨lt', hrun, hmine, hentries⟩ | ⟨lt', hrun, hshared, hentries⟩ | ⟨e, lt', hrun, hentries, hfree⟩
      · rw [step, left_ok hrun]
        cases mode with
        | Shared =>
            refine iff_of_true (fun tbl => ?_) trivial
            rw [hentries, if_neg (fun hand => by cases hand.2)]
            exact h tbl
        | Exclusive =>
            have hupgrade := excludes_upgrade hmine
            constructor
            · intro hex _
              refine hupgrade.mp ?_
              have hself := hex (toAsciiLowercase table)
              rw [hentries, if_pos ⟨rfl, rfl⟩] at hself
              exact hself
            · intro hsole tbl
              rw [hentries]
              split_ifs with htbl
              · rw [htbl.1]
                exact hupgrade.mpr (hsole hmine)
              · exact h tbl
      · rw [step, left_ok hrun]
        have hsole : SoleUpgrade (.TryAcquire table mode txnId) lt := by
          cases mode with
          | Shared => trivial
          | Exclusive =>
              rintro ⟨e, he, heq⟩
              exact absurd heq (hshared e he).1
        refine iff_of_true (fun tbl => ?_) hsole
        rw [hentries]
        split_ifs with htbl
        · -- with a conflicting mode the table had no holder at all
          intro e he hmode e' he'
          have hnone : ∀ x ∈ lt.entries tbl, mode = .Shared ∧ x.mode = .Shared := fun x hx => by
            rw [htbl] at hx
            exact ⟨(hshared x hx).2.2, (hshared x hx).2.1⟩
          rcases List.mem_append.mp he with he | he
          · rw [(hnone e he).2] at hmode
            cases hmode
          · rcases List.mem_append.mp he' with he' | he'
            · rw [List.mem_singleton.mp he] at hmode
              rw [(hnone e' he').1] at hmode
              cases hmode
            · rw [List.mem_singleton.mp he, List.mem_singleton.mp he']
        · exact h tbl
      · rw [step, left_error hrun]
        have hsole : SoleUpgrade (.TryAcquire table mode txnId) lt := by
          cases mode with
          | Shared => trivial
          | Exclusive => exact fun hmine => absurd hmine hfree
        refine iff_of_true (fun tbl => ?_) hsole
        rw [hentries]
        exact h tbl

end Steps

section Runs

variable {ops : List LockOp}

theorem nodup_run (ops : List LockOp) : ((run step ops new).locks.map Prod.fst).Nodup :=
  run_invariant (fun lt => (lt.locks.map Prod.fst).Nodup) List.nodup_nil
    (fun op _ h _ => nodup_step op h) (meets_true ops new)

theorem exclusion_new : Exclusion new := fun _ e he => by cases he

-- What is asked of the table in a state: exclusion, no change by a failed attempt, and a
-- release that takes the locks of one transaction and no others.
structure Sound (lt : LockTable) : Prop where
  exclusion : Exclusion lt
  failed : ∀ table mode txnId e lt', tryAcquire table mode txnId lt = .error e lt' →
    lt'.entries = lt.entries
  released : ∀ txnId tbl, (lt.releaseAll txnId).entries tbl =
    (lt.entries tbl).filter fun e => e.holderTxn ≠ txnId

theorem sound_of_exclusion {lt : LockTable} (hnodup : (lt.locks.map Prod.fst).Nodup)
    (h : Exclusion lt) : Sound lt where
  exclusion := h
  failed := by
    intro table mode txnId e lt' hrun
    rcases tryAcquire_cases table mode txnId lt with ⟨_, hrun', -⟩ | ⟨_, hrun', -⟩ | ⟨_, _, hrun', hsame, -⟩
    · rw [hrun] at hrun'
      cases hrun'
    · rw [hrun] at hrun'
      cases hrun'
    · rw [hrun] at hrun'
      cases hrun'
      exact hsame
  released := entries_releaseAll hnodup

-- In every run, all states reached are sound exactly if every upgrade to an exclusive lock is
-- made by the only holder of a lock on the table.
theorem lockTable_sound_iff (ops : List LockOp) :
    (∀ before after, ops = before ++ after → Sound (run step before new)) ↔
      Meets step SoleUpgrade ops new := by
  constructor
  · intro h
    refine meets_of_prefixes fun before op after heq => ?_
    have hnext := (h (before ++ [op]) after (by rw [heq]; simp)).exclusion
    rw [run_append] at hnext
    exact (exclusion_step op (nodup_run before) (h before _ heq).exclusion).mp hnext
  · rintro h before after rfl
    refine sound_of_exclusion (nodup_run before) ?_
    have hstart : (new.locks.map Prod.fst).Nodup ∧ Exclusion new := ⟨List.nodup_nil, exclusion_new⟩
    have hinv := run_invariant
      (fun lt => (lt.locks.map Prod.fst).Nodup ∧ Exclusion lt) hstart
      (fun op lt hlt (hop : SoleUpgrade op lt) =>
        ⟨nodup_step op hlt.1, (exclusion_step op hlt.1 hlt.2).mpr hop⟩)
      (meets_append h).1
    exact hinv.2

def readersThenWriter : List LockOp :=
  [.TryAcquire "t" .Shared 1, .TryAcquire "T" .Shared 2, .TryAcquire "t" .Exclusive 1]

theorem readersThenWriter_breaks_exclusion : ¬Exclusion (run step readersThenWriter new) := by
  intro h
  have hself := h ['t'] { mode := .Exclusive, holderTxn := 1 } (by decide) rfl
    { mode := .Shared, holderTxn := 2 } (by decide)
  cases hself

end Runs

end LockTable

end Kkdb
