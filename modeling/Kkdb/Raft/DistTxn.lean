import Kkdb.Lib.Serial
import Kkdb.Lib.State

namespace Kkdb.Raft

open Lib Lib.Serial

structure CommitEntry where
  txnId : Nat
  commitTs : Nat
  readSet : Finset String
  writeSet : Finset String

structure GlobalSerializer where
  committed : List CommitEntry
  nextTs : Nat

namespace GlobalSerializer

def new : GlobalSerializer where
  committed := []
  nextTs := 1

def allocateTs (g : GlobalSerializer) : Nat × GlobalSerializer := (g.nextTs, { g with nextTs := g.nextTs + 1 })

def validate (g : GlobalSerializer) (_txnId : Nat) (readSet writeSet : Finset String) (beginTs : Nat) : Bool :=
  g.committed.all fun entry =>
    entry.commitTs ≤ beginTs || (Disjoint entry.writeSet readSet && Disjoint entry.writeSet writeSet)

def commit (g : GlobalSerializer) (txnId : Nat) (readSet writeSet : Finset String) : Nat × GlobalSerializer :=
  let (ts, g) := g.allocateTs
  (ts, { g with
    committed := g.committed ++ [{ txnId := txnId, commitTs := ts, readSet := readSet, writeSet :=
      writeSet }] })

def currentTs (g : GlobalSerializer) : Nat := g.nextTs - 1

end GlobalSerializer

structure OpenTxn (ν : Type) where
  beginTs : Nat
  script : Script String ν

inductive TxnOp (ν : Type) where
  | Begin (txnId : Nat)
  | Read (txnId : Nat) (key : String)
  | Write (txnId : Nat) (key : String) (value : ν)
  | Commit (txnId : Nat)
  | Abort (txnId : Nat)
  | AllocateTs

-- The serializer, the committed values, the open transactions, and the scripts of the
-- committed ones with their timestamps, in the order in which they committed.
structure Database (ν : Type) where
  serializer : GlobalSerializer
  store : String → ν
  active : Nat → Option (OpenTxn ν)
  history : List (Nat × Script String ν)

namespace Database

variable {ν : Type}

def start (store : String → ν) : Database ν where
  serializer := .new
  store := store
  active := fun _ => none
  history := []

def OpenTxn.read (t : OpenTxn ν) (store : String → ν) (key : String) : OpenTxn ν :=
  { t with script := t.script ++ [.Read key (after store t.script key)] }

def OpenTxn.write (t : OpenTxn ν) (key : String) (value : ν) : OpenTxn ν :=
  { t with script := t.script ++ [.Write key value] }

def commitTxn (db : Database ν) (txnId : Nat) (t : OpenTxn ν) : Database ν :=
  let (ts, serializer) := db.serializer.commit txnId (asked t.script) (written t.script)
  { serializer := serializer
    store := after db.store t.script
    active := Function.update db.active txnId none
    history := db.history ++ [(ts, t.script)] }

def step (op : TxnOp ν) (db : Database ν) : Database ν :=
  match op with
  | .Begin txnId =>
      let t : OpenTxn ν := { beginTs := db.serializer.currentTs, script := [] }
      { db with active := Function.update db.active txnId (some t) }
  | .Read txnId key =>
      match db.active txnId with
      | some t => { db with active := Function.update db.active txnId (some (OpenTxn.read t db.store key)) }
      | none => db
  | .Write txnId key value =>
      match db.active txnId with
      | some t => { db with active := Function.update db.active txnId (some (OpenTxn.write t key value)) }
      | none => db
  | .Commit txnId =>
      match db.active txnId with
      | some t =>
          if db.serializer.validate txnId (asked t.script)
            (written t.script) t.beginTs then db.commitTxn txnId t
          else db
      | none => db
  | .Abort txnId => { db with active := Function.update db.active txnId none }
  | .AllocateTs => { db with serializer := db.serializer.allocateTs.2 }

-- The committed transactions read and wrote what they would one after another, in the
-- order of their timestamps, and the committed values are those that are left then.
structure Serializable (store : String → ν) (db : Database ν) : Prop where
  recorded : db.serializer.committed.map (fun e => (e.commitTs, e.readSet, e.writeSet)) =
    db.history.map fun e => (e.1, asked e.2, written e.2)
  ordered : (db.history.map Prod.fst).Pairwise (· < ·)
  inTurn : InTurn store (db.history.map Prod.snd)
  final : db.store = replay store (db.history.map Prod.snd)

-- What an open transaction read is still there, unless a commit since it began wrote it.
def Current (db : Database ν) (t : OpenTxn ν) : Prop :=
  (∀ e ∈ db.serializer.committed, t.beginTs < e.commitTs → Disjoint e.writeSet (asked t.script)) →
    Sees db.store t.script

structure Sound (store : String → ν) (db : Database ν) : Prop extends Serializable store db where
  positive : 0 < db.serializer.nextTs
  past : ∀ e ∈ db.history, e.1 < db.serializer.nextTs
  begun : ∀ txnId t, db.active txnId = some t → t.beginTs < db.serializer.nextTs
  current : ∀ txnId t, db.active txnId = some t → Current db t

variable {store : String → ν} {db : Database ν} {txnId : Nat} {t : OpenTxn ν} {key : String}

theorem sound_start (store : String → ν) : (start store).Sound store where
  recorded := rfl
  ordered := List.Pairwise.nil
  inTurn := trivial
  final := rfl
  positive := Nat.one_pos
  past := fun _ he => (nomatch he)
  begun := fun _ _ ht => (nomatch ht)
  current := fun _ _ ht => (nomatch ht)

theorem Sound.moved (h : db.Sound store) {next : Option (OpenTxn ν)}
    (hnext : ∀ t, next = some t → t.beginTs < db.serializer.nextTs ∧ Current db t) :
    Sound store { db with active := Function.update db.active txnId next } := by
  refine ⟨⟨h.recorded, h.ordered, h.inTurn, h.final⟩, h.positive, h.past, fun id t ht => ?_, fun id t ht => ?_⟩
  · by_cases hid : id = txnId
    · subst hid
      exact (hnext t (by simpa using ht)).1
    · exact h.begun id t (by simpa [hid] using ht)
  · by_cases hid : id = txnId
    · subst hid
      exact (hnext t (by simpa using ht)).2
    · exact h.current id t (by simpa [hid] using ht)

theorem Current.read (h : Current db t) (key : String) : Current db (OpenTxn.read t db.store key) := by
  intro hapart
  have hsees := h fun e he hlt => (hapart e he hlt).mono_right (asked_append _ _)
  exact sees_append.mpr ⟨hsees, rfl, trivial⟩

theorem Current.write (h : Current db t) (key : String) (value : ν) :
    Current db (OpenTxn.write t key value) := by
  intro hapart
  have hsees := h fun e he hlt => (hapart e he hlt).mono_right (asked_append _ _)
  exact sees_append.mpr ⟨hsees, trivial⟩

-- A transaction that passes sees the committed values as they are now.
theorem Sound.sees (h : db.Sound store) (ht : db.active txnId = some t)
    (hvalid : db.serializer.validate txnId (asked t.script) (written t.script) t.beginTs) :
    Sees db.store t.script := by
  refine h.current txnId t ht fun e he hlt => ?_
  have hentry := List.all_eq_true.mp hvalid e he
  rw [Bool.or_eq_true, Bool.and_eq_true, decide_eq_true_eq, decide_eq_true_eq] at hentry
  exact (hentry.resolve_left (Nat.not_le_of_lt hlt)).1

theorem active_of_commitTxn {id : Nat} {t' : OpenTxn ν} (h : (db.commitTxn txnId t).active id = some t') :
    id ≠ txnId ∧ db.active id = some t' := by
  change Function.update db.active txnId none id = some t' at h
  by_cases hid : id = txnId
  · rw [hid, Function.update_self] at h
    exact (nomatch h)
  · rw [Function.update_of_ne hid] at h
    exact ⟨hid, h⟩

theorem Sound.commitTxn (h : db.Sound store) (ht : db.active txnId = some t)
    (hvalid : db.serializer.validate txnId (asked t.script) (written t.script) t.beginTs) :
    (db.commitTxn txnId t).Sound store := by
  have hsees := h.sees ht hvalid
  refine ⟨⟨?_, ?_, ?_, ?_⟩, Nat.succ_pos _, fun e he => ?_, fun id t' ht' => ?_, fun id t' ht' => ?_⟩
  · show (db.serializer.committed ++ [_]).map _ = (db.history ++ [_]).map _
    rw [List.map_append, List.map_append, h.recorded]
    rfl
  · show ((db.history ++ [_]).map Prod.fst).Pairwise (· < ·)
    rw [List.map_append, List.pairwise_append]
    refine ⟨h.ordered, List.pairwise_singleton _ _, fun a ha b hb => ?_⟩
    obtain ⟨e, he, rfl⟩ := List.mem_map.mp ha
    rw [List.mem_singleton.mp hb]
    exact h.past e he
  · show InTurn store ((db.history ++ [_]).map Prod.snd)
    rw [List.map_append, List.map_singleton, inTurn_snoc, ← h.final]
    exact ⟨h.inTurn, hsees⟩
  · show after db.store t.script = replay store ((db.history ++ [_]).map Prod.snd)
    rw [List.map_append, List.map_singleton, replay_snoc, ← h.final]
  · rcases List.mem_append.mp he with hold | hnew
    · exact Nat.lt_succ_of_lt (h.past e hold)
    · rw [List.mem_singleton.mp hnew]
      exact Nat.lt_succ_self _
  · obtain ⟨hid, hactive⟩ := active_of_commitTxn ht'
    exact Nat.lt_succ_of_lt (h.begun id t' hactive)
  · obtain ⟨hid, hactive⟩ := active_of_commitTxn ht'
    intro hapart
    have hold := h.current id t' hactive fun e he => hapart e (List.mem_append_left _ he)
    exact hold.after (hapart _ (List.mem_append_right _ (List.mem_singleton_self _)) (h.begun id t' hactive))

theorem Sound.begin (h : db.Sound store) (txnId : Nat) : (step (.Begin txnId) db).Sound store := by
  refine h.moved fun t ht => ?_
  obtain rfl := Option.some.inj ht
  exact ⟨Nat.sub_lt h.positive Nat.one_pos, fun _ => trivial⟩

theorem Sound.step (h : db.Sound store) (op : TxnOp ν) : (step op db).Sound store := by
  cases op with
  | Begin txnId => exact h.begin txnId
  | Read txnId key =>
      cases ht : db.active txnId with
      | none => simpa only [Database.step, ht] using h
      | some t =>
          simp only [Database.step, ht]
          refine h.moved fun t' ht' => ?_
          obtain rfl := Option.some.inj ht'
          exact ⟨h.begun txnId t ht, (h.current txnId t ht).read key⟩
  | Write txnId key value =>
      cases ht : db.active txnId with
      | none => simpa only [Database.step, ht] using h
      | some t =>
          simp only [Database.step, ht]
          refine h.moved fun t' ht' => ?_
          obtain rfl := Option.some.inj ht'
          exact ⟨h.begun txnId t ht, (h.current txnId t ht).write key value⟩
  | Commit txnId =>
      cases ht : db.active txnId with
      | none => simpa only [Database.step, ht] using h
      | some t =>
          simp only [Database.step, ht]
          split_ifs with hvalid
          · exact h.commitTxn ht hvalid
          · exact h
  | Abort txnId => exact h.moved fun _ ht => (nomatch ht)
  | AllocateTs =>
      refine ⟨⟨h.recorded, h.ordered, h.inTurn, h.final⟩, Nat.succ_pos _, fun e he => ?_, fun id t ht => ?_,
        h.current⟩
      · exact Nat.lt_succ_of_lt (h.past e he)
      · exact Nat.lt_succ_of_lt (h.begun id t ht)

theorem Sound.run (h : db.Sound store) (ops : List (TxnOp ν)) : (run Database.step ops db).Sound store :=
  run_invariant (Sound store) h (fun op _ hdb _ => hdb.step op) (meets_true ops db)

theorem serializable_run (store : String → ν) (ops : List (TxnOp ν)) :
    (run Database.step ops (start store)).Serializable store :=
  ((sound_start store).run ops).toSerializable

end Database

end Kkdb.Raft
