import Kkdb.Lib.State
import Kkdb.Raft.Json
import Kkdb.Raft.StateMachine

namespace Kkdb.Raft

-- Whether the VMs of a replica live in a data directory, and whether it keeps `snapshot.json`.
structure Config where
  persistent : Bool
  snapshotDir : Bool

-- `machine` is what runs now, `builder` the clone that `get_snapshot_builder` gave out.
structure Replica (ν δ μ : Type) where
  machine : Option (StateMachine ν δ μ)
  builder : Option (StateMachine ν δ μ)
  authDir : δ
  userDirs : String → δ
  snapshotJson : Option (List UInt8)

-- `sent` are the snapshots that replicas have handed to their Raft nodes so far.
structure Cluster (ν δ μ : Type) where
  replicas : Nat → Replica ν δ μ
  sent : List (SnapshotMeta μ × List UInt8)

inductive ReplicaOp where
  | Restart
  | Apply (count : Nat)
  | GetSnapshotBuilder
  | BuildSnapshot
  | GetCurrentSnapshot
  | InstallSnapshot (snapshot : Nat)

variable {ν δ μ : Type} (E : VmEngine ν δ) (json : SnapshotJson μ)

def isAfter {π : Type} (l : Option LogId) (entry : Entry π) : Bool :=
  match l with
  | some l => l.index < entry.logId.index
  | none => true

def pending {π : Type} (committed : List (Entry π)) (l : Option LogId) : List (Entry π) :=
  committed.filter (isAfter l)

def upTo {π : Type} (committed : List (Entry π)) (l : Option LogId) : List (Entry π) :=
  committed.filter (!isAfter l ·)

namespace AppState

def start (config : Config) (authDir : δ) (dirs : String → δ) : Except String (AppState ν δ) :=
  if config.persistent then withDir E authDir dirs else .ok (inMemory E)

def fresh (config : Config) : Except String (AppState ν δ) :=
  start E config E.emptyDir fun _ => E.emptyDir

def leftAuthDir (app : AppState ν δ) (authDir : δ) : δ :=
  if app.dataDir.isSome then E.dirOf app.authVm else authDir

def leftDirs (app : AppState ν δ) (dirs : String → δ) (user : String) : δ :=
  match app.dataDir, app.userVms user with
  | some _, some vm => E.dirOf vm
  | _, _ => dirs user

end AppState

namespace Replica

def new : Replica ν δ μ where
  machine := none
  builder := none
  authDir := E.emptyDir
  userDirs := fun _ => E.emptyDir
  snapshotJson := none

def stopped (r : Replica ν δ μ) : Replica ν δ μ :=
  match r.machine with
  | some sm =>
      { r with
        machine := none
        builder := none
        authDir := sm.appState.leftAuthDir E r.authDir
        userDirs := sm.appState.leftDirs E r.userDirs }
  | none => { r with builder := none }

-- The databases that a process finds which is started now, before `open` replays anything.
def reopened (config : Config) (r : Replica ν δ μ) : Except String (AppState ν δ) :=
  AppState.start E config (r.stopped E).authDir (r.stopped E).userDirs

def restart (config : Config) (r : Replica ν δ μ) : Replica ν δ μ :=
  match r.reopened E config with
  | .ok app =>
      let sm := if config.snapshotDir then .open E json app r.snapshotJson else .new app
      { r.stopped E with machine := some sm }
  | .error _ => r.stopped E

-- A call on the running machine, with the snapshot it gives to the Raft node.
def step (config : Config) (committed : List (Entry (EntryPayload μ)))
    (sent : List (SnapshotMeta μ × List UInt8)) (op : ReplicaOp) (r : Replica ν δ μ) :
    Replica ν δ μ × Option (SnapshotMeta μ × List UInt8) :=
  match op, r.machine, r.builder with
  | .Restart, _, _ => (r.restart E json config, none)
  | .Apply count, some sm, _ =>
      let entries := (pending committed sm.lastAppliedLog).take count
      ({ r with machine := some (sm.apply E entries).2 }, none)
  | .GetSnapshotBuilder, some sm, _ => ({ r with builder := some sm }, none)
  | .BuildSnapshot, _, some builder =>
      let (snapshot, builder, file) := builder.buildSnapshot json
      ({ r with builder := some builder, snapshotJson := file.or r.snapshotJson }, some snapshot)
  | .GetCurrentSnapshot, some sm, _ =>
      let (snapshot, sm) := sm.getCurrentSnapshot json r.snapshotJson
      ({ r with machine := some sm }, snapshot)
  | .InstallSnapshot i, some sm, _ =>
      match sent[i]? with
      | some (header, bytes) =>
          let (sm, file) := sm.installSnapshot E json header bytes
          ({ r with machine := some sm, snapshotJson := file.or r.snapshotJson }, none)
      | none => (r, none)
  | _, _, _ => (r, none)

end Replica

namespace Cluster

def start : Cluster ν δ μ where
  replicas := fun _ => Replica.new E
  sent := []

def step (config : Nat → Config) (committed : List (Entry (EntryPayload μ))) (op : Nat × ReplicaOp)
    (c : Cluster ν δ μ) : Cluster ν δ μ :=
  let (r, snapshot) := (c.replicas op.1).step E json (config op.1) committed c.sent op.2
  { replicas := Function.update c.replicas op.1 r, sent := c.sent ++ snapshot.toList }

end Cluster

end Kkdb.Raft

namespace Kkdb.Raft

open Lib

variable {ν δ μ : Type} (E : VmEngine ν δ)

def AppState.vmOf (app : AppState ν δ) (user : String) : Except String ν :=
  if user = "" then .ok app.authVm
  else
    match app.userVms user with
    | some vm => .ok vm
    | none => app.openUser E user

def AppState.Same (a b : AppState ν δ) : Prop := ∀ user, a.vmOf E user = b.vmOf E user

def requests (entries : List (Entry (EntryPayload μ))) : List KkdbRequest :=
  entries.filterMap fun entry =>
    match entry.payload with
    | .Normal req => some req
    | _ => none

section Vms

variable {E} {a b : AppState ν δ}

theorem vmOf_applyRequest (app : AppState ν δ) (req : KkdbRequest) (user : String) :
    (applyRequest E app req).2.vmOf E user =
      if user = req.userId then (app.vmOf E user).map fun vm => (E.executeSql req.sql vm).2
      else app.vmOf E user := by
  unfold applyRequest
  by_cases hauth : req.userId = ""
  · by_cases huser : user = ""
    · simp [AppState.vmOf, hauth, huser, Except.map]
    · simp [AppState.vmOf, hauth, huser, AppState.openUser]
  · rw [if_neg hauth]
    by_cases huser : user = req.userId
    · subst huser
      cases hvm : app.userVms req.userId with
      | some vm => simp [AppState.vmOf, hauth, hvm, Except.map]
      | none =>
          cases hopen : app.openUser E req.userId with
          | ok vm => simp [AppState.vmOf, hauth, hvm, hopen, Except.map]
          | error e => simp [AppState.vmOf, hauth, hvm, hopen, Except.map]
    · cases hvm : app.userVms req.userId with
      | some vm => simp [AppState.vmOf, huser, AppState.openUser]
      | none =>
          cases hopen : app.openUser E req.userId with
          | ok vm => simp [AppState.vmOf, huser, AppState.openUser]
          | error e => simp [huser]

theorem same_applyRequest (h : a.Same E b) (req : KkdbRequest) :
    (applyRequest E a req).2.Same E (applyRequest E b req).2 := by
  intro user
  rw [vmOf_applyRequest, vmOf_applyRequest, h user]

theorem same_replayEntries (h : a.Same E b) (entries : List KkdbRequest) :
    (replayEntries E a entries).Same E (replayEntries E b entries) := by
  induction entries generalizing a b with
  | nil => exact h
  | cons req entries ih => exact ih (same_applyRequest h req)

theorem replayEntries_append (app : AppState ν δ) (entries more : List KkdbRequest) :
    replayEntries E app (entries ++ more) = replayEntries E (replayEntries E app entries) more := by
  simp [replayEntries]

end Vms

section Logs

variable {committed : List (Entry (EntryPayload μ))}

theorem upTo_none : upTo committed none = [] := by
  simp [upTo, isAfter]

theorem upTo_cons (hinc : committed.Pairwise (·.logId.index < ·.logId.index)) {l : Option LogId}
    {entry : Entry (EntryPayload μ)} {rest : List (Entry (EntryPayload μ))}
    (h : pending committed l = entry :: rest) :
    upTo committed (some entry.logId) = upTo committed l ++ [entry] ∧
      pending committed (some entry.logId) = rest := by
  obtain ⟨before, after, rfl, hbefore, hentry, rfl⟩ := List.filter_eq_cons_iff.mp h
  obtain ⟨-, hafter, hcross⟩ := List.pairwise_append.mp hinc
  have hlater : ∀ e ∈ after, isAfter (some entry.logId) e = true := by
    intro e he
    simpa [isAfter] using (List.pairwise_cons.mp hafter).1 e he
  have hlater' : ∀ e ∈ after, isAfter l e = true := by
    intro e he
    have hlt := (List.pairwise_cons.mp hafter).1 e he
    cases l with
    | none => rfl
    | some l =>
        simp only [isAfter, decide_eq_true_eq] at hentry ⊢
        omega
  have hearlier : ∀ e ∈ before, isAfter (some entry.logId) e = false := by
    intro e he
    have hlt := hcross e he entry List.mem_cons_self
    simp only [isAfter, decide_eq_false_iff_not]
    omega
  have hself : isAfter (some entry.logId) entry = false := by simp [isAfter]
  have hnone : ∀ l, (∀ e ∈ after, isAfter l e = true) → after.filter (!isAfter l ·) = [] := by
    intro l hl
    apply List.filter_eq_nil_iff.mpr
    simpa using hl
  have hall : ∀ l, (∀ e ∈ before, isAfter l e = false) → before.filter (!isAfter l ·) = before := by
    intro l hl
    apply List.filter_eq_self.mpr
    simpa using hl
  constructor
  · rw [upTo, upTo, List.filter_append, List.filter_append, List.filter_cons, List.filter_cons, hself,
      hentry, hnone _ hlater, hnone _ hlater', hall _ hearlier, hall l (by simpa using hbefore)]
    simp
  · rw [pending, List.filter_append, List.filter_cons, hself,
      List.filter_eq_nil_iff.mpr (by simpa using hearlier), List.filter_eq_self.mpr hlater,
      List.filter_eq_self.mpr hlater']
    simp

end Logs

section Replicas

variable (json : SnapshotJson μ) (config : Config) (committed : List (Entry (EntryPayload μ)))

def reference (l : Option LogId) (app : AppState ν δ) : AppState ν δ :=
  ((StateMachine.new app).apply E (upTo committed l)).2.appState

def Converged (sm : StateMachine ν δ μ) : Prop :=
  ∃ app, AppState.fresh E config = .ok app ∧
    sm.appState.Same E (reference E committed sm.lastAppliedLog app)

-- The databases are as they were before the first request.
def Untouched (app : AppState ν δ) : Prop := ∃ new, AppState.fresh E config = .ok new ∧ app.Same E new

-- Snapshots are replayed into databases that hold nothing of their effects yet.
def Replica.ReplaysFresh (op : ReplicaOp) (r : Replica ν δ μ) : Prop :=
  match op with
  | .Restart => ∀ app, r.reopened E config = .ok app → Untouched E config app
  | .InstallSnapshot _ => ∀ sm, r.machine = some sm → Untouched E config sm.appState
  | _ => True

def Faithful (data : KkdbSnapshotData μ) : Prop :=
  data.entries = requests (upTo committed data.lastApplied)

-- The statements kept for snapshots are those of the log, in order.
structure Logged (sm : StateMachine ν δ μ) : Prop where
  entries : sm.appliedEntries = requests (upTo committed sm.lastAppliedLog)
  current : ∀ persisted, sm.currentSnapshot = some persisted → Faithful committed persisted.data

def Published (bytes : List UInt8) : Prop :=
  ∃ persisted, bytes = json.persisted.toVec persisted ∧ Faithful committed persisted.data

structure Replica.Sound (r : Replica ν δ μ) : Prop where
  machine : ∀ sm, r.machine = some sm → Logged committed sm ∧ Converged E config committed sm
  builder : ∀ sm, r.builder = some sm → Logged committed sm
  file : ∀ bytes, r.snapshotJson = some bytes → Published json committed bytes

structure Cluster.Sound (config : Nat → Config) (c : Cluster ν δ μ) : Prop where
  replicas : ∀ i, (c.replicas i).Sound E json (config i) committed
  sent : ∀ snapshot ∈ c.sent, Published json committed snapshot.2

variable {E json config committed} {r : Replica ν δ μ} {sm : StateMachine ν δ μ}

theorem applyEntry_lastAppliedLog (entry : Entry (EntryPayload μ)) :
    (sm.applyEntry E entry).2.lastAppliedLog = some entry.logId := by
  obtain ⟨logId, payload⟩ := entry
  cases payload with
  | Blank => rfl
  | Normal req => rfl
  | Membership members => rfl

theorem applyEntry_entries (entry : Entry (EntryPayload μ)) :
    (sm.applyEntry E entry).2.appliedEntries = sm.appliedEntries ++ requests [entry] := by
  obtain ⟨logId, payload⟩ := entry
  cases payload with
  | Blank => simp [StateMachine.applyEntry, requests]
  | Normal req => simp [StateMachine.applyEntry, requests]
  | Membership members => simp [StateMachine.applyEntry, requests]

theorem applyEntry_appState (entry : Entry (EntryPayload μ)) :
    (sm.applyEntry E entry).2.appState = replayEntries E sm.appState (requests [entry]) := by
  obtain ⟨logId, payload⟩ := entry
  cases payload with
  | Blank => rfl
  | Normal req => rfl
  | Membership members => rfl

theorem applyEntry_current (entry : Entry (EntryPayload μ)) :
    (sm.applyEntry E entry).2.currentSnapshot = sm.currentSnapshot := by
  obtain ⟨logId, payload⟩ := entry
  cases payload with
  | Blank => rfl
  | Normal req => rfl
  | Membership members => rfl

theorem requests_append (entries more : List (Entry (EntryPayload μ))) :
    requests (entries ++ more) = requests entries ++ requests more := by
  simp [requests]

theorem apply_appState (entries : List (Entry (EntryPayload μ))) :
    (sm.apply E entries).2.appState = replayEntries E sm.appState (requests entries) := by
  induction entries generalizing sm with
  | nil => rfl
  | cons entry entries ih =>
      have hsplit : requests (entry :: entries) = requests [entry] ++ requests entries :=
        requests_append [entry] entries
      rw [hsplit, replayEntries_append, ← applyEntry_appState]
      exact ih

theorem reference_eq (l : Option LogId) (app : AppState ν δ) :
    reference E committed l app = replayEntries E app (requests (upTo committed l)) :=
  apply_appState (upTo committed l)

theorem converged_replay {app : AppState ν δ} {l : Option LogId} {entries : List KkdbRequest}
    (h : Untouched E config app) (he : entries = requests (upTo committed l)) :
    ∃ new, AppState.fresh E config = .ok new ∧
      (replayEntries E app entries).Same E (reference E committed l new) := by
  obtain ⟨new, hnew, hsame⟩ := h
  refine ⟨new, hnew, ?_⟩
  rw [reference_eq, he]
  exact same_replayEntries hsame _

theorem requests_none : requests (upTo committed none) = [] := by
  rw [upTo_none]
  rfl

theorem logged_new (app : AppState ν δ) : Logged committed (.new app) where
  entries := requests_none.symm
  current := by simp [StateMachine.new]

theorem converged_new {app : AppState ν δ} (h : Untouched E config app) :
    Converged E config committed (.new app) :=
  converged_replay h requests_none.symm

theorem sound_applyEntry (hinc : committed.Pairwise (·.logId.index < ·.logId.index))
    (hr : Logged committed sm) (hc : Converged E config committed sm) {entry : Entry (EntryPayload μ)}
    {rest : List (Entry (EntryPayload μ))} (h : pending committed sm.lastAppliedLog = entry :: rest) :
    Logged committed (sm.applyEntry E entry).2 ∧
      Converged E config committed (sm.applyEntry E entry).2 := by
  have hup := (upTo_cons hinc h).1
  refine ⟨⟨?_, ?_⟩, ?_⟩
  · rw [applyEntry_entries, applyEntry_lastAppliedLog, hup, requests_append, hr.entries]
  · rw [applyEntry_current]
    exact hr.current
  · obtain ⟨new, hnew, hsame⟩ := hc
    refine ⟨new, hnew, ?_⟩
    rw [reference_eq] at hsame ⊢
    rw [applyEntry_appState, applyEntry_lastAppliedLog, hup, requests_append, replayEntries_append]
    exact same_replayEntries hsame _

theorem sound_apply (hinc : committed.Pairwise (·.logId.index < ·.logId.index))
    (hr : Logged committed sm) (hc : Converged E config committed sm) (count : Nat) :
    let entries := (pending committed sm.lastAppliedLog).take count
    Logged committed (sm.apply E entries).2 ∧ Converged E config committed (sm.apply E entries).2 := by
  induction count generalizing sm with
  | zero => exact ⟨hr, hc⟩
  | succ count ih =>
      cases hpending : pending committed sm.lastAppliedLog with
      | nil => exact ⟨hr, hc⟩
      | cons entry rest =>
          obtain ⟨hr', hc'⟩ := sound_applyEntry hinc hr hc hpending
          have hrest := ih hr' hc'
          rw [applyEntry_lastAppliedLog, (upTo_cons hinc hpending).2] at hrest
          exact hrest

theorem sound_open {app : AppState ν δ} {file : Option (List UInt8)} (hround : json.persisted.RoundTrips)
    (hfile : ∀ bytes, file = some bytes → Published json committed bytes)
    (h : Untouched E config app) :
    Logged committed (.open E json app file) ∧ Converged E config committed (.open E json app file) := by
  cases file with
  | none =>
      refine ⟨⟨requests_none.symm, ?_⟩, converged_replay h requests_none.symm⟩
      simp [StateMachine.open, StateMachine.new]
  | some bytes =>
      obtain ⟨persisted, rfl, hdata⟩ := hfile bytes rfl
      simp only [StateMachine.open, Option.bind_some, hround persisted]
      refine ⟨⟨hdata, ?_⟩, converged_replay h hdata⟩
      intro persisted' heq
      cases heq
      exact hdata

variable (json) in
theorem published_build (hr : Logged committed sm) :
    Published json committed (sm.buildSnapshot json).1.2 ∧
      Logged committed (sm.buildSnapshot json).2.1 ∧
      ∀ bytes, (sm.buildSnapshot json).2.2 = some bytes → Published json committed bytes := by
  refine ⟨⟨_, rfl, hr.entries⟩, ⟨hr.entries, ?_⟩, ?_⟩
  · intro persisted heq
    cases heq
    exact hr.entries
  · intro bytes heq
    simp only [StateMachine.buildSnapshot, Option.ite_none_right_eq_some, Option.some.injEq] at heq
    exact ⟨_, heq.2.symm, hr.entries⟩

theorem sound_install (hround : json.persisted.RoundTrips) (header : SnapshotMeta μ) {bytes : List UInt8}
    (hbytes : Published json committed bytes) (h : Untouched E config sm.appState) :
    let installed := sm.installSnapshot E json header bytes
    (Logged committed installed.1 ∧ Converged E config committed installed.1) ∧
      ∀ bytes, installed.2 = some bytes → Published json committed bytes := by
  obtain ⟨persisted, rfl, hdata⟩ := hbytes
  simp only [StateMachine.installSnapshot, StateMachine.received, hround persisted]
  refine ⟨⟨⟨hdata, ?_⟩, converged_replay h hdata⟩, ?_⟩
  · intro persisted' heq
    cases heq
    exact hdata
  · intro bytes heq
    rw [Option.ite_none_right_eq_some, Option.some.injEq] at heq
    exact ⟨persisted, heq.2.symm, hdata⟩

theorem sound_current (hround : json.persisted.RoundTrips) {file : Option (List UInt8)}
    (hfile : ∀ bytes, file = some bytes → Published json committed bytes) (hr : Logged committed sm)
    (hc : Converged E config committed sm) :
    let given := sm.getCurrentSnapshot json file
    (Logged committed given.2 ∧ Converged E config committed given.2) ∧
      ∀ snapshot, given.1 = some snapshot → Published json committed snapshot.2 := by
  unfold StateMachine.getCurrentSnapshot
  cases hcurrent : sm.currentSnapshot with
  | some persisted =>
      refine ⟨⟨hr, hc⟩, ?_⟩
      intro snapshot heq
      cases heq
      exact ⟨persisted, rfl, hr.current persisted hcurrent⟩
  | none =>
      cases file with
      | none => split_ifs <;> simpa using ⟨hr, hc⟩
      | some bytes =>
          obtain ⟨persisted, rfl, hdata⟩ := hfile bytes rfl
          simp only [Option.bind_some, hround persisted]
          split_ifs
          · refine ⟨⟨⟨hr.entries, ?_⟩, hc⟩, ?_⟩
            · intro persisted' heq
              cases heq
              exact hdata
            · intro snapshot heq
              cases heq
              exact ⟨persisted, rfl, hdata⟩
          · simpa using ⟨hr, hc⟩

theorem sound_stopped (hs : r.Sound E json config committed) :
    (r.stopped E).Sound E json config committed ∧ (r.stopped E).snapshotJson = r.snapshotJson := by
  unfold Replica.stopped
  split
  · exact ⟨⟨by simp, by simp, hs.file⟩, rfl⟩
  · exact ⟨⟨hs.machine, by simp, hs.file⟩, rfl⟩

theorem sound_restart (hround : json.persisted.RoundTrips) (hs : r.Sound E json config committed)
    (h : r.ReplaysFresh E config .Restart) : (r.restart E json config).Sound E json config committed := by
  obtain ⟨hstopped, hfile⟩ := sound_stopped hs
  unfold Replica.restart
  cases happ : r.reopened E config with
  | error e => exact hstopped
  | ok app =>
      refine ⟨?_, hstopped.builder, hstopped.file⟩
      intro sm heq
      simp only [Option.some.injEq] at heq
      subst heq
      have hfresh := h app happ
      split_ifs
      · exact sound_open hround hs.file hfresh
      · exact ⟨logged_new app, converged_new hfresh⟩

theorem published_or {file kept : Option (List UInt8)}
    (h : ∀ bytes, file = some bytes → Published json committed bytes)
    (hkept : ∀ bytes, kept = some bytes → Published json committed bytes) :
    ∀ bytes, file.or kept = some bytes → Published json committed bytes := by
  cases file with
  | none => simpa using hkept
  | some bytes => simpa using h

theorem sound_replicaStep (hround : json.persisted.RoundTrips)
    (hinc : committed.Pairwise (·.logId.index < ·.logId.index))
    {sent : List (SnapshotMeta μ × List UInt8)}
    (hsent : ∀ snapshot ∈ sent, Published json committed snapshot.2)
    (hs : r.Sound E json config committed) {op : ReplicaOp} (h : r.ReplaysFresh E config op) :
    (r.step E json config committed sent op).1.Sound E json config committed ∧
      ∀ snapshot, (r.step E json config committed sent op).2 = some snapshot →
        Published json committed snapshot.2 := by
  unfold Replica.step
  split
  case h_1 => exact ⟨sound_restart hround hs h, by simp⟩
  case h_2 count sm hsm =>
      obtain ⟨hr, hc⟩ := hs.machine sm hsm
      refine ⟨⟨?_, hs.builder, hs.file⟩, by simp⟩
      intro sm' heq
      cases heq
      exact sound_apply hinc hr hc count
  case h_3 sm hsm =>
      refine ⟨⟨hs.machine, ?_, hs.file⟩, by simp⟩
      intro sm' heq
      cases heq
      exact (hs.machine sm hsm).1
  case h_4 builder hbuilder =>
      obtain ⟨hsnapshot, hr, hfile⟩ := published_build json (hs.builder builder hbuilder)
      refine ⟨⟨hs.machine, ?_, published_or hfile hs.file⟩, ?_⟩
      · intro sm heq
        cases heq
        exact hr
      · intro snapshot heq
        cases heq
        exact hsnapshot
  case h_5 sm hsm =>
      obtain ⟨hr, hc⟩ := hs.machine sm hsm
      obtain ⟨hkept, hgiven⟩ := sound_current hround hs.file hr hc
      refine ⟨⟨?_, hs.builder, hs.file⟩, hgiven⟩
      intro sm' heq
      cases heq
      exact hkept
  case h_6 i sm hsm =>
      cases hi : sent[i]? with
      | none => exact ⟨hs, by simp⟩
      | some snapshot =>
          have hbytes := hsent snapshot (List.mem_of_getElem? hi)
          obtain ⟨hkept, hfile⟩ := sound_install hround snapshot.1 hbytes (h sm hsm)
          refine ⟨⟨?_, hs.builder, published_or hfile hs.file⟩, by simp⟩
          intro sm' heq
          cases heq
          exact hkept
  case h_7 => exact ⟨hs, by simp⟩

end Replicas

namespace Cluster

variable {E} {json : SnapshotJson μ} {config : Nat → Config} {committed : List (Entry (EntryPayload μ))}

-- A step replays a snapshot only into databases that hold nothing yet.
def ReplaysFresh (E : VmEngine ν δ) (config : Nat → Config) (op : Nat × ReplicaOp)
    (c : Cluster ν δ μ) : Prop :=
  (c.replicas op.1).ReplaysFresh E (config op.1) op.2

theorem sound_start : (start E).Sound E json committed config := by
  refine ⟨fun i => ⟨?_, ?_, ?_⟩, ?_⟩ <;> simp [start, Replica.new]

theorem sound_step (hround : json.persisted.RoundTrips)
    (hinc : committed.Pairwise (·.logId.index < ·.logId.index)) (op : Nat × ReplicaOp)
    (c : Cluster ν δ μ) (hs : c.Sound E json committed config) (h : c.ReplaysFresh E config op) :
    (c.step E json config committed op).Sound E json committed config := by
  obtain ⟨i, op⟩ := op
  obtain ⟨hreplica, hsnapshot⟩ := sound_replicaStep hround hinc hs.sent (hs.replicas i) h
  constructor
  · intro j
    by_cases hj : j = i
    · subst hj
      simpa [step] using hreplica
    · simpa [step, Function.update_of_ne hj] using hs.replicas j
  · intro snapshot hmem
    rcases List.mem_append.mp hmem with hold | hnew
    · exact hs.sent snapshot hold
    · exact hsnapshot snapshot (Option.mem_toList.mp hnew)

-- In every run whose snapshots meet fresh databases, all replicas converge.
theorem run_converged (hround : json.persisted.RoundTrips)
    (hinc : committed.Pairwise (·.logId.index < ·.logId.index)) {ops : List (Nat × ReplicaOp)}
    (h : Meets (step E json config committed) (ReplaysFresh E config) ops (start E)) (i : Nat)
    (sm : StateMachine ν δ μ)
    (hsm : ((run (step E json config committed) ops (start E)).replicas i).machine = some sm) :
    Converged E (config i) committed sm := by
  have hsound := run_invariant (fun c => c.Sound E json committed config) sound_start
    (sound_step hround hinc) h
  exact ((hsound.replicas i).machine sm hsm).2

variable (config committed) in
theorem step_install (hround : json.persisted.RoundTrips) (c : Cluster ν δ μ) {i snapshot : Nat}
    {sm : StateMachine ν δ μ} (hsm : (c.replicas i).machine = some sm) {header : SnapshotMeta μ}
    {persisted : PersistedSnapshot μ}
    (hsent : c.sent[snapshot]? = some (header, json.persisted.toVec persisted)) :
    ((c.step E json config committed (i, .InstallSnapshot snapshot)).replicas i).machine = some
      { sm with
        lastAppliedLog := persisted.data.lastApplied
        lastMembership := persisted.data.lastMembership
        appliedEntries := persisted.data.entries
        currentSnapshot := some persisted
        appState := replayEntries E sm.appState persisted.data.entries } := by
  simp [step, Replica.step, hsm, hsent, StateMachine.installSnapshot, StateMachine.received,
    hround persisted]

-- In memory a process always starts with fresh databases.
theorem replaysFresh_restart {i : Nat} (hmem : (config i).persistent = false) (c : Cluster ν δ μ) :
    c.ReplaysFresh E config (i, .Restart) := by
  intro app happ
  refine ⟨app, ?_, fun _ => rfl⟩
  rw [← happ]
  simp [AppState.fresh, Replica.reopened, AppState.start, hmem]

def tableVm : VmEngine (Option Nat) (Option Nat) where
  newMemory := none
  emptyDir := none
  openDir rows := .ok rows
  dirOf rows := rows
  executeSql sql rows :=
    match rows with
    | none =>
        if sql = "CREATE TABLE t (x INTEGER)" then (.ok "Ok \x7b message: \"Table 't' created\" \x7d", some 0)
        else (.error "Table 't' not found", none)
    | some n =>
        if sql = "CREATE TABLE t (x INTEGER)" then (.error "Table 't' already exists", some n)
        else if sql = "INSERT INTO t VALUES (1)" then
          (.ok "RowsAffected \x7b count: 1, message: \"1 row(s) inserted\" \x7d", some (n + 1))
        else (.error "Table not found", some n)

def insertLog : List (Entry (EntryPayload Unit)) :=
  [⟨⟨1, 1, 0⟩, .Membership ()⟩, ⟨⟨1, 1, 1⟩, .Normal ⟨"CREATE TABLE t (x INTEGER)", "u"⟩⟩,
    ⟨⟨1, 1, 2⟩, .Normal ⟨"INSERT INTO t VALUES (1)", "u"⟩⟩,
    ⟨⟨1, 1, 3⟩, .Normal ⟨"INSERT INTO t VALUES (1)", "u"⟩⟩]

def rejoinRun : List (Nat × ReplicaOp) :=
  [(1, .Restart), (1, .Apply 4), (1, .GetSnapshotBuilder), (1, .BuildSnapshot), (1, .Restart),
    (2, .Restart), (2, .InstallSnapshot 0)]

def inMemoryConfig (_ : Nat) : Config := ⟨false, true⟩

theorem rejoinRun_fresh : Meets (step tableVm Text.snapshotJson inMemoryConfig insertLog)
    (ReplaysFresh tableVm inMemoryConfig) rejoinRun (start tableVm) := by
  refine ⟨replaysFresh_restart rfl _, trivial, trivial, trivial, replaysFresh_restart rfl _,
    replaysFresh_restart rfl _, ?_, trivial⟩
  intro sm hsm
  cases hsm
  exact ⟨_, rfl, fun _ => rfl⟩

theorem run_converged_rejoin : ∃ sm,
    ((run (step tableVm Text.snapshotJson inMemoryConfig insertLog) rejoinRun
      (start tableVm)).replicas 2).machine = some sm ∧ Converged tableVm (inMemoryConfig 2) insertLog sm :=
  ⟨_, rfl, run_converged Text.snapshotJson_roundTrips (by decide) rejoinRun_fresh 2 _ rfl⟩

def catchUpRun : List (Nat × ReplicaOp) :=
  [(1, .Restart), (1, .Apply 4), (1, .GetSnapshotBuilder), (1, .BuildSnapshot),
    (2, .Restart), (2, .Apply 3), (2, .InstallSnapshot 0)]

theorem install_repeats_insert : ¬∀ sm,
    ((run (step tableVm Text.snapshotJson inMemoryConfig insertLog) catchUpRun
      (start tableVm)).replicas 2).machine = some sm → Converged tableVm (inMemoryConfig 2) insertLog sm := by
  intro h
  let before := run (step tableVm Text.snapshotJson inMemoryConfig insertLog) catchUpRun.dropLast
    (start tableVm)
  obtain ⟨app, happ, hsame⟩ := h _ (step_install inMemoryConfig insertLog
    Text.snapshotJson_roundTrips before rfl rfl)
  cases happ
  exact absurd (hsame "u") (by decide)

end Cluster

end Kkdb.Raft
