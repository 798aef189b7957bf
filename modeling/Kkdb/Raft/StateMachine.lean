import Kkdb.Raft.LogStore

namespace Kkdb.Raft

structure KkdbRequest where
  sql : String
  userId : String
  deriving DecidableEq

structure KkdbResponse where
  message : String
  ok : Bool
  deriving DecidableEq

inductive EntryPayload (μ : Type) where
  | Blank
  | Normal (req : KkdbRequest)
  | Membership (members : μ)

structure StoredMembership (μ : Type) where
  logId : Option LogId
  membership : Option μ

structure KkdbSnapshotData (μ : Type) where
  entries : List KkdbRequest
  lastApplied : Option LogId
  lastMembership : StoredMembership μ

structure SnapshotMeta (μ : Type) where
  lastLogId : Option LogId
  lastMembership : StoredMembership μ
  snapshotId : String

structure PersistedSnapshot (μ : Type) where
  header : SnapshotMeta μ
  data : KkdbSnapshotData μ

structure BinlogSql where
  sql : String
  userId : String
  raftIndex : Nat

-- The databases. A directory is what is left of a VM when its process ends.
structure VmEngine (ν δ : Type) where
  newMemory : ν
  emptyDir : δ
  openDir : δ → Except String ν
  dirOf : ν → δ
  executeSql : String → ν → Except String String × ν

-- What `serde_json` makes of snapshots, and how openraft shows the leader of a log id.
structure SnapshotJson (μ : Type) where
  persisted : Serde (PersistedSnapshot μ)
  data : Serde (KkdbSnapshotData μ)
  showLeader : LogId → String

-- With `dataDir` the directories of the users whose VM is not open. No two users share a directory.
structure AppState (ν δ : Type) where
  authVm : ν
  userVms : String → Option ν
  dataDir : Option (String → δ)

structure StateMachine (ν δ μ : Type) where
  appState : AppState ν δ
  lastAppliedLog : Option LogId
  lastMembership : StoredMembership μ
  appliedEntries : List KkdbRequest
  snapshotIdx : Nat
  snapshotDir : Bool
  currentSnapshot : Option (PersistedSnapshot μ)
  binlog : Option (List BinlogSql)

section Calls

variable {ν δ μ : Type} (E : VmEngine ν δ) (json : SnapshotJson μ)

namespace AppState

def inMemory : AppState ν δ where
  authVm := E.newMemory
  userVms := fun _ => none
  dataDir := none

def withDir (authDir : δ) (dirs : String → δ) : Except String (AppState ν δ) := do
  let authVm ← E.openDir authDir
  return { authVm := authVm, userVms := fun _ => none, dataDir := some dirs }

def openUser (app : AppState ν δ) (userId : String) : Except String ν :=
  match app.dataDir with
  | some dirs => E.openDir (dirs userId)
  | none => .ok E.newMemory

end AppState

def respond : Except String String → KkdbResponse
  | .ok message => { message := message, ok := true }
  | .error message => { message := message, ok := false }

def applyRequest (app : AppState ν δ) (req : KkdbRequest) : KkdbResponse × AppState ν δ :=
  if req.userId = "" then
    let (result, vm) := E.executeSql req.sql app.authVm
    (respond result, { app with authVm := vm })
  else
    let found : Except String ν := match app.userVms req.userId with
      | some vm => .ok vm
      | none => app.openUser E req.userId
    match found with
    | .error e => ({ message := e, ok := false }, app)
    | .ok vm =>
        let (result, vm) := E.executeSql req.sql vm
        (respond result, { app with userVms := Function.update app.userVms req.userId (some vm) })

def replayEntries (app : AppState ν δ) (entries : List KkdbRequest) : AppState ν δ :=
  entries.foldl (fun app req => (applyRequest E app req).2) app

namespace StateMachine

def new (app : AppState ν δ) : StateMachine ν δ μ where
  appState := app
  lastAppliedLog := none
  lastMembership := ⟨none, none⟩
  appliedEntries := []
  snapshotIdx := 0
  snapshotDir := false
  currentSnapshot := none
  binlog := none

-- `snapshotJsonFile` is the content of `snapshot.json`. A snapshot that does not parse is no snapshot.
def «open» (app : AppState ν δ) (snapshotJsonFile : Option (List UInt8)) : StateMachine ν δ μ :=
  let sm := { new app with snapshotDir := true }
  match snapshotJsonFile.bind json.persisted.fromSlice with
  | some persisted =>
      { sm with
        lastAppliedLog := persisted.data.lastApplied
        lastMembership := persisted.data.lastMembership
        appliedEntries := persisted.data.entries
        currentSnapshot := some persisted
        appState := replayEntries E app persisted.data.entries }
  | none => sm

def applyEntry (sm : StateMachine ν δ μ) (entry : Entry (EntryPayload μ)) :
    KkdbResponse × StateMachine ν δ μ :=
  let sm := { sm with lastAppliedLog := some entry.logId }
  match entry.payload with
  | .Blank => ({ message := "blank", ok := true }, sm)
  | .Normal req =>
      let (resp, app) := applyRequest E sm.appState req
      (resp, { sm with
        appliedEntries := sm.appliedEntries ++ [req]
        appState := app
        binlog := sm.binlog.map (· ++ [⟨req.sql, req.userId, entry.logId.index⟩]) })
  | .Membership members =>
      ({ message := "membership", ok := true },
        { sm with lastMembership := ⟨some entry.logId, some members⟩ })

def apply (sm : StateMachine ν δ μ) : List (Entry (EntryPayload μ)) →
    List KkdbResponse × StateMachine ν δ μ
  | [] => ([], sm)
  | entry :: entries =>
      let (reply, sm) := sm.applyEntry E entry
      let (replies, sm) := sm.apply entries
      (reply :: replies, sm)

def snapshotId (sm : StateMachine ν δ μ) : String :=
  match sm.lastAppliedLog with
  | some l => json.showLeader l ++ "-" ++ toString l.index ++ "-" ++ toString sm.snapshotIdx
  | none => "empty-" ++ toString sm.snapshotIdx

-- The snapshot for the caller, the builder it was built by, and what is written to `snapshot.json`.
def buildSnapshot (sm : StateMachine ν δ μ) :
    (SnapshotMeta μ × List UInt8) × StateMachine ν δ μ × Option (List UInt8) :=
  let sm := { sm with snapshotIdx := sm.snapshotIdx + 1 }
  let header := ⟨sm.lastAppliedLog, sm.lastMembership, sm.snapshotId json⟩
  let persisted : PersistedSnapshot μ :=
    { header := header
      data :=
        { entries := sm.appliedEntries
          lastApplied := sm.lastAppliedLog
          lastMembership := sm.lastMembership } }
  let bytes := json.persisted.toVec persisted
  ((header, bytes), { sm with currentSnapshot := some persisted },
    if sm.snapshotDir then some bytes else none)

-- A text that is no whole snapshot is taken for the data alone.
def received (header : SnapshotMeta μ) (bytes : List UInt8) : PersistedSnapshot μ :=
  match json.persisted.fromSlice bytes with
  | some persisted => persisted
  | none => { header := header, data := (json.data.fromSlice bytes).getD ⟨[], none, ⟨none, none⟩⟩ }

def installSnapshot (header : SnapshotMeta μ) (bytes : List UInt8) (sm : StateMachine ν δ μ) :
    StateMachine ν δ μ × Option (List UInt8) :=
  let persisted := received json header bytes
  ({ sm with
      lastAppliedLog := persisted.data.lastApplied
      lastMembership := persisted.data.lastMembership
      appliedEntries := persisted.data.entries
      currentSnapshot := some persisted
      appState := replayEntries E sm.appState persisted.data.entries },
    if sm.snapshotDir then some (json.persisted.toVec persisted) else none)

-- The snapshot in memory, or else the one on disk, which is kept in memory from then on.
def getCurrentSnapshot (snapshotJsonFile : Option (List UInt8)) (sm : StateMachine ν δ μ) :
    Option (SnapshotMeta μ × List UInt8) × StateMachine ν δ μ :=
  match sm.currentSnapshot with
  | some persisted => (some (persisted.header, json.persisted.toVec persisted), sm)
  | none =>
      if sm.snapshotDir then
        match snapshotJsonFile.bind json.persisted.fromSlice with
        | some persisted =>
            (some (persisted.header, json.persisted.toVec persisted),
              { sm with currentSnapshot := some persisted })
        | none => (none, sm)
      else (none, sm)

end StateMachine

end Calls

end Kkdb.Raft
