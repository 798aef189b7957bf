import Kkdb.Lib.State
import Mathlib.Data.List.AList

namespace Kkdb.Raft.Dtx

open Lib

inductive DtxState where
  | Init
  | Preparing
  | PreCommitted
  | Committing
  | Aborting
  | Committed
  | Aborted
  deriving DecidableEq

namespace DtxState

def display : DtxState → String
  | .Init => "INIT"
  | .Preparing => "PREPARING"
  | .PreCommitted => "PRE_COMMITTED"
  | .Committing => "COMMITTING"
  | .Aborting => "ABORTING"
  | .Committed => "COMMITTED"
  | .Aborted => "ABORTED"

def terminal : DtxState → Bool
  | .Committed | .Aborted => true
  | _ => false

end DtxState

inductive Vote where
  | Commit
  | Abort
  deriving DecidableEq

def Vote.debug : Vote → String
  | .Commit => "Commit"
  | .Abort => "Abort"

-- The messages that the coordinator sends. The answers are the arguments of its calls.
inductive DtxMessage where
  | Prepare (dtxId : Nat) (sql : String)
  | PreCommit (dtxId : Nat)
  | Commit (dtxId : Nat)
  | Abort (dtxId : Nat) (reason : String)
  deriving DecidableEq

structure ParticipantState where
  id : Nat
  vote : Option Vote
  voteReason : Option String
  preCommitAcked : Bool
  committed : Bool
  aborted : Bool

def ParticipantState.new (id : Nat) : ParticipantState where
  id := id
  vote := none
  voteReason := none
  preCommitAcked := false
  committed := false
  aborted := false

-- The order of the participants decides only the order of the reasons of an abort.
structure DistributedTransaction where
  id : Nat
  sql : String
  state : DtxState
  participants : AList (fun _ : Nat => ParticipantState)
  use3pc : Bool
  decisionLog : List String

namespace DistributedTransaction

def label (id : Nat) : String := "DTX-" ++ toString id ++ ": "

def new (id : Nat) (sql : String) (participants : List Nat) (use3pc : Bool) : DistributedTransaction where
  id := id
  sql := sql
  state := .Init
  participants := participants.foldl (fun m pid => m.insert pid (ParticipantState.new pid)) ∅
  use3pc := use3pc
  decisionLog := [label id ++ "created"]

def all (dtx : DistributedTransaction) (q : ParticipantState → Bool) : Bool :=
  dtx.participants.entries.all fun e => q e.2

def allVotesReceived (dtx : DistributedTransaction) : Bool := dtx.all fun p => p.vote.isSome

def allVotedCommit (dtx : DistributedTransaction) : Bool := dtx.all fun p => p.vote == some .Commit

def anyVotedAbort (dtx : DistributedTransaction) : Bool :=
  dtx.participants.entries.any fun e => e.2.vote == some .Abort

def allPreCommitAcked (dtx : DistributedTransaction) : Bool := dtx.all fun p => p.preCommitAcked

def allCommitted (dtx : DistributedTransaction) : Bool := dtx.all fun p => p.committed

def allAborted (dtx : DistributedTransaction) : Bool := dtx.all fun p => p.aborted

def log (dtx : DistributedTransaction) (line : String) : DistributedTransaction :=
  { dtx with decisionLog := dtx.decisionLog ++ [line] }

def enter (dtx : DistributedTransaction) (state : DtxState) : DistributedTransaction :=
  { dtx with state := state }

def record (dtx : DistributedTransaction) (participant : Nat)
    (f : ParticipantState → Except String ParticipantState) (line : String) :
    Except String DistributedTransaction :=
  match dtx.participants.lookup participant with
  | none => .error ("unknown participant " ++ toString participant)
  | some ps =>
      match f ps with
      | .error e => .error e
      | .ok ps' => .ok ({ dtx with participants := dtx.participants.insert participant ps' }.log line)

def recordVote (dtx : DistributedTransaction) (participant : Nat) (vote : Vote) (reason : Option String) :
    Except String DistributedTransaction :=
  dtx.record participant
    (fun ps =>
      if ps.vote.isSome then .error ("participant " ++ toString participant ++ " already voted")
      else .ok { ps with vote := some vote, voteReason := reason })
    (label dtx.id ++ "participant " ++ toString participant ++ " voted " ++ vote.debug ++
      (reason.map fun r => " (" ++ r ++ ")").getD "")

def recordPreCommitAck (dtx : DistributedTransaction) (participant : Nat) :
    Except String DistributedTransaction :=
  dtx.record participant (fun ps => .ok { ps with preCommitAcked := true })
    (label dtx.id ++ "participant " ++ toString participant ++ " pre-commit-acked")

def recordCommitted (dtx : DistributedTransaction) (participant : Nat) : Except String DistributedTransaction :=
  dtx.record participant (fun ps => .ok { ps with committed := true })
    (label dtx.id ++ "participant " ++ toString participant ++ " committed")

def recordAborted (dtx : DistributedTransaction) (participant : Nat) : Except String DistributedTransaction :=
  dtx.record participant (fun ps => .ok { ps with aborted := true })
    (label dtx.id ++ "participant " ++ toString participant ++ " aborted")

def abortReason (dtx : DistributedTransaction) : String :=
  "; ".intercalate (dtx.participants.entries.filterMap fun e =>
    if e.2.vote = some .Abort then e.2.voteReason else none)

end DistributedTransaction

structure DtxStats where
  totalTransactions : Nat := 0
  totalCommitted : Nat := 0
  totalAborted : Nat := 0
  totalTimeouts : Nat := 0
  activeTransactions : Nat := 0

structure CoordinatorInner where
  transactions : AList (fun _ : Nat => DistributedTransaction)
  nextId : Nat
  completedLog : List (Nat × DtxState)
  maxCompletedLog : Nat
  stats : DtxStats

namespace CoordinatorInner

def new : CoordinatorInner where
  transactions := ∅
  nextId := 1
  completedLog := []
  maxCompletedLog := 100
  stats := {}

def store (c : CoordinatorInner) (dtxId : Nat) (dtx : DistributedTransaction) : CoordinatorInner :=
  { c with transactions := c.transactions.insert dtxId dtx }

def begin (c : CoordinatorInner) (sql : String) (participants : List Nat) (use3pc : Bool) :
    Nat × List DtxMessage × CoordinatorInner :=
  (c.nextId, participants.map fun _ => .Prepare c.nextId sql,
    { c with
      nextId := c.nextId + 1
      stats := { c.stats with
        totalTransactions := c.stats.totalTransactions + 1
        activeTransactions := c.stats.activeTransactions + 1 }
      transactions := c.transactions.insert c.nextId (.new c.nextId sql participants use3pc) })

def find (c : CoordinatorInner) (dtxId : Nat) : Except String DistributedTransaction :=
  match c.transactions.lookup dtxId with
  | some dtx => .ok dtx
  | none => .error ("DTX-" ++ toString dtxId ++ " not found")

def tally (dtxId : Nat) (dtx : DistributedTransaction) : List DtxMessage × DistributedTransaction :=
  if dtx.anyVotedAbort then
    ([.Abort dtxId dtx.abortReason],
      (dtx.enter .Aborting).log (DistributedTransaction.label dtxId ++ "decision=ABORT (" ++
        dtx.abortReason ++ ")"))
  else if dtx.allVotesReceived && dtx.allVotedCommit then
    if dtx.use3pc then
      ([.PreCommit dtxId],
        (dtx.enter .PreCommitted).log
          (DistributedTransaction.label dtxId ++ "all voted COMMIT, entering PRE_COMMIT"))
    else
      ([.Commit dtxId],
        (dtx.enter .Committing).log (DistributedTransaction.label dtxId ++ "all voted COMMIT, decision=COMMIT"))
  else ([], dtx)

def processVote (c : CoordinatorInner) (dtxId participant : Nat) (vote : Vote) (reason : Option String) :
    Except String (List DtxMessage × CoordinatorInner) := do
  let dtx ← c.find dtxId
  let dtx ← dtx.recordVote participant vote reason
  return ((tally dtxId dtx).1, c.store dtxId (tally dtxId dtx).2)

def processPreCommitAck (c : CoordinatorInner) (dtxId participant : Nat) :
    Except String (List DtxMessage × CoordinatorInner) := do
  let dtx ← c.find dtxId
  let dtx ← dtx.recordPreCommitAck participant
  if dtx.allPreCommitAcked then
    return ([.Commit dtxId], c.store dtxId ((dtx.enter .Committing).log
      (DistributedTransaction.label dtxId ++ "all pre-commit acked, decision=COMMIT")))
  else return ([], c.store dtxId dtx)

-- The oldest entry goes once the log is over its length.
def complete (c : CoordinatorInner) (dtxId : Nat) (state : DtxState) : CoordinatorInner :=
  let completedLog := c.completedLog ++ [(dtxId, state)]
  { c with
    completedLog := if c.maxCompletedLog < completedLog.length then completedLog.drop 1 else completedLog
    stats := { c.stats with activeTransactions := c.stats.activeTransactions - 1 } }

def processAck (c : CoordinatorInner) (dtxId participant : Nat) (wasCommit : Bool) :
    Except String (Option DtxState × CoordinatorInner) := do
  let dtx ← c.find dtxId
  if wasCommit then
    let dtx ← dtx.recordCommitted participant
    if dtx.allCommitted then
      let c := (c.store dtxId (dtx.enter .Committed)).complete dtxId .Committed
      return (some .Committed,
        { c with stats := { c.stats with totalCommitted := c.stats.totalCommitted + 1 } })
    else return (none, c.store dtxId dtx)
  else
    let dtx ← dtx.recordAborted participant
    if dtx.allAborted then
      let c := (c.store dtxId (dtx.enter .Aborted)).complete dtxId .Aborted
      return (some .Aborted,
        { c with stats := { c.stats with totalAborted := c.stats.totalAborted + 1 } })
    else return (none, c.store dtxId dtx)

-- The log names the state that has just been entered, not the one that timed out.
def timeOut (acc : List (Nat × DtxMessage) × CoordinatorInner) (dtxId : Nat) :
    List (Nat × DtxMessage) × CoordinatorInner :=
  match acc.2.transactions.lookup dtxId with
  | none => acc
  | some dtx =>
      let dtx := dtx.enter .Aborting
      let c := acc.2.store dtxId
        (dtx.log (DistributedTransaction.label dtxId ++ "TIMEOUT in state " ++ dtx.state.display))
      (acc.1 ++ [(dtxId, .Abort dtxId "coordinator timeout")],
        { c with stats := { c.stats with totalTimeouts := c.stats.totalTimeouts + 1 } })

-- `expired` is what the clock says of the phase of each transaction.
def checkTimeouts (c : CoordinatorInner) (expired : Nat → Bool) : List (Nat × DtxMessage) × CoordinatorInner :=
  let timedOut := (c.transactions.entries.filter fun e => expired e.1 && !e.2.state.terminal).map (·.1)
  timedOut.foldl timeOut ([], c)

def cleanup (c : CoordinatorInner) (dtxId : Nat) : Bool × CoordinatorInner :=
  ((c.transactions.lookup dtxId).isSome, { c with transactions := c.transactions.erase dtxId })

end CoordinatorInner

inductive DtxOp where
  | Begin (sql : String) (participants : List Nat) (use3pc : Bool)
  | ProcessVote (dtxId participant : Nat) (vote : Vote) (reason : Option String)
  | ProcessPreCommitAck (dtxId participant : Nat)
  | ProcessAck (dtxId participant : Nat) (wasCommit : Bool)
  | CheckTimeouts (expired : Nat → Bool)
  | Cleanup (dtxId : Nat)

-- A coordinator with the messages it has sent and the transactions that its totals count.
structure Coordination where
  coordinator : CoordinatorInner
  sent : List DtxMessage
  counted : List Nat

namespace Coordination

def start : Coordination where
  coordinator := .new
  sent := []
  counted := []

def emitted (op : DtxOp) (c : CoordinatorInner) : List DtxMessage :=
  match op with
  | .Begin sql participants use3pc => (c.begin sql participants use3pc).2.1
  | .ProcessVote dtxId participant vote reason =>
      match c.processVote dtxId participant vote reason with
      | .ok (msgs, _) => msgs
      | .error _ => []
  | .ProcessPreCommitAck dtxId participant =>
      match c.processPreCommitAck dtxId participant with
      | .ok (msgs, _) => msgs
      | .error _ => []
  | .ProcessAck _ _ _ => []
  | .CheckTimeouts expired => (c.checkTimeouts expired).1.map (·.2)
  | .Cleanup _ => []

def after (op : DtxOp) (c : CoordinatorInner) : CoordinatorInner :=
  match op with
  | .Begin sql participants use3pc => (c.begin sql participants use3pc).2.2
  | .ProcessVote dtxId participant vote reason =>
      match c.processVote dtxId participant vote reason with
      | .ok (_, c') => c'
      | .error _ => c
  | .ProcessPreCommitAck dtxId participant =>
      match c.processPreCommitAck dtxId participant with
      | .ok (_, c') => c'
      | .error _ => c
  | .ProcessAck dtxId participant wasCommit =>
      match c.processAck dtxId participant wasCommit with
      | .ok (_, c') => c'
      | .error _ => c
  | .CheckTimeouts expired => (c.checkTimeouts expired).2
  | .Cleanup dtxId => (c.cleanup dtxId).2

def counts (op : DtxOp) (c : CoordinatorInner) : List Nat :=
  match op with
  | .ProcessAck dtxId participant wasCommit =>
      match c.processAck dtxId participant wasCommit with
      | .ok (some _, _) => [dtxId]
      | _ => []
  | _ => []

def step (op : DtxOp) (s : Coordination) : Coordination where
  coordinator := after op s.coordinator
  sent := s.sent ++ emitted op s.coordinator
  counted := s.counted ++ counts op s.coordinator

end Coordination

end Kkdb.Raft.Dtx
