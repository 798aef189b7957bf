import Kkdb.Raft.DtxSafety

namespace Kkdb.Raft.Dtx

open Lib

-- The messages that a participant sends.
inductive Answer where
  | VoteResult (dtxId participant : Nat) (vote : Vote) (reason : Option String)
  | PreCommitAck (dtxId participant : Nat)
  | Ack (dtxId participant : Nat) (success : Bool)

structure PreparedTransaction where
  dtxId : Nat
  sql : String
  localOk : Bool
  localError : Option String

structure ParticipantStats where
  totalPrepares : Nat := 0
  totalCommits : Nat := 0
  totalAborts : Nat := 0
  activePrepared : Nat := 0

structure ParticipantInner where
  nodeId : Nat
  prepared : AList (fun _ : Nat => PreparedTransaction)
  stats : ParticipantStats

-- What the node's own database does for the handlers.
structure Local where
  execute : String → Except String Unit
  commit : Nat → Bool
  abort : Nat → Bool

namespace ParticipantInner

def new (nodeId : Nat) : ParticipantInner := ⟨nodeId, ∅, {}⟩

def keep (n : ParticipantInner) (prepared : AList (fun _ : Nat => PreparedTransaction))
    (stats : ParticipantStats) : ParticipantInner :=
  { n with prepared := prepared, stats := { stats with activePrepared := prepared.entries.length } }

def handlePrepare (n : ParticipantInner) (dtxId : Nat) (sql : String)
    (localExecute : String → Except String Unit) : Answer × ParticipantInner :=
  let stats := { n.stats with totalPrepares := n.stats.totalPrepares + 1 }
  match localExecute sql with
  | .ok _ => (.VoteResult dtxId n.nodeId .Commit none,
      n.keep (n.prepared.insert dtxId ⟨dtxId, sql, true, none⟩) stats)
  | .error e => (.VoteResult dtxId n.nodeId .Abort (some e),
      n.keep (n.prepared.insert dtxId ⟨dtxId, sql, false, some e⟩) stats)

def handleCommit (n : ParticipantInner) (dtxId : Nat) (localCommit : Nat → Bool) : Answer × ParticipantInner :=
  (.Ack dtxId n.nodeId (localCommit dtxId),
    n.keep (n.prepared.erase dtxId) { n.stats with totalCommits := n.stats.totalCommits + 1 })

def handleAbort (n : ParticipantInner) (dtxId : Nat) (localAbort : Nat → Bool) : Answer × ParticipantInner :=
  (.Ack dtxId n.nodeId (localAbort dtxId),
    n.keep (n.prepared.erase dtxId) { n.stats with totalAborts := n.stats.totalAborts + 1 })

def handlePreCommit (n : ParticipantInner) (dtxId : Nat) : Answer × ParticipantInner :=
  (.PreCommitAck dtxId n.nodeId, n)

def handle (n : ParticipantInner) (node : Local) (msg : DtxMessage) : Answer × ParticipantInner :=
  match msg with
  | .Prepare dtxId sql => n.handlePrepare dtxId sql node.execute
  | .PreCommit dtxId => n.handlePreCommit dtxId
  | .Commit dtxId => n.handleCommit dtxId node.commit
  | .Abort dtxId _ => n.handleAbort dtxId node.abort

end ParticipantInner

-- The coordinator with its participants: the members of each transaction, what was sent so far, the local
-- executions that succeeded and the messages that were handled.
structure Cluster where
  coordination : Coordination
  members : List (Nat × Nat)
  nodes : Nat → ParticipantInner
  answers : List Answer
  executed : List (Nat × Nat)
  handled : List (Nat × DtxMessage)

inductive ClusterOp where
  | Coordinate (op : DtxOp)
  | Handle (id : Nat) (msg : DtxMessage) (node : Local)

namespace Cluster

def start : Cluster := ⟨.start, [], .new, [], [], []⟩

def joins (op : DtxOp) (c : CoordinatorInner) : List (Nat × Nat) :=
  match op with
  | .Begin _ participants _ => participants.map fun participant => (c.nextId, participant)
  | _ => []

def executes (id : Nat) (msg : DtxMessage) (node : Local) : List (Nat × Nat) :=
  match msg with
  | .Prepare dtxId sql => if (node.execute sql).isOk then [(dtxId, id)] else []
  | _ => []

def step (op : ClusterOp) (s : Cluster) : Cluster :=
  match op with
  | .Coordinate op => { s with
      coordination := Coordination.step op s.coordination
      members := s.members ++ joins op s.coordination.coordinator }
  | .Handle id msg node => { s with
      nodes := Function.update s.nodes id ((s.nodes id).handle node msg).2
      answers := s.answers ++ [((s.nodes id).handle node msg).1]
      executed := s.executed ++ executes (s.nodes id).nodeId msg node
      handled := s.handled ++ [((s.nodes id).nodeId, msg)] }

-- A message may be lost, repeated and overtaken, but none is made up.
def Delivered (op : ClusterOp) (s : Cluster) : Prop :=
  match op with
  | .Handle _ msg _ => msg ∈ s.coordination.sent
  | .Coordinate (.ProcessVote dtxId participant vote reason) =>
      .VoteResult dtxId participant vote reason ∈ s.answers
  | .Coordinate (.ProcessPreCommitAck dtxId participant) => .PreCommitAck dtxId participant ∈ s.answers
  | .Coordinate (.ProcessAck dtxId participant _) => ∃ success, .Ack dtxId participant success ∈ s.answers
  | .Coordinate _ => True

end Cluster

namespace DistributedTransaction

variable {dtx dtx' : DistributedTransaction} {participant : Nat}

def ballot (dtx : DistributedTransaction) (participant : Nat) : Option (Option Vote) :=
  (dtx.participants.lookup participant).map (·.vote)

theorem allVotedCommit_iff : dtx.allVotedCommit ↔ ∀ p v, dtx.ballot p = some v → v = some .Commit := by
  simp only [allVotedCommit, all_iff, ballot, Option.map_eq_some_iff, beq_iff_eq]
  exact ⟨fun h p v ⟨ps, hps, hv⟩ => hv ▸ h p ps hps, fun h p ps hps => h p _ ⟨ps, hps, rfl⟩⟩

theorem anyVotedAbort_iff : dtx.anyVotedAbort ↔ ∃ p, dtx.ballot p = some (some .Abort) := by
  simp only [anyVotedAbort, List.any_eq_true, beq_iff_eq, ballot, Option.map_eq_some_iff]
  constructor
  · exact fun ⟨e, he, hvote⟩ => ⟨e.1, e.2, AList.mem_lookup_iff.mpr he, hvote⟩
  · exact fun ⟨p, ps, hps, hvote⟩ => ⟨⟨p, ps⟩, AList.mem_lookup_iff.mp hps, hvote⟩

theorem ballot_new {id : Nat} {sql : String} {participants : List Nat} {use3pc : Bool} (p : Nat) :
    (new id sql participants use3pc).ballot p = if p ∈ participants then some none else none := by
  have hfold : ∀ m : AList (fun _ : Nat => ParticipantState),
      ((participants.foldl (fun m pid => m.insert pid (ParticipantState.new pid)) m).lookup p).map (·.vote) =
        if p ∈ participants then some none else (m.lookup p).map (·.vote) := by
    induction participants with
    | nil => exact fun m => rfl
    | cons q participants ih =>
        intro m
        rw [List.foldl_cons, ih]
        by_cases hq : p = q
        · rw [hq, AList.lookup_insert]
          simp [ParticipantState.new]
        · rw [AList.lookup_insert_ne hq]
          simp [hq]
  exact hfold ∅

theorem ballot_record {f : ParticipantState → Except String ParticipantState} {line : String}
    (h : dtx.record participant f line = .ok dtx') : ∃ ps ps', f ps = .ok ps' ∧
      dtx.ballot participant = some ps.vote ∧ dtx'.ballot participant = some ps'.vote ∧
      ∀ p, p ≠ participant → dtx'.ballot p = dtx.ballot p := by
  obtain ⟨ps, ps', hps, hrec, rfl⟩ := record_ok h
  refine ⟨ps, ps', hrec, by rw [ballot, hps]; rfl, ?_, fun p hp => ?_⟩
  · rw [ballot, log, AList.lookup_insert]
    rfl
  · rw [ballot, log, AList.lookup_insert_ne hp]
    rfl

theorem ballot_kept {f : ParticipantState → Except String ParticipantState} {line : String}
    (h : dtx.record participant f line = .ok dtx') (hf : ∀ ps ps', f ps = .ok ps' → ps'.vote = ps.vote) (p : Nat) :
    dtx'.ballot p = dtx.ballot p := by
  obtain ⟨ps, ps', hrec, hold, hnew, hother⟩ := ballot_record h
  by_cases hp : p = participant
  · rw [hp, hnew, hold, hf ps ps' hrec]
  · exact hother p hp

end DistributedTransaction

namespace Cluster

open Coordination DistributedTransaction

variable {timed : Nat → Prop} {s : Cluster} {dtxId : Nat} {dtx dtx' : DistributedTransaction}
  {c' : CoordinatorInner} {msgs : List DtxMessage} {counted : List Nat}

def Decided (msgs : List DtxMessage) (dtxId : Nat) : Prop := .PreCommit dtxId ∈ msgs ∨ .Commit dtxId ∈ msgs

-- What the coordinator knows of a transaction, against what its members did.
structure Tracked (timed : Nat → Prop) (s : Cluster) (dtxId : Nat) (dtx : DistributedTransaction) : Prop where
  asked : ∀ p, (dtxId, p) ∈ s.members → ∃ v, dtx.ballot p = some v
  voted : ∀ p, dtx.ballot p = some (some .Commit) → (dtxId, p) ∈ s.executed
  decided : Decided s.coordination.sent dtxId → dtx.allVotedCommit
  aborted : AbortSent s.coordination.sent dtxId → dtx.anyVotedAbort ∨ timed dtxId

structure Atomic (timed : Nat → Prop) (s : Cluster) : Prop where
  answered : ∀ dtxId p reason, .VoteResult dtxId p .Commit reason ∈ s.answers → (dtxId, p) ∈ s.executed
  acked : ∀ dtxId p, .PreCommitAck dtxId p ∈ s.answers → Decided s.coordination.sent dtxId
  fresh : ∀ dtxId, s.coordination.coordinator.nextId ≤ dtxId → (∀ p, (dtxId, p) ∉ s.members) ∧
    ¬Decided s.coordination.sent dtxId ∧ ¬AbortSent s.coordination.sent dtxId
  known : ∀ dtxId dtx, s.coordination.coordinator.transactions.lookup dtxId = some dtx →
    dtxId < s.coordination.coordinator.nextId ∧ Tracked timed s dtxId dtx
  valid : ∀ dtxId, Decided s.coordination.sent dtxId → ∀ p, (dtxId, p) ∈ s.members → (dtxId, p) ∈ s.executed
  agreed : ∀ dtxId, Decided s.coordination.sent dtxId → AbortSent s.coordination.sent dtxId → timed dtxId
  handled : ∀ p msg, (p, msg) ∈ s.handled → msg ∈ s.coordination.sent

theorem decided_append {sent : List DtxMessage} :
    Decided (sent ++ msgs) dtxId ↔ Decided sent dtxId ∨ Decided msgs dtxId := by
  simp only [Decided, List.mem_append]
  exact or_or_or_comm

-- A call that changes one transaction needs to be looked at there only.
theorem Atomic.moved (h : Atomic timed s) (hdtx : s.coordination.coordinator.transactions.lookup dtxId = some dtx)
    (hnext : c'.nextId = s.coordination.coordinator.nextId)
    (htransactions : c'.transactions = s.coordination.coordinator.transactions.insert dtxId dtx')
    (hmsgs : ∀ id, Decided msgs id ∨ AbortSent msgs id → id = dtxId)
    (htracked : Tracked timed { s with coordination := ⟨c', s.coordination.sent ++ msgs, counted⟩ } dtxId dtx') :
    Atomic timed { s with coordination := ⟨c', s.coordination.sent ++ msgs, counted⟩ } := by
  have hlt := (h.known dtxId dtx hdtx).1
  have hdecided : ∀ id, id ≠ dtxId → Decided (s.coordination.sent ++ msgs) id → Decided s.coordination.sent id :=
    fun id hid hd => (decided_append.mp hd).resolve_right fun hnew => hid (hmsgs id (.inl hnew))
  have haborted : ∀ id, id ≠ dtxId → AbortSent (s.coordination.sent ++ msgs) id → AbortSent s.coordination.sent id :=
    fun id hid ha => (abortSent_append.mp ha).resolve_right fun hnew => hid (hmsgs id (.inr hnew))
  refine ⟨h.answered, fun id p hp => decided_append.mpr (.inl (h.acked id p hp)), fun id hid => ?_,
    fun id dtx₀ hdtx₀ => ?_, fun id hd p hp => ?_, fun id hd ha => ?_,
    fun p msg hp => List.mem_append_left _ (h.handled p msg hp)⟩
  · dsimp only at hid
    rw [hnext] at hid
    have hne : id ≠ dtxId := by omega
    obtain ⟨hnone, hundecided, hopen⟩ := h.fresh id hid
    exact ⟨hnone, fun hd => hundecided (hdecided id hne hd), fun ha => hopen (haborted id hne ha)⟩
  · dsimp only at hdtx₀ ⊢
    rw [htransactions] at hdtx₀
    rw [hnext]
    by_cases hid : id = dtxId
    · subst hid
      rw [AList.lookup_insert] at hdtx₀
      exact ⟨hlt, Option.some.inj hdtx₀ ▸ htracked⟩
    · rw [AList.lookup_insert_ne hid] at hdtx₀
      obtain ⟨hlt₀, hold⟩ := h.known id dtx₀ hdtx₀
      exact ⟨hlt₀, hold.asked, hold.voted, fun hd => hold.decided (hdecided id hid hd),
        fun ha => hold.aborted (haborted id hid ha)⟩
  · by_cases hid : id = dtxId
    · subst hid
      obtain ⟨v, hv⟩ := htracked.asked p hp
      exact htracked.voted p (hv.trans (congrArg some (allVotedCommit_iff.mp (htracked.decided hd) p v hv)))
    · exact h.valid id (hdecided id hid hd) p hp
  · by_cases hid : id = dtxId
    · subst hid
      refine (htracked.aborted ha).resolve_left fun hany => ?_
      obtain ⟨p, hp⟩ := anyVotedAbort_iff.mp hany
      cases allVotedCommit_iff.mp (htracked.decided hd) p _ hp
    · exact h.agreed id (hdecided id hid hd) (haborted id hid ha)

-- A call that brings no vote commits only what is decided, and aborts only on a timeout.
theorem Atomic.kept (h : Atomic timed s) (hdtx : s.coordination.coordinator.transactions.lookup dtxId = some dtx)
    (hnext : c'.nextId = s.coordination.coordinator.nextId)
    (htransactions : c'.transactions = s.coordination.coordinator.transactions.insert dtxId dtx')
    (hballot : ∀ p, dtx'.ballot p = dtx.ballot p)
    (hmsgs : ∀ id, (Decided msgs id → id = dtxId ∧ Decided s.coordination.sent id) ∧
      (AbortSent msgs id → id = dtxId ∧ timed id)) :
    Atomic timed { s with coordination := ⟨c', s.coordination.sent ++ msgs, counted⟩ } := by
  have hold := (h.known dtxId dtx hdtx).2
  refine h.moved hdtx hnext htransactions (fun id hid => ?_) ⟨fun p hp => ?_, fun p hp => ?_, fun hd => ?_,
    fun ha => ?_⟩
  · exact hid.elim (fun hd => ((hmsgs id).1 hd).1) fun ha => ((hmsgs id).2 ha).1
  · rw [hballot]
    exact hold.asked p hp
  · exact hold.voted p (hballot p ▸ hp)
  · have hall := hold.decided ((decided_append.mp hd).elim id fun hnew => ((hmsgs dtxId).1 hnew).2)
    exact allVotedCommit_iff.mpr fun p v hv => allVotedCommit_iff.mp hall p v (hballot p ▸ hv)
  · rcases abortSent_append.mp ha with hsent | hnew
    · refine (hold.aborted hsent).imp_left fun hany => anyVotedAbort_iff.mpr ?_
      exact (anyVotedAbort_iff.mp hany).imp fun p hp => (hballot p).trans hp
    · exact .inr ((hmsgs dtxId).2 hnew).2

theorem not_decided_nil : ¬Decided [] dtxId := not_or.mpr ⟨List.not_mem_nil, List.not_mem_nil⟩

theorem Atomic.silent (h : Atomic timed s) (hdtx : s.coordination.coordinator.transactions.lookup dtxId = some dtx)
    (hnext : c'.nextId = s.coordination.coordinator.nextId)
    (htransactions : c'.transactions = s.coordination.coordinator.transactions.insert dtxId dtx')
    (hballot : ∀ p, dtx'.ballot p = dtx.ballot p) :
    Atomic timed { s with coordination := ⟨c', s.coordination.sent ++ [], counted⟩ } :=
  h.kept hdtx hnext htransactions hballot fun _ =>
    ⟨fun hd => absurd hd not_decided_nil, fun ha => absurd ha not_abortSent_nil⟩

theorem Atomic.processVote (h : Atomic timed s) {participant : Nat} {vote : Vote} {reason : Option String}
    (hok : s.coordination.coordinator.processVote dtxId participant vote reason = .ok (msgs, c'))
    (hop : .VoteResult dtxId participant vote reason ∈ s.answers) :
    Atomic timed { s with coordination := ⟨c', s.coordination.sent ++ msgs, counted⟩ } := by
  obtain ⟨dtx, dtx', hdtx, hrecord, rfl, rfl⟩ := processVote_ok hok
  obtain ⟨ps, ps', hps, hold, hnew, hother⟩ := ballot_record hrecord
  have hcast : ps.vote = none ∧ ps'.vote = some vote := by
    cases hvote : ps.vote with
    | some v =>
        rw [hvote, Option.isSome_some, if_pos rfl] at hps
        cases hps
    | none =>
        rw [hvote, Option.isSome_none, if_neg Bool.false_ne_true] at hps
        obtain rfl := Except.ok.inj hps
        exact ⟨rfl, rfl⟩
  rw [hcast.1] at hold
  rw [hcast.2] at hnew
  have htracked := (h.known dtxId dtx hdtx).2
  have hundecided : ∀ msgs, ¬Decided msgs dtxId → ¬Decided (s.coordination.sent ++ msgs) dtxId := by
    intro msgs hquiet hd
    have hvotes := htracked.decided ((decided_append.mp hd).resolve_right hquiet)
    cases allVotedCommit_iff.mp hvotes participant _ hold
  have hasked : ∀ p, (dtxId, p) ∈ s.members → ∃ v, dtx'.ballot p = some v := by
    intro p hp
    by_cases heq : p = participant
    · exact ⟨_, heq ▸ hnew⟩
    · exact hother p heq ▸ htracked.asked p hp
  have hvoted : ∀ p, dtx'.ballot p = some (some .Commit) → (dtxId, p) ∈ s.executed := by
    intro p hp
    by_cases heq : p = participant
    · subst heq
      obtain rfl := Option.some.inj (Option.some.inj (hnew.symm.trans hp))
      exact h.answered dtxId p reason hop
    · exact htracked.voted p (hother p heq ▸ hp)
  have haborted : ∀ msgs, ¬AbortSent msgs dtxId → AbortSent (s.coordination.sent ++ msgs) dtxId →
      dtx'.anyVotedAbort ∨ timed dtxId := by
    intro msgs hquiet ha
    refine (htracked.aborted ((abortSent_append.mp ha).resolve_right hquiet)).imp_left fun hany => ?_
    obtain ⟨p, hp⟩ := anyVotedAbort_iff.mp hany
    refine anyVotedAbort_iff.mpr ⟨p, (hother p fun heq => ?_).trans hp⟩
    rw [heq, hold] at hp
    cases hp
  have htally := tallied dtxId dtx'
  generalize CoordinatorInner.tally dtxId dtx' = t at htally
  cases htally with
  | abort hvote =>
      exact h.moved hdtx rfl rfl (fun id => by simp [Decided, AbortSent]) ⟨hasked, hvoted,
        fun hd => absurd hd (hundecided _ (by simp [Decided])), fun _ => .inl hvote⟩
  | preCommit hvotes =>
      exact h.moved hdtx rfl rfl (fun id => by simp [Decided, AbortSent]) ⟨hasked, hvoted, fun _ => hvotes,
        haborted _ (by simp [AbortSent])⟩
  | commit hvotes hphases =>
      exact h.moved hdtx rfl rfl (fun id => by simp [Decided, AbortSent]) ⟨hasked, hvoted, fun _ => hvotes,
        haborted _ (by simp [AbortSent])⟩
  | wait =>
      exact h.moved hdtx rfl rfl (fun id => by simp [Decided, AbortSent]) ⟨hasked, hvoted,
        fun hd => absurd hd (hundecided _ not_decided_nil), haborted _ not_abortSent_nil⟩

theorem Atomic.timeOuts (ids : List Nat) (acc : List (Nat × DtxMessage) × CoordinatorInner) {sent : List DtxMessage}
    (h : Atomic timed { s with coordination := ⟨acc.2, sent ++ acc.1.map (·.2), counted⟩ })
    (hids : ∀ id ∈ ids, timed id) : Atomic timed { s with coordination :=
      ⟨(ids.foldl CoordinatorInner.timeOut acc).2,
        sent ++ (ids.foldl CoordinatorInner.timeOut acc).1.map (·.2), counted⟩ } := by
  induction ids generalizing acc with
  | nil => exact h
  | cons id ids ih =>
      refine ih (CoordinatorInner.timeOut acc id) ?_ fun id' hid' => hids id' (List.mem_cons_of_mem id hid')
      unfold CoordinatorInner.timeOut
      cases hdtx : acc.2.transactions.lookup id with
      | none => exact h
      | some dtx =>
          dsimp only
          rw [List.map_append, ← List.append_assoc]
          refine h.kept hdtx rfl rfl (fun _ => rfl) fun id' => ⟨fun hd => ?_, fun ha => ?_⟩
          · simp [Decided] at hd
          · obtain rfl : id' = id := by simpa [AbortSent] using ha
            exact ⟨rfl, hids id' List.mem_cons_self⟩

-- A transaction that the timeout meets is sent an abort.
theorem aborts_timeOuts {ids : List Nat} {id : Nat} (acc : List (Nat × DtxMessage) × CoordinatorInner)
    (h : .Abort id "coordinator timeout" ∈ acc.1.map (·.2) ∨
      id ∈ ids ∧ ∃ dtx, acc.2.transactions.lookup id = some dtx) :
    .Abort id "coordinator timeout" ∈ (ids.foldl CoordinatorInner.timeOut acc).1.map (·.2) := by
  induction ids generalizing acc with
  | nil => exact h.resolve_right fun hid => List.not_mem_nil hid.1
  | cons id' ids ih =>
      refine ih (CoordinatorInner.timeOut acc id') ?_
      by_cases hsame : id = id'
      · subst hsame
        unfold CoordinatorInner.timeOut
        cases hdtx : acc.2.transactions.lookup id with
        | none => exact .inl (h.resolve_right fun hid => by simp [hdtx] at hid)
        | some dtx => exact .inl (List.mem_map.mpr ⟨_, List.mem_append_right _ List.mem_cons_self, rfl⟩)
      · rcases h with hold | ⟨hid, hdtx⟩
        · left
          unfold CoordinatorInner.timeOut
          cases acc.2.transactions.lookup id' with
          | none => exact hold
          | some dtx =>
              rw [List.map_append]
              exact List.mem_append_left _ hold
        · rw [Coordination.lookup_timeOut hsame]
          exact .inr ⟨(List.mem_cons.mp hid).resolve_left hsame, hdtx⟩

theorem Atomic.begin (h : Atomic timed s) (sql : String) (participants : List Nat) (use3pc : Bool) :
    Atomic timed (step (.Coordinate (.Begin sql participants use3pc)) s) := by
  have hdecided : ∀ id, Decided (s.coordination.sent ++ participants.map fun _ =>
      .Prepare s.coordination.coordinator.nextId sql) id ↔ Decided s.coordination.sent id := by
    intro id
    simp [Decided]
  have haborted : ∀ id, AbortSent (s.coordination.sent ++ participants.map fun _ =>
      .Prepare s.coordination.coordinator.nextId sql) id ↔ AbortSent s.coordination.sent id := by
    intro id
    simp [AbortSent]
  have hmember : ∀ id p, (id, p) ∈ s.members ++ participants.map (fun p => (s.coordination.coordinator.nextId, p)) →
      (id, p) ∈ s.members ∨ id = s.coordination.coordinator.nextId ∧ p ∈ participants := by
    intro id p hp
    simpa [eq_comm, and_comm] using hp
  obtain ⟨hnone, hundecided, hopen⟩ := h.fresh _ (Nat.le_refl _)
  refine ⟨h.answered, fun id p hp => (hdecided id).mpr (h.acked id p hp), fun id hid => ?_, fun id dtx hdtx => ?_,
    fun id hd p hp => ?_, fun id hd ha => h.agreed id ((hdecided id).mp hd) ((haborted id).mp ha),
    fun p msg hp => List.mem_append_left _ (h.handled p msg hp)⟩
  · have hlt : s.coordination.coordinator.nextId < id := hid
    obtain ⟨hnone, hundecided, hopen⟩ := h.fresh id (Nat.le_of_lt hlt)
    refine ⟨fun p hp => ?_, fun hd => hundecided ((hdecided id).mp hd), fun ha => hopen ((haborted id).mp ha)⟩
    rcases hmember id p hp with hold | ⟨heq, -⟩
    · exact hnone p hold
    · omega
  · have hinsert : (s.coordination.coordinator.transactions.insert s.coordination.coordinator.nextId
      (.new s.coordination.coordinator.nextId sql participants use3pc)).lookup id = some dtx := hdtx
    by_cases hid : id = s.coordination.coordinator.nextId
    · rw [hid, AList.lookup_insert] at hinsert
      obtain rfl := Option.some.inj hinsert
      subst hid
      refine ⟨Nat.lt_succ_self _, fun p hp => ⟨none, ?_⟩, fun p hp => ?_, fun hd => ?_, fun ha => ?_⟩
      · rw [ballot_new, if_pos ((hmember _ p hp).resolve_left (hnone p)).2]
      · rw [ballot_new] at hp
        split_ifs at hp
        cases hp
      · exact absurd ((hdecided _).mp hd) hundecided
      · exact absurd ((haborted _).mp ha) hopen
    · rw [AList.lookup_insert_ne hid] at hinsert
      obtain ⟨hlt, hold⟩ := h.known id dtx hinsert
      exact ⟨Nat.lt_succ_of_lt hlt, fun p hp => hold.asked p ((hmember id p hp).resolve_right fun hnew => hid hnew.1),
        hold.voted, fun hd => hold.decided ((hdecided id).mp hd), fun ha => hold.aborted ((haborted id).mp ha)⟩
  · have hold := (hdecided id).mp hd
    rcases hmember id p hp with hmem | ⟨rfl, -⟩
    · exact h.valid id hold p hmem
    · exact absurd hold hundecided

theorem Atomic.coordinate (h : Atomic timed s) {op : DtxOp} (hop : Delivered (.Coordinate op) s)
    (htimed : ∀ expired, op = .CheckTimeouts expired → ∀ id, expired id →
      AbortSent (Coordination.emitted op s.coordination.coordinator) id → timed id) :
    Atomic timed (step (.Coordinate op) s) := by
  by_cases hbegin : ∃ sql participants use3pc, op = .Begin sql participants use3pc
  · obtain ⟨sql, participants, use3pc, rfl⟩ := hbegin
    exact h.begin sql participants use3pc
  have hjoins : s.members ++ joins op s.coordination.coordinator = s.members := by
    cases op with
    | Begin sql participants use3pc => exact absurd ⟨sql, participants, use3pc, rfl⟩ hbegin
    | _ => exact List.append_nil _
  have hfailed : Atomic timed { s with coordination := ⟨s.coordination.coordinator, s.coordination.sent ++ [],
      s.coordination.counted ++ []⟩ } := by
    rw [List.append_nil, List.append_nil]
    exact h
  rw [step, hjoins, Coordination.step]
  cases op with
  | Begin sql participants use3pc => exact absurd ⟨sql, participants, use3pc, rfl⟩ hbegin
  | ProcessVote dtxId participant vote reason =>
      rw [after, emitted]
      cases hok : s.coordination.coordinator.processVote dtxId participant vote reason with
      | error e => exact hfailed
      | ok r => exact h.processVote hok hop
  | ProcessPreCommitAck dtxId participant =>
      rw [after, emitted]
      cases hok : s.coordination.coordinator.processPreCommitAck dtxId participant with
      | error e => exact hfailed
      | ok r =>
          obtain ⟨msgs, c'⟩ := r
          obtain ⟨dtx, dtx', hdtx, hrecord, hcases⟩ := processPreCommitAck_ok hok
          have hballot := ballot_kept hrecord fun ps ps' hps => by obtain rfl := Except.ok.inj hps; rfl
          rcases hcases with ⟨-, rfl, line, rfl⟩ | ⟨rfl, rfl⟩
          · refine h.kept hdtx rfl rfl hballot fun id => ⟨fun hd => ?_, fun ha => ?_⟩
            · obtain rfl : id = dtxId := by simpa [Decided] using hd
              exact ⟨rfl, h.acked _ _ hop⟩
            · simp [AbortSent] at ha
          · exact h.silent hdtx rfl rfl hballot
  | ProcessAck dtxId participant wasCommit =>
      rw [after, emitted, counts]
      cases hok : s.coordination.coordinator.processAck dtxId participant wasCommit with
      | error e => exact hfailed
      | ok r =>
          obtain ⟨dtx, dtx', hdtx, hrecord, hcases⟩ := processAck_ok hok
          have hballot : ∀ p, dtx'.ballot p = dtx.ballot p := by
            unfold recordAck at hrecord
            split_ifs at hrecord <;>
              exact ballot_kept hrecord fun ps ps' hps => by obtain rfl := Except.ok.inj hps; rfl
          rcases hcases with ⟨-, -, hnext, htransactions, -⟩ | ⟨-, heq⟩
          · exact h.silent hdtx hnext htransactions hballot
          · exact h.silent hdtx (congrArg (·.nextId) heq) (congrArg (·.transactions) heq) hballot
  | CheckTimeouts expired =>
      refine Atomic.timeOuts _ ([], _) ?_ fun id hid => ?_
      · exact hfailed
      · obtain ⟨dtx, hdtx, hexpired, -⟩ := mem_timedOut.mp hid
        exact htimed expired rfl id hexpired ⟨_, aborts_timeOuts ([], _) (.inr ⟨hid, dtx, hdtx⟩)⟩
  | Cleanup dtxId =>
      refine ⟨hfailed.answered, hfailed.acked, hfailed.fresh, fun id dtx hdtx => ?_, hfailed.valid, hfailed.agreed,
        hfailed.handled⟩
      obtain ⟨hlt, hold⟩ := hfailed.known id dtx (lookup_cleanup hdtx)
      exact ⟨hlt, hold.asked, hold.voted, hold.decided, hold.aborted⟩

theorem Atomic.handle (h : Atomic timed s) {id : Nat} {msg : DtxMessage} {node : Local}
    (hmsg : msg ∈ s.coordination.sent) : Atomic timed (step (.Handle id msg node) s) := by
  refine ⟨fun dtxId p reason hp => ?_, fun dtxId p hp => ?_, h.fresh, fun dtxId dtx hdtx => ?_,
    fun dtxId hd p hp => List.mem_append_left _ (h.valid dtxId hd p hp), h.agreed, fun p msg' hp => ?_⟩
  · refine List.mem_append.mpr ((List.mem_append.mp hp).imp (h.answered dtxId p reason) fun hnew => ?_)
    have hanswer := List.mem_singleton.mp hnew
    cases msg with
    | Prepare dtxId' sql =>
        rw [ParticipantInner.handle, ParticipantInner.handlePrepare] at hanswer
        rw [executes]
        cases hexec : node.execute sql with
        | ok u =>
            rw [hexec] at hanswer
            cases hanswer
            exact List.mem_singleton.mpr rfl
        | error e =>
            rw [hexec] at hanswer
            cases hanswer
    | _ => cases hanswer
  · rcases List.mem_append.mp hp with hold | hnew
    · exact h.acked dtxId p hold
    · have hanswer := List.mem_singleton.mp hnew
      cases msg with
      | PreCommit dtxId' =>
          cases hanswer
          exact .inl hmsg
      | Prepare dtxId' sql =>
          rw [ParticipantInner.handle, ParticipantInner.handlePrepare] at hanswer
          cases hexec : node.execute sql <;> rw [hexec] at hanswer <;> cases hanswer
      | _ => cases hanswer
  · obtain ⟨hlt, hold⟩ := h.known dtxId dtx hdtx
    exact ⟨hlt, hold.asked, fun p hp => List.mem_append_left _ (hold.voted p hp), hold.decided, hold.aborted⟩
  · rcases List.mem_append.mp hp with hold | hnew
    · exact h.handled p msg' hold
    · cases List.mem_singleton.mp hnew
      exact hmsg

theorem atomic_start (timed : Nat → Prop) : Atomic timed start where
  answered := fun _ _ _ h => absurd h List.not_mem_nil
  acked := fun _ _ h => absurd h List.not_mem_nil
  fresh := fun _ _ => ⟨fun _ => List.not_mem_nil, not_decided_nil, not_abortSent_nil⟩
  known := fun _ _ h => by cases h
  valid := fun _ _ _ h => absurd h List.not_mem_nil
  agreed := fun _ _ h => absurd h not_abortSent_nil
  handled := fun _ _ h => absurd h List.not_mem_nil

-- No participant commits before all members have executed the statement, and what one commits another aborts only
-- when a timeout of the coordinator has sent the abort.
theorem committed_together {ops : List ClusterOp} (h : Meets step Delivered ops start) {p : Nat}
    (hcommit : (p, .Commit dtxId) ∈ (run step ops start).handled) :
    (∀ q, (dtxId, q) ∈ (run step ops start).members → (dtxId, q) ∈ (run step ops start).executed) ∧
      ∀ q reason, (q, .Abort dtxId reason) ∈ (run step ops start).handled →
        ∃ before expired after, ops = before ++ .Coordinate (.CheckTimeouts expired) :: after ∧ expired dtxId ∧
          AbortSent (Coordination.emitted (.CheckTimeouts expired)
            (run step before start).coordination.coordinator) dtxId := by
  let timed : Nat → Prop := fun id => ∃ before expired after,
    ops = before ++ .Coordinate (.CheckTimeouts expired) :: after ∧ expired id ∧
      AbortSent (Coordination.emitted (.CheckTimeouts expired)
        (run step before start).coordination.coordinator) id
  have hguard : Meets step (fun op s => Delivered op s ∧ ∃ before after, ops = before ++ op :: after ∧
      s = run step before start) ops start := by
    refine meets_of_prefixes fun before op after heq => ⟨?_, before, after, heq, rfl⟩
    rw [heq] at h
    exact h.at
  have hatomic : Atomic timed (run step ops start) := by
    refine run_invariant (Atomic timed) (atomic_start timed) (fun op s hs hop => ?_) hguard
    obtain ⟨hdelivered, before, after, heq, rfl⟩ := hop
    cases op with
    | Coordinate op =>
        refine hs.coordinate hdelivered fun expired hop id hid hsent => ?_
        subst hop
        exact ⟨before, expired, after, heq, hid, hsent⟩
    | Handle id msg node => exact hs.handle hdelivered
  have hdecided : Decided (run step ops start).coordination.sent dtxId := .inr (hatomic.handled p _ hcommit)
  exact ⟨hatomic.valid dtxId hdecided, fun q reason hq =>
    hatomic.agreed dtxId hdecided ⟨reason, hatomic.handled q _ hq⟩⟩

section Example

def willing : Local := ⟨fun _ => .ok (), fun _ => true, fun _ => true⟩

def overtaken : List ClusterOp :=
  [.Coordinate (.Begin "UPDATE t" [1, 2] false), .Handle 1 (.Prepare 1 "UPDATE t") willing,
    .Handle 2 (.Prepare 1 "UPDATE t") willing, .Coordinate (.ProcessVote 1 2 .Commit none),
    .Coordinate (.ProcessVote 1 1 .Commit none), .Coordinate (.CheckTimeouts fun _ => true),
    .Handle 2 (.Abort 1 "coordinator timeout") willing, .Handle 1 (.Commit 1) willing]

theorem committed_together_overtaken : (1, 1) ∈ (run step overtaken start).executed ∧
    ∃ before expired after, overtaken = before ++ .Coordinate (.CheckTimeouts expired) :: after ∧ expired 1 ∧
      AbortSent (Coordination.emitted (.CheckTimeouts expired) (run step before start).coordination.coordinator)
        1 := by
  have hmeets : Meets step Delivered overtaken start := by
    refine ⟨trivial, ?_, ?_, ?_, ?_, trivial, ?_, ?_, trivial⟩
    · exact .head _
    · exact .head _
    · exact .tail _ (.head _)
    · exact .head _
    · exact .tail _ (.tail _ (.tail _ (.head _)))
    · exact .tail _ (.tail _ (.head _))
  have hcommit : (1, .Commit 1) ∈ (run step overtaken start).handled := .tail _ (.tail _ (.tail _ (.head _)))
  obtain ⟨hvalid, habort⟩ := committed_together hmeets hcommit
  exact ⟨hvalid 1 (.head _), habort 2 "coordinator timeout" (.tail _ (.tail _ (.head _)))⟩

end Example

end Cluster

end Kkdb.Raft.Dtx
