import Kkdb.Raft.Dtx

namespace Kkdb.Raft.Dtx

open Lib

namespace DistributedTransaction

variable {dtx dtx' : DistributedTransaction} {participant : Nat}

theorem all_iff (dtx : DistributedTransaction) (q : ParticipantState → Bool) :
    dtx.all q ↔ ∀ pid ps, dtx.participants.lookup pid = some ps → q ps := by
  simp only [all, List.all_eq_true]
  constructor
  · intro h pid ps hps
    exact h ⟨pid, ps⟩ (AList.mem_lookup_iff.mp hps)
  · intro h e he
    exact h e.1 e.2 (AList.mem_lookup_iff.mpr he)

variable {f : ParticipantState → Except String ParticipantState}

theorem record_ok {line : String} (h : dtx.record participant f line = .ok dtx') :
    ∃ ps ps', dtx.participants.lookup participant = some ps ∧ f ps = .ok ps' ∧
      dtx' = { dtx with participants := dtx.participants.insert participant ps' }.log line := by
  unfold record at h
  cases hps : dtx.participants.lookup participant with
  | none =>
      rw [hps] at h
      cases h
  | some ps =>
      rw [hps] at h
      dsimp only at h
      cases hf : f ps with
      | error e =>
          rw [hf] at h
          cases h
      | ok ps' =>
          rw [hf] at h
          exact ⟨ps, ps', rfl, hf, (Except.ok.inj h).symm⟩

theorem record_frame {line : String}
    (h : dtx.record participant f line = .ok dtx') : dtx'.state = dtx.state ∧ dtx'.use3pc = dtx.use3pc := by
  obtain ⟨ps, ps', -, -, rfl⟩ := record_ok h
  exact ⟨rfl, rfl⟩

theorem all_record {line : String} {q : ParticipantState → Bool} (h : dtx.record participant f line = .ok dtx')
    (hf : ∀ ps ps', f ps = .ok ps' → q ps → q ps') (hall : dtx.all q) : dtx'.all q := by
  obtain ⟨ps, ps', hps, hrec, rfl⟩ := record_ok h
  rw [all_iff] at hall ⊢
  intro pid ps'' hlookup
  have hinsert : (dtx.participants.insert participant ps').lookup pid = some ps'' := hlookup
  by_cases hpid : pid = participant
  · rw [hpid, AList.lookup_insert] at hinsert
    obtain rfl := Option.some.inj hinsert
    exact hf ps ps' hrec (hall participant ps hps)
  · rw [AList.lookup_insert_ne hpid] at hinsert
    exact hall pid ps'' hinsert

theorem allVotedCommit_preCommitAck (h : dtx.recordPreCommitAck participant = .ok dtx')
    (hall : dtx.allVotedCommit) : dtx'.allVotedCommit :=
  all_record h (fun ps ps' hps hvote => by obtain rfl := Except.ok.inj hps; exact hvote) hall

theorem allVotedCommit_committed (h : dtx.recordCommitted participant = .ok dtx')
    (hall : dtx.allVotedCommit) : dtx'.allVotedCommit :=
  all_record h (fun ps ps' hps hvote => by obtain rfl := Except.ok.inj hps; exact hvote) hall

theorem allVotedCommit_aborted (h : dtx.recordAborted participant = .ok dtx')
    (hall : dtx.allVotedCommit) : dtx'.allVotedCommit :=
  all_record h (fun ps ps' hps hvote => by obtain rfl := Except.ok.inj hps; exact hvote) hall

-- Once all have voted there is no vote left to record.
theorem not_allVotedCommit {vote : Vote} {reason : Option String}
    (h : dtx.recordVote participant vote reason = .ok dtx') : ¬dtx.allVotedCommit := by
  intro hall
  obtain ⟨ps, ps', hps, hrec, -⟩ := record_ok h
  have hvote := (all_iff dtx _).mp hall participant ps hps
  rw [beq_iff_eq] at hvote
  rw [hvote, Option.isSome_some, if_pos rfl] at hrec
  cases hrec

end DistributedTransaction

namespace Coordination

def CommitSent (sent : List DtxMessage) (dtxId : Nat) : Prop := .Commit dtxId ∈ sent

def AbortSent (sent : List DtxMessage) (dtxId : Nat) : Prop := ∃ reason, .Abort dtxId reason ∈ sent

structure Safe (s : Coordination) : Prop where
  decided : ∀ dtxId, ¬(CommitSent s.sent dtxId ∧ AbortSent s.sent dtxId)
  once : s.counted.Nodup
  totals : s.coordinator.stats.totalCommitted + s.coordinator.stats.totalAborted = s.counted.length

-- A commit is sent on the votes of all, and behind the acknowledgements of all where
-- there is a pre-commit phase; a final state stays.
structure Respects (op : DtxOp) (s : Coordination) : Prop where
  voted : ∀ dtxId, .Commit dtxId ∈ emitted op s.coordinator →
    ∃ dtx, (after op s.coordinator).transactions.lookup dtxId = some dtx ∧ dtx.allVotedCommit ∧
      (dtx.use3pc → dtx.allPreCommitAcked)
  kept : ∀ dtxId dtx dtx', s.coordinator.transactions.lookup dtxId = some dtx → dtx.state.terminal →
    (after op s.coordinator).transactions.lookup dtxId = some dtx' → dtx'.state = dtx.state

def final (wasCommit : Bool) : DtxState := if wasCommit then .Committed else .Aborted

def recordAck (wasCommit : Bool) (dtx : DistributedTransaction) (participant : Nat) :
    Except String DistributedTransaction :=
  if wasCommit then dtx.recordCommitted participant else dtx.recordAborted participant

def allAcked (wasCommit : Bool) (dtx : DistributedTransaction) : Bool :=
  if wasCommit then dtx.allCommitted else dtx.allAborted

-- No answer decides outside of its phase: a vote to abort not behind the end, the last
-- vote to commit not behind a timeout or the end, the last pre-commit acknowledgement only
-- behind the votes, the last acknowledgement not behind the end; and no timeout fires
-- behind the decision to commit.
def Lawful (op : DtxOp) (s : Coordination) : Prop :=
  match op with
  | .ProcessVote dtxId participant vote reason =>
      ∀ dtx dtx', s.coordinator.transactions.lookup dtxId = some dtx →
        dtx.recordVote participant vote reason = .ok dtx' →
          (dtx'.anyVotedAbort → ¬dtx.state.terminal) ∧
            (dtx'.allVotedCommit → dtx.state = .Init ∨ dtx.state = .Preparing)
  | .ProcessPreCommitAck dtxId participant =>
      ∀ dtx dtx', s.coordinator.transactions.lookup dtxId = some dtx →
        dtx.recordPreCommitAck participant = .ok dtx' → dtx'.allPreCommitAcked →
          dtx.state = .PreCommitted ∨ dtx.state = .Committing
  | .ProcessAck dtxId participant wasCommit =>
      ∀ dtx dtx', s.coordinator.transactions.lookup dtxId = some dtx →
        recordAck wasCommit dtx participant = .ok dtx' → allAcked wasCommit dtx' → ¬dtx.state.terminal
  | .CheckTimeouts expired =>
      ∀ dtxId dtx, s.coordinator.transactions.lookup dtxId = some dtx → expired dtxId →
        dtx.state ≠ .Committing
  | _ => True

structure Held (sent : List DtxMessage) (counted : List Nat) (dtxId : Nat) (dtx : DistributedTransaction) :
    Prop where
  commit : CommitSent sent dtxId → dtx.allVotedCommit ∧ (dtx.state = .Committing ∨ dtx.state.terminal)
  abort : AbortSent sent dtxId → dtx.state = .Aborting ∨ dtx.state.terminal
  ready : dtx.state = .PreCommitted ∨ dtx.state = .Committing → dtx.allVotedCommit
  counted : dtxId ∈ counted → dtx.state.terminal

structure Sound (s : Coordination) : Prop extends Safe s where
  fresh : ∀ dtxId, s.coordinator.nextId ≤ dtxId → s.coordinator.transactions.lookup dtxId = none
  old : ∀ dtxId, CommitSent s.sent dtxId ∨ AbortSent s.sent dtxId ∨ dtxId ∈ s.counted →
    dtxId < s.coordinator.nextId
  held : ∀ dtxId dtx, s.coordinator.transactions.lookup dtxId = some dtx → Held s.sent s.counted dtxId dtx

variable {sent : List DtxMessage}

theorem commitSent_append {msgs : List DtxMessage} {dtxId : Nat} :
    CommitSent (sent ++ msgs) dtxId ↔ CommitSent sent dtxId ∨ CommitSent msgs dtxId := List.mem_append

theorem abortSent_append {msgs : List DtxMessage} {dtxId : Nat} :
    AbortSent (sent ++ msgs) dtxId ↔ AbortSent sent dtxId ∨ AbortSent msgs dtxId := by
  simp only [AbortSent, List.mem_append, exists_or]

theorem not_commitSent_nil {dtxId : Nat} : ¬CommitSent [] dtxId := List.not_mem_nil

theorem not_abortSent_nil {dtxId : Nat} : ¬AbortSent [] dtxId := fun ⟨_, h⟩ => List.not_mem_nil h

def About (dtxId : Nat) (msgs : List DtxMessage) : Prop :=
  ∀ id, CommitSent msgs id ∨ AbortSent msgs id → id = dtxId

variable {s : Coordination} {dtxId : Nat} {dtx dtx' : DistributedTransaction} {msgs : List DtxMessage}

variable {c : CoordinatorInner}

theorem Sound.moved (h : s.Sound) (hdtx : s.coordinator.transactions.lookup dtxId = some dtx)
    {count : List Nat}
    (htransactions : c.transactions = s.coordinator.transactions.insert dtxId dtx')
    (hnext : c.nextId = s.coordinator.nextId)
    (htotals : c.stats.totalCommitted + c.stats.totalAborted =
      s.coordinator.stats.totalCommitted + s.coordinator.stats.totalAborted + count.length)
    (hcount : count = [] ∨ count = [dtxId] ∧ dtxId ∉ s.counted) (hmsgs : About dtxId msgs)
    (hdecided : ¬(CommitSent (s.sent ++ msgs) dtxId ∧ AbortSent (s.sent ++ msgs) dtxId))
    (hheld : Held (s.sent ++ msgs) (s.counted ++ count) dtxId dtx') :
    Sound ⟨c, s.sent ++ msgs, s.counted ++ count⟩ := by
  have hknown : dtxId < s.coordinator.nextId := by
    by_contra hge
    rw [h.fresh dtxId (Nat.le_of_not_lt hge)] at hdtx
    cases hdtx
  have hcommit : ∀ id, id ≠ dtxId → (CommitSent (s.sent ++ msgs) id ↔ CommitSent s.sent id) := by
    intro id hid
    rw [commitSent_append, or_iff_left fun hmsg => hid (hmsgs id (.inl hmsg))]
  have habort : ∀ id, id ≠ dtxId → (AbortSent (s.sent ++ msgs) id ↔ AbortSent s.sent id) := by
    intro id hid
    rw [abortSent_append, or_iff_left fun hmsg => hid (hmsgs id (.inr hmsg))]
  have hcounted : ∀ id, id ≠ dtxId → (id ∈ s.counted ++ count ↔ id ∈ s.counted) := by
    intro id hid
    rcases hcount with rfl | ⟨rfl, -⟩ <;> simp [hid]
  refine ⟨⟨fun id hboth => ?_, ?_, ?_⟩, fun id hid => ?_, fun id hid => ?_, fun id dtx'' hlookup => ?_⟩
  · by_cases hid : id = dtxId
    · rw [hid] at hboth
      exact hdecided hboth
    · exact h.decided id ⟨(hcommit id hid).mp hboth.1, (habort id hid).mp hboth.2⟩
  · rcases hcount with rfl | ⟨rfl, hnew⟩
    · rw [List.append_nil]
      exact h.once
    · rw [List.nodup_append]
      refine ⟨h.once, List.nodup_singleton dtxId, fun a ha b hb hab => hnew ?_⟩
      rw [← List.mem_singleton.mp hb, ← hab]
      exact ha
  · rw [htotals, h.totals, List.length_append]
  · dsimp only at hid ⊢
    rw [hnext] at hid
    rw [htransactions, AList.lookup_insert_ne (by omega)]
    exact h.fresh id hid
  · dsimp only at hid ⊢
    rw [hnext]
    by_cases heq : id = dtxId
    · rw [heq]
      exact hknown
    · rw [hcommit id heq, habort id heq, hcounted id heq] at hid
      exact h.old id hid
  · dsimp only at hlookup ⊢
    rw [htransactions] at hlookup
    by_cases hid : id = dtxId
    · subst hid
      rw [AList.lookup_insert] at hlookup
      obtain rfl := Option.some.inj hlookup
      exact hheld
    · rw [AList.lookup_insert_ne hid] at hlookup
      have hold := h.held id dtx'' hlookup
      refine ⟨fun hc => hold.commit ((hcommit id hid).mp hc), fun ha => hold.abort ((habort id hid).mp ha),
        hold.ready, fun hc => hold.counted ((hcounted id hid).mp hc)⟩

theorem Sound.waits (h : s.Sound) (hdtx : s.coordinator.transactions.lookup dtxId = some dtx)
    (hstate : dtx'.state = dtx.state) (hvotes : dtx.allVotedCommit → dtx'.allVotedCommit) :
    Sound ⟨s.coordinator.store dtxId dtx', s.sent ++ [], s.counted ++ []⟩ := by
  have hheld := h.held dtxId dtx hdtx
  refine h.moved hdtx rfl rfl rfl (.inl rfl) (fun id hid => ?_) ?_ ?_
  · exact absurd hid (not_or.mpr ⟨not_commitSent_nil, not_abortSent_nil⟩)
  · rw [List.append_nil]
    exact h.decided dtxId
  · rw [List.append_nil, List.append_nil]
    refine ⟨fun hsent => ?_, ?_, ?_, ?_⟩
    · rw [hstate]
      exact ⟨hvotes (hheld.commit hsent).1, (hheld.commit hsent).2⟩
    · rw [hstate]
      exact hheld.abort
    · rw [hstate]
      exact fun hready => hvotes (hheld.ready hready)
    · rw [hstate]
      exact hheld.counted

theorem find_ok (h : c.find dtxId = .ok dtx) : c.transactions.lookup dtxId =
    some dtx := by
  unfold CoordinatorInner.find at h
  cases hlookup : c.transactions.lookup dtxId with
  | none =>
      rw [hlookup] at h
      cases h
  | some dtx₀ =>
      rw [hlookup] at h
      rw [Except.ok.inj h]

inductive Tallied (dtxId : Nat) (dtx : DistributedTransaction) :
    List DtxMessage × DistributedTransaction → Prop where
  | abort {reason line : String} (hvote : dtx.anyVotedAbort) :
      Tallied dtxId dtx ([.Abort dtxId reason], (dtx.enter .Aborting).log line)
  | preCommit {line : String} (hvotes : dtx.allVotedCommit) :
      Tallied dtxId dtx ([.PreCommit dtxId], (dtx.enter .PreCommitted).log line)
  | commit {line : String} (hvotes : dtx.allVotedCommit) (hphases : dtx.use3pc = false) :
      Tallied dtxId dtx ([.Commit dtxId], (dtx.enter .Committing).log line)
  | wait : Tallied dtxId dtx ([], dtx)

theorem tallied (dtxId : Nat) (dtx : DistributedTransaction) :
    Tallied dtxId dtx (CoordinatorInner.tally dtxId dtx) := by
  unfold CoordinatorInner.tally
  split_ifs with habort hall hphases
  · exact .abort habort
  · exact .preCommit (Bool.and_eq_true_iff.mp hall).2
  · exact .commit (Bool.and_eq_true_iff.mp hall).2 (Bool.eq_false_iff.mpr hphases)
  · exact .wait

variable {c' : CoordinatorInner} {participant : Nat}

theorem processVote_ok {vote : Vote} {reason : Option String}
    (h : c.processVote dtxId participant vote reason = .ok (msgs, c')) :
    ∃ dtx dtx', c.transactions.lookup dtxId = some dtx ∧ dtx.recordVote participant vote reason = .ok dtx' ∧
      msgs = (CoordinatorInner.tally dtxId dtx').1 ∧
        c' = c.store dtxId (CoordinatorInner.tally dtxId dtx').2 := by
  obtain ⟨dtx, hfind, h⟩ := ok_of_bind h
  obtain ⟨dtx', hrecord, h⟩ := ok_of_bind h
  obtain ⟨rfl, rfl⟩ := Prod.mk.inj (Except.ok.inj h)
  exact ⟨dtx, dtx', find_ok hfind, hrecord, rfl, rfl⟩

theorem Sound.processVote (h : s.Sound) {vote : Vote} {reason : Option String}

    (hok : s.coordinator.processVote dtxId participant vote reason = .ok (msgs, c'))
    (hop : Lawful (.ProcessVote dtxId participant vote reason) s) :
    Sound ⟨c', s.sent ++ msgs, s.counted⟩ := by
  obtain ⟨dtx, dtx', hdtx, hrecord, rfl, rfl⟩ := processVote_ok hok
  obtain ⟨hlate, hready⟩ := hop dtx dtx' hdtx hrecord
  obtain ⟨hstate, -⟩ := DistributedTransaction.record_frame hrecord
  have hunvoted := DistributedTransaction.not_allVotedCommit hrecord
  have hheld := h.held dtxId dtx hdtx
  have hnotSent : ¬CommitSent s.sent dtxId := fun hsent => hunvoted (hheld.commit hsent).1
  have hearly : dtx'.allVotedCommit → ¬AbortSent s.sent dtxId ∧ dtxId ∉ s.counted := by
    intro hvotes
    have hinit := hready hvotes
    constructor
    · intro hsent
      rcases hheld.abort hsent with hbad | hbad <;> rcases hinit with hinit | hinit <;>
        simp [hinit, DtxState.terminal] at hbad
    · intro hcounted
      have hbad := hheld.counted hcounted
      rcases hinit with hinit | hinit <;> simp [hinit, DtxState.terminal] at hbad
  have hmoved := tallied dtxId dtx'
  generalize CoordinatorInner.tally dtxId dtx' = r at hmoved
  have hsame : s.counted = s.counted ++ [] := (List.append_nil _).symm
  rw [hsame]
  cases hmoved with
  | @abort reason line hvote =>
      have hsent : ¬CommitSent (s.sent ++ [.Abort dtxId reason]) dtxId := by
        simpa [commitSent_append, CommitSent] using hnotSent
      refine h.moved hdtx rfl rfl rfl (.inl rfl) (fun id => ?_) (fun hboth => hsent hboth.1)
        ⟨fun hbad => absurd hbad hsent, fun _ => .inl rfl, fun hbad => ?_, fun hcounted => ?_⟩
      · simp [CommitSent, AbortSent]
      · rcases hbad with hbad | hbad <;> cases hbad
      · rw [List.append_nil] at hcounted
        exact absurd (hheld.counted hcounted) (hlate hvote)
  | @preCommit line hvotes =>
      obtain ⟨hnoAbort, hnew⟩ := hearly hvotes
      have hsent : ¬CommitSent (s.sent ++ [.PreCommit dtxId]) dtxId := by
        simpa [commitSent_append, CommitSent] using hnotSent
      have hfree : ¬AbortSent (s.sent ++ [.PreCommit dtxId]) dtxId := by
        simpa [abortSent_append, AbortSent] using hnoAbort
      refine h.moved hdtx rfl rfl rfl (.inl rfl) (fun id => ?_) (fun hboth => hsent hboth.1)
        ⟨fun hbad => absurd hbad hsent, fun hbad => absurd hbad hfree, fun _ => hvotes, fun hcounted => ?_⟩
      · simp [CommitSent, AbortSent]
      · rw [List.append_nil] at hcounted
        exact absurd hcounted hnew
  | @commit line hvotes hphases =>
      obtain ⟨hnoAbort, hnew⟩ := hearly hvotes
      have hfree : ¬AbortSent (s.sent ++ [.Commit dtxId]) dtxId := by
        simpa [abortSent_append, AbortSent] using hnoAbort
      refine h.moved hdtx rfl rfl rfl (.inl rfl) (fun id => ?_) (fun hboth => hfree hboth.2)
        ⟨fun _ => ⟨hvotes, .inl rfl⟩, fun hbad => absurd hbad hfree, fun _ => hvotes, fun hcounted => ?_⟩
      · simp [CommitSent, AbortSent]
      · rw [List.append_nil] at hcounted
        exact absurd hcounted hnew
  | wait => exact h.waits hdtx hstate fun hall => absurd hall hunvoted

theorem processPreCommitAck_ok (h : c.processPreCommitAck dtxId participant = .ok (msgs, c')) :
    ∃ dtx dtx', c.transactions.lookup dtxId = some dtx ∧ dtx.recordPreCommitAck participant = .ok dtx' ∧
      ((dtx'.allPreCommitAcked ∧ msgs = [.Commit dtxId] ∧
          ∃ line, c' = c.store dtxId ((dtx'.enter .Committing).log line)) ∨
        (msgs = [] ∧ c' = c.store dtxId dtx')) := by
  obtain ⟨dtx, hfind, h⟩ := ok_of_bind h
  obtain ⟨dtx', hrecord, h⟩ := ok_of_bind h
  refine ⟨dtx, dtx', find_ok hfind, hrecord, ?_⟩
  by_cases hacked : dtx'.allPreCommitAcked
  · rw [if_pos hacked] at h
    obtain ⟨rfl, rfl⟩ := Prod.mk.inj (Except.ok.inj h)
    exact .inl ⟨hacked, rfl, _, rfl⟩
  · rw [if_neg hacked] at h
    obtain ⟨rfl, rfl⟩ := Prod.mk.inj (Except.ok.inj h)
    exact .inr ⟨rfl, rfl⟩

theorem Sound.processPreCommitAck (h : s.Sound)
    (hok : s.coordinator.processPreCommitAck dtxId participant = .ok (msgs, c'))
    (hop : Lawful (.ProcessPreCommitAck dtxId participant) s) :
    Sound ⟨c', s.sent ++ msgs, s.counted⟩ := by
  obtain ⟨dtx, dtx', hdtx, hrecord, hcases⟩ := processPreCommitAck_ok hok
  have hheld := h.held dtxId dtx hdtx
  have hsame : s.counted = s.counted ++ [] := (List.append_nil _).symm
  rw [hsame]
  rcases hcases with ⟨hacked, rfl, line, rfl⟩ | ⟨rfl, rfl⟩
  · have hphase := hop dtx dtx' hdtx hrecord hacked
    have hvotes := DistributedTransaction.allVotedCommit_preCommitAck hrecord (hheld.ready hphase)
    have hopen : ¬dtx.state.terminal := by
      rcases hphase with hphase | hphase <;> simp [hphase, DtxState.terminal]
    have hfree : ¬AbortSent (s.sent ++ [.Commit dtxId]) dtxId := by
      rw [abortSent_append]
      rintro (hsent | ⟨reason, hmem⟩)
      · have haborting := (hheld.abort hsent).resolve_right hopen
        rw [haborting] at hphase
        rcases hphase with hphase | hphase <;> cases hphase
      · simp at hmem
    refine h.moved hdtx rfl rfl rfl (.inl rfl) (fun id => ?_) (fun hboth => hfree hboth.2)
      ⟨fun _ => ⟨hvotes, .inl rfl⟩, fun hbad => absurd hbad hfree, fun _ => hvotes, fun hcounted => ?_⟩
    · simp [CommitSent, AbortSent]
    · rw [List.append_nil] at hcounted
      exact absurd (hheld.counted hcounted) hopen
  · exact h.waits hdtx (DistributedTransaction.record_frame hrecord).1
      (DistributedTransaction.allVotedCommit_preCommitAck hrecord)

theorem recordAck_frame {wasCommit : Bool} (h : recordAck wasCommit dtx participant = .ok dtx') :
    dtx'.state = dtx.state ∧ (dtx.allVotedCommit → dtx'.allVotedCommit) := by
  cases wasCommit with
  | true =>
      have hrecord : dtx.recordCommitted participant = .ok dtx' := h
      exact ⟨(DistributedTransaction.record_frame hrecord).1,
        DistributedTransaction.allVotedCommit_committed hrecord⟩
  | false =>
      have hrecord : dtx.recordAborted participant = .ok dtx' := h
      exact ⟨(DistributedTransaction.record_frame hrecord).1,
        DistributedTransaction.allVotedCommit_aborted hrecord⟩

theorem processAck_ok {wasCommit : Bool}
    {out : Option DtxState} (h : c.processAck dtxId participant wasCommit = .ok (out, c')) :
    ∃ dtx dtx', c.transactions.lookup dtxId = some dtx ∧ recordAck wasCommit dtx participant = .ok dtx' ∧
      ((allAcked wasCommit dtx' ∧ out = some (final wasCommit) ∧ c'.nextId = c.nextId ∧
          c'.transactions = c.transactions.insert dtxId (dtx'.enter (final wasCommit)) ∧
          c'.stats.totalCommitted + c'.stats.totalAborted =
            c.stats.totalCommitted + c.stats.totalAborted + 1) ∨
        (out = none ∧ c' = c.store dtxId dtx')) := by
  obtain ⟨dtx, hfind, h⟩ := ok_of_bind h
  cases wasCommit with
  | true =>
      obtain ⟨dtx', hrecord, h⟩ := ok_of_bind h
      refine ⟨dtx, dtx', find_ok hfind, hrecord, ?_⟩
      by_cases hall : dtx'.allCommitted
      · rw [if_pos hall] at h
        obtain ⟨rfl, rfl⟩ := Prod.mk.inj (Except.ok.inj h)
        exact .inl ⟨hall, rfl, rfl, rfl, by simp only [CoordinatorInner.complete, CoordinatorInner.store]; omega⟩
      · rw [if_neg hall] at h
        obtain ⟨rfl, rfl⟩ := Prod.mk.inj (Except.ok.inj h)
        exact .inr ⟨rfl, rfl⟩
  | false =>
      obtain ⟨dtx', hrecord, h⟩ := ok_of_bind h
      refine ⟨dtx, dtx', find_ok hfind, hrecord, ?_⟩
      by_cases hall : dtx'.allAborted
      · rw [if_pos hall] at h
        obtain ⟨rfl, rfl⟩ := Prod.mk.inj (Except.ok.inj h)
        exact .inl ⟨hall, rfl, rfl, rfl, by simp only [CoordinatorInner.complete, CoordinatorInner.store]; omega⟩
      · rw [if_neg hall] at h
        obtain ⟨rfl, rfl⟩ := Prod.mk.inj (Except.ok.inj h)
        exact .inr ⟨rfl, rfl⟩

theorem final_terminal (wasCommit : Bool) : (final wasCommit).terminal := by
  cases wasCommit <;> rfl

theorem Sound.processAck (h : s.Sound) {wasCommit : Bool} {out : Option DtxState}

    (hok : s.coordinator.processAck dtxId participant wasCommit = .ok (out, c'))
    (hop : Lawful (.ProcessAck dtxId participant wasCommit) s) :
    Sound ⟨c', s.sent ++ [], s.counted ++ if out.isSome then [dtxId] else []⟩ := by
  obtain ⟨dtx, dtx', hdtx, hrecord, hcases⟩ := processAck_ok hok
  have hheld := h.held dtxId dtx hdtx
  rcases hcases with ⟨hall, rfl, hnext, htransactions, htotals⟩ | ⟨rfl, rfl⟩
  · have hopen := hop dtx dtx' hdtx hrecord hall
    have hnew : dtxId ∉ s.counted := fun hcounted => hopen (hheld.counted hcounted)
    refine h.moved hdtx htransactions hnext (by rw [htotals]; rfl) (.inr ⟨rfl, hnew⟩) (fun id hid => ?_) ?_
      ⟨fun hsent => ?_, fun _ => .inr (final_terminal wasCommit), fun hbad => ?_,
        fun _ => final_terminal wasCommit⟩
    · exact absurd hid (not_or.mpr ⟨not_commitSent_nil, not_abortSent_nil⟩)
    · rw [List.append_nil]
      exact h.decided dtxId
    · rw [List.append_nil] at hsent
      exact ⟨(recordAck_frame hrecord).2 (hheld.commit hsent).1, .inr (final_terminal wasCommit)⟩
    · cases wasCommit <;> rcases hbad with hbad | hbad <;> cases hbad
  · exact h.waits hdtx (recordAck_frame hrecord).1 (recordAck_frame hrecord).2

variable {acc : List (Nat × DtxMessage) × CoordinatorInner}

theorem Sound.timeOut {counted : List Nat} (h : Sound ⟨acc.2, sent ++ acc.1.map (·.2), counted⟩)
    (hdtx : acc.2.transactions.lookup dtxId = some dtx) (hopen : ¬dtx.state.terminal)
    (hundecided : dtx.state ≠ .Committing) :
    Sound ⟨(CoordinatorInner.timeOut acc dtxId).2,
      sent ++ (CoordinatorInner.timeOut acc dtxId).1.map (·.2), counted⟩ := by
  have hheld := h.held dtxId dtx hdtx
  have hnotSent : ¬CommitSent (sent ++ acc.1.map (·.2)) dtxId := by
    intro hsent
    rcases (hheld.commit hsent).2 with hbad | hbad
    · exact hundecided hbad
    · exact hopen hbad
  unfold CoordinatorInner.timeOut
  rw [hdtx]
  dsimp only
  rw [List.map_append, ← List.append_assoc, ← List.append_nil counted]
  have hsent : ¬CommitSent (sent ++ acc.1.map (·.2) ++ [.Abort dtxId "coordinator timeout"]) dtxId := by
    simpa [commitSent_append, CommitSent] using hnotSent
  refine h.moved hdtx rfl rfl rfl (.inl rfl) (fun id => ?_) (fun hboth => hsent hboth.1)
    ⟨fun hbad => absurd hbad hsent, fun _ => .inl rfl, fun hbad => ?_, fun hcounted => ?_⟩
  · simp [CommitSent, AbortSent]
  · rcases hbad with hbad | hbad <;> cases hbad
  · rw [List.append_nil] at hcounted
    exact absurd (hheld.counted hcounted) hopen

def Expirable (c : CoordinatorInner) (dtxId : Nat) : Prop :=
  ∃ dtx, c.transactions.lookup dtxId = some dtx ∧ ¬dtx.state.terminal ∧ dtx.state ≠ .Committing

theorem lookup_timeOut {id : Nat} (hid : id ≠ dtxId) :
    (CoordinatorInner.timeOut acc dtxId).2.transactions.lookup id = acc.2.transactions.lookup id := by
  unfold CoordinatorInner.timeOut
  cases hdtx : acc.2.transactions.lookup dtxId with
  | none => rfl
  | some dtx => exact AList.lookup_insert_ne hid

theorem expirable_timeOut {id : Nat}
    (h : Expirable acc.2 id) : Expirable (CoordinatorInner.timeOut acc dtxId).2 id := by
  by_cases hid : id = dtxId
  · subst hid
    obtain ⟨dtx, hdtx, -, -⟩ := h
    refine ⟨(dtx.enter .Aborting).log
      (DistributedTransaction.label id ++ "TIMEOUT in state " ++ (dtx.enter .Aborting).state.display),
        ?_, ?_, ?_⟩
    · unfold CoordinatorInner.timeOut
      rw [hdtx]
      exact AList.lookup_insert _
    · exact Bool.false_ne_true
    · exact DtxState.noConfusion
  · obtain ⟨dtx, hdtx, hopen, hundecided⟩ := h
    exact ⟨dtx, (lookup_timeOut hid).trans hdtx, hopen, hundecided⟩

theorem Sound.timeOuts (acc : List (Nat × DtxMessage) × CoordinatorInner)
    {counted : List Nat} (h : Sound ⟨acc.2, sent ++ acc.1.map (·.2), counted⟩) {ids : List Nat}
    (hids : ∀ id ∈ ids, Expirable acc.2 id) :
    Sound ⟨(ids.foldl CoordinatorInner.timeOut acc).2,
      sent ++ (ids.foldl CoordinatorInner.timeOut acc).1.map (·.2), counted⟩ := by
  induction ids generalizing acc with
  | nil => exact h
  | cons id ids ih =>
      obtain ⟨dtx, hdtx, hopen, hundecided⟩ := hids id List.mem_cons_self
      exact ih _ (h.timeOut hdtx hopen hundecided) fun id' hid' =>
        expirable_timeOut (hids id' (List.mem_cons_of_mem id hid'))

theorem mem_timedOut {expired : Nat → Bool} {id : Nat} :
    id ∈ (c.transactions.entries.filter fun e => expired e.1 && !e.2.state.terminal).map (·.1) ↔
      ∃ dtx, c.transactions.lookup id = some dtx ∧ expired id ∧ ¬dtx.state.terminal := by
  simp only [List.mem_map, List.mem_filter, Bool.and_eq_true, Bool.not_eq_true']
  constructor
  · rintro ⟨e, ⟨he, hexpired, hopen⟩, rfl⟩
    exact ⟨e.2, AList.mem_lookup_iff.mpr he, hexpired, by rw [hopen]; exact Bool.false_ne_true⟩
  · rintro ⟨dtx, hdtx, hexpired, hopen⟩
    exact ⟨⟨id, dtx⟩, ⟨AList.mem_lookup_iff.mp hdtx, hexpired, Bool.eq_false_iff.mpr hopen⟩, rfl⟩

theorem Sound.checkTimeouts (h : s.Sound) {expired : Nat → Bool} (hop : Lawful (.CheckTimeouts expired) s) :
    Sound ⟨(s.coordinator.checkTimeouts expired).2,
      s.sent ++ (s.coordinator.checkTimeouts expired).1.map (·.2), s.counted⟩ := by
  have hstart : Sound ⟨s.coordinator, s.sent ++ ([] : List (Nat × DtxMessage)).map (·.2), s.counted⟩ := by
    rw [List.map_nil, List.append_nil]
    exact h
  refine Sound.timeOuts ([], s.coordinator) hstart fun id hid => ?_
  obtain ⟨dtx, hdtx, hexpired, hopen⟩ := mem_timedOut.mp hid
  exact ⟨dtx, hdtx, hopen, hop id dtx hdtx hexpired⟩

theorem Sound.begin (h : s.Sound) (sql : String) (participants : List Nat) (use3pc : Bool) :
    (step (.Begin sql participants use3pc) s).Sound := by
  have hcommit : ∀ id, CommitSent (step (.Begin sql participants use3pc) s).sent id ↔ CommitSent s.sent id := by
    intro id
    simp [step, emitted, CoordinatorInner.begin, CommitSent]
  have habort : ∀ id, AbortSent (step (.Begin sql participants use3pc) s).sent id ↔ AbortSent s.sent id := by
    intro id
    simp [step, emitted, CoordinatorInner.begin, AbortSent]
  have hcounted : (step (.Begin sql participants use3pc) s).counted = s.counted := List.append_nil _
  refine ⟨⟨fun id hboth => ?_, ?_, ?_⟩, fun id hid => ?_, fun id hid => ?_, fun id dtx hlookup => ?_⟩
  · exact h.decided id ⟨(hcommit id).mp hboth.1, (habort id).mp hboth.2⟩
  · rw [hcounted]
    exact h.once
  · rw [hcounted]
    exact h.totals
  · have hle : s.coordinator.nextId + 1 ≤ id := hid
    exact (AList.lookup_insert_ne (by omega)).trans (h.fresh id (by omega))
  · rw [hcommit, habort, hcounted] at hid
    exact Nat.lt_succ_of_lt (h.old id hid)
  · rw [hcounted]
    have hinsert : (s.coordinator.transactions.insert s.coordinator.nextId
      (.new s.coordinator.nextId sql participants use3pc)).lookup id = some dtx := hlookup
    by_cases hid : id = s.coordinator.nextId
    · subst hid
      rw [AList.lookup_insert] at hinsert
      obtain rfl := Option.some.inj hinsert
      have hnew := fun hmem => Nat.lt_irrefl _ (h.old s.coordinator.nextId hmem)
      refine ⟨fun hsent => absurd (.inl ((hcommit _).mp hsent)) hnew,
        fun hsent => absurd (.inr (.inl ((habort _).mp hsent))) hnew, fun hbad => ?_,
        fun hmem => absurd (.inr (.inr hmem)) hnew⟩
      rcases hbad with hbad | hbad <;> cases hbad
    · rw [AList.lookup_insert_ne hid] at hinsert
      have hheld := h.held id dtx hinsert
      exact ⟨fun hsent => hheld.commit ((hcommit id).mp hsent), fun hsent => hheld.abort ((habort id).mp hsent),
        hheld.ready, hheld.counted⟩

theorem lookup_cleanup {id : Nat}
    (h : (c.cleanup dtxId).2.transactions.lookup id = some dtx) : c.transactions.lookup id = some dtx := by
  have herase : (c.transactions.erase dtxId).lookup id = some dtx := h
  by_cases hid : id = dtxId
  · rw [hid, AList.lookup_erase] at herase
    cases herase
  · rwa [AList.lookup_erase_ne hid] at herase

theorem Sound.cleanup (h : s.Sound) (dtxId : Nat) : (step (.Cleanup dtxId) s).Sound := by
  have hstep : step (.Cleanup dtxId) s = { s with coordinator := (s.coordinator.cleanup dtxId).2 } := by
    simp [step, after, emitted, counts]
  rw [hstep]
  refine ⟨⟨h.decided, h.once, h.totals⟩, fun id hid => ?_, h.old, fun id dtx hlookup =>
    h.held id dtx (lookup_cleanup hlookup)⟩
  cases hlookup : (s.coordinator.cleanup dtxId).2.transactions.lookup id with
  | none => rfl
  | some dtx =>
      rw [← lookup_cleanup hlookup]
      exact h.fresh id hid

theorem Sound.step {op : DtxOp} (h : s.Sound) (hop : Lawful op s) : (Coordination.step op s).Sound := by
  cases op with
  | Begin sql participants use3pc => exact h.begin sql participants use3pc
  | ProcessVote dtxId participant vote reason =>
      unfold Coordination.step after emitted counts
      dsimp only
      cases hok : s.coordinator.processVote dtxId participant vote reason with
      | error e =>
          rw [List.append_nil, List.append_nil]
          exact h
      | ok r =>
          rw [List.append_nil]
          exact h.processVote hok hop
  | ProcessPreCommitAck dtxId participant =>
      unfold Coordination.step after emitted counts
      dsimp only
      cases hok : s.coordinator.processPreCommitAck dtxId participant with
      | error e =>
          rw [List.append_nil, List.append_nil]
          exact h
      | ok r =>
          rw [List.append_nil]
          exact h.processPreCommitAck hok hop
  | ProcessAck dtxId participant wasCommit =>
      unfold Coordination.step after emitted counts
      dsimp only
      cases hok : s.coordinator.processAck dtxId participant wasCommit with
      | error e =>
          rw [List.append_nil, List.append_nil]
          exact h
      | ok r =>
          obtain ⟨out, c'⟩ := r
          have hacked := h.processAck hok hop
          cases out with
          | none => exact hacked
          | some state => exact hacked
  | CheckTimeouts expired =>
      unfold Coordination.step after emitted counts
      dsimp only
      rw [List.append_nil]
      exact h.checkTimeouts hop
  | Cleanup dtxId => exact h.cleanup dtxId

theorem sound_start : start.Sound where
  decided := fun _ hboth => not_commitSent_nil hboth.1
  once := List.nodup_nil
  totals := rfl
  fresh := fun _ _ => rfl
  old := fun id hid => by
    rcases hid with hid | hid | hid
    · exact absurd hid not_commitSent_nil
    · exact absurd hid not_abortSent_nil
    · cases hid
  held := fun _ _ hlookup => nomatch hlookup

theorem lookup_store {m : AList (fun _ : Nat => DistributedTransaction)} {id : Nat}
    {dtx₀ dtx'' : DistributedTransaction} (hlookup : (m.insert dtxId dtx').lookup id = some dtx'')
    (hold : m.lookup id = some dtx₀) (hkeep : id = dtxId → dtx'.state = dtx₀.state) :
    dtx''.state = dtx₀.state := by
  by_cases hid : id = dtxId
  · subst hid
    rw [AList.lookup_insert] at hlookup
    rw [← Option.some.inj hlookup]
    exact hkeep rfl
  · rw [AList.lookup_insert_ne hid, hold] at hlookup
    rw [Option.some.inj hlookup]

theorem respects_processVote {vote : Vote} {reason : Option String}
    (hop : Lawful (.ProcessVote dtxId participant vote reason) s) :
    Respects (.ProcessVote dtxId participant vote reason) s := by
  cases hok : s.coordinator.processVote dtxId participant vote reason with
  | error e =>
      refine ⟨fun id hsent => ?_, fun id dtx dtx' hdtx hend hlookup => ?_⟩
      · simp only [emitted, hok] at hsent
        cases hsent
      · simp only [after, hok, hdtx] at hlookup
        rw [Option.some.inj hlookup]
  | ok r =>
      obtain ⟨msgs, c'⟩ := r
      obtain ⟨dtx, dtx', hdtx, hrecord, rfl, rfl⟩ := processVote_ok hok
      obtain ⟨hlate, hready⟩ := hop dtx dtx' hdtx hrecord
      obtain ⟨hstate, -⟩ := DistributedTransaction.record_frame hrecord
      have htally := tallied dtxId dtx'
      constructor
      · intro id hsent
        simp only [emitted, after, hok] at hsent ⊢
        generalize CoordinatorInner.tally dtxId dtx' = r at hsent htally ⊢
        cases htally with
        | abort hvote => simp at hsent
        | preCommit hvotes => simp at hsent
        | commit hvotes hphases =>
            obtain rfl : id = dtxId := by simpa using hsent
            refine ⟨_, AList.lookup_insert _, hvotes, fun hbad => ?_⟩
            rw [show ((dtx'.enter .Committing).log _).use3pc = dtx'.use3pc from rfl, hphases] at hbad
            cases hbad
        | wait => simp at hsent
      · intro id dtx₀ dtx'' hold hend hlookup
        simp only [after, hok] at hlookup
        refine lookup_store hlookup hold ?_
        rintro rfl
        obtain rfl := Option.some.inj (hdtx.symm.trans hold)
        generalize CoordinatorInner.tally id dtx' = r at htally ⊢
        have hundecided : ¬dtx'.allVotedCommit := by
          intro hvotes
          rcases hready hvotes with hinit | hinit <;> rw [hinit] at hend <;> cases hend
        cases htally with
        | abort hvote => exact absurd hend (hlate hvote)
        | preCommit hvotes => exact absurd hvotes hundecided
        | commit hvotes hphases => exact absurd hvotes hundecided
        | wait => exact hstate

theorem Sound.respects_processPreCommitAck (h : s.Sound)
    (hop : Lawful (.ProcessPreCommitAck dtxId participant) s) :
    Respects (.ProcessPreCommitAck dtxId participant) s := by
  cases hok : s.coordinator.processPreCommitAck dtxId participant with
  | error e =>
      refine ⟨fun id hsent => ?_, fun id dtx dtx' hdtx hend hlookup => ?_⟩
      · simp only [emitted, hok] at hsent
        cases hsent
      · simp only [after, hok, hdtx] at hlookup
        rw [Option.some.inj hlookup]
  | ok r =>
      obtain ⟨msgs, c'⟩ := r
      obtain ⟨dtx, dtx', hdtx, hrecord, hcases⟩ := processPreCommitAck_ok hok
      refine ⟨fun id hsent => ?_, fun id dtx₀ dtx'' hold hend hlookup => ?_⟩
      · simp only [emitted, after, hok] at hsent ⊢
        rcases hcases with ⟨hacked, rfl, line, rfl⟩ | ⟨rfl, rfl⟩
        · obtain rfl : id = dtxId := by simpa using hsent
          have hvotes := (h.held id dtx hdtx).ready (hop dtx dtx' hdtx hrecord hacked)
          have hvotes' := DistributedTransaction.allVotedCommit_preCommitAck hrecord hvotes
          exact ⟨(dtx'.enter .Committing).log line, AList.lookup_insert _, hvotes', fun _ => hacked⟩
        · cases hsent
      · simp only [after, hok] at hlookup
        rcases hcases with ⟨hacked, rfl, line, rfl⟩ | ⟨rfl, rfl⟩
        · refine lookup_store hlookup hold ?_
          rintro rfl
          obtain rfl := Option.some.inj (hdtx.symm.trans hold)
          rcases hop dtx dtx' hdtx hrecord hacked with hbad | hbad <;> rw [hbad] at hend <;> cases hend
        · refine lookup_store hlookup hold ?_
          rintro rfl
          obtain rfl := Option.some.inj (hdtx.symm.trans hold)
          exact (DistributedTransaction.record_frame hrecord).1

theorem respects_processAck {wasCommit : Bool} (hop : Lawful (.ProcessAck dtxId participant wasCommit) s) :
    Respects (.ProcessAck dtxId participant wasCommit) s := by
  refine ⟨fun id hsent => (nomatch hsent), fun id dtx₀ dtx'' hold hend hlookup => ?_⟩
  cases hok : s.coordinator.processAck dtxId participant wasCommit with
  | error e =>
      simp only [after, hok, hold] at hlookup
      rw [Option.some.inj hlookup]
  | ok r =>
      obtain ⟨out, c'⟩ := r
      obtain ⟨dtx, dtx', hdtx, hrecord, hcases⟩ := processAck_ok hok
      simp only [after, hok] at hlookup
      rcases hcases with ⟨hall, -, -, htransactions, -⟩ | ⟨-, rfl⟩
      · rw [htransactions] at hlookup
        refine lookup_store hlookup hold ?_
        rintro rfl
        obtain rfl := Option.some.inj (hdtx.symm.trans hold)
        exact absurd hend (hop dtx dtx' hdtx hrecord hall)
      · refine lookup_store hlookup hold ?_
        rintro rfl
        obtain rfl := Option.some.inj (hdtx.symm.trans hold)
        exact (recordAck_frame hrecord).1

theorem lookup_timeOuts {ids : List Nat} {id : Nat} (hid : id ∉ ids)
    (acc : List (Nat × DtxMessage) × CoordinatorInner) :
    (ids.foldl CoordinatorInner.timeOut acc).2.transactions.lookup id = acc.2.transactions.lookup id := by
  induction ids generalizing acc with
  | nil => rfl
  | cons id' ids ih =>
      rw [List.mem_cons, not_or] at hid
      rw [List.foldl_cons, ih hid.2, lookup_timeOut hid.1]

theorem messages_timeOuts {ids : List Nat} {id : Nat}
    (h : .Commit id ∉ acc.1.map (·.2)) : .Commit id ∉ (ids.foldl CoordinatorInner.timeOut acc).1.map (·.2) := by
  induction ids generalizing acc with
  | nil => exact h
  | cons id' ids ih =>
      refine ih ?_
      unfold CoordinatorInner.timeOut
      cases hdtx : acc.2.transactions.lookup id' with
      | none => exact h
      | some dtx =>
          dsimp only
          rw [List.map_append, List.mem_append]
          rintro (hold | hnew)
          · exact h hold
          · simp at hnew

theorem respects_checkTimeouts (s : Coordination) (expired : Nat → Bool) :
    Respects (.CheckTimeouts expired) s := by
  refine ⟨fun id hsent => ?_, fun id dtx₀ dtx'' hold hend hlookup => ?_⟩
  · exact absurd hsent (messages_timeOuts List.not_mem_nil)
  · have hkept : id ∉ (s.coordinator.transactions.entries.filter fun e =>
        expired e.1 && !e.2.state.terminal).map (·.1) := by
      intro hmem
      obtain ⟨dtx, hdtx, -, hopen⟩ := mem_timedOut.mp hmem
      obtain rfl := Option.some.inj (hdtx.symm.trans hold)
      exact hopen hend
    have hsame := (lookup_timeOuts hkept ([], s.coordinator)).symm.trans hlookup
    rw [Option.some.inj (hsame.symm.trans hold)]

theorem Sound.respects {op : DtxOp} (h : s.Sound) (hop : Lawful op s) : Respects op s := by
  cases op with
  | Begin sql participants use3pc =>
      refine ⟨fun id hsent => ?_, fun id dtx₀ dtx'' hold hend hlookup => ?_⟩
      · simp [emitted, CoordinatorInner.begin] at hsent
      · refine lookup_store hlookup hold fun hid => ?_
        rw [hid, h.fresh _ (Nat.le_refl _)] at hold
        cases hold
  | ProcessVote dtxId participant vote reason => exact respects_processVote hop
  | ProcessPreCommitAck dtxId participant => exact h.respects_processPreCommitAck hop
  | ProcessAck dtxId participant wasCommit => exact respects_processAck hop
  | CheckTimeouts expired => exact respects_checkTimeouts s expired
  | Cleanup dtxId =>
      refine ⟨fun id hsent => (nomatch hsent), fun id dtx₀ dtx'' hold hend hlookup => ?_⟩
      rw [Option.some.inj ((lookup_cleanup hlookup).symm.trans hold)]

-- As long as every answer arrives in its phase and no timeout fires behind the decision
-- to commit, the coordinator is safe in every state and at every call.
theorem safe_run {ops : List DtxOp} (h : Meets step Lawful ops start) :
    (run step ops start).Safe ∧ Meets step Respects ops start := by
  refine ⟨(run_invariant Sound sound_start (fun _ _ => Sound.step) h).toSafe, ?_⟩
  refine meets_of_prefixes fun before op after heq => ?_
  rw [heq] at h
  have hbefore := run_invariant Sound sound_start (fun _ _ => Sound.step) (meets_append h).1
  exact hbefore.respects h.at

section Example

-- Two phases for the first transaction, three for the second.
def committed : List DtxOp :=
  [.Begin "UPDATE t" [7, 8] false, .ProcessVote 1 7 .Commit none, .Begin "UPDATE u" [7, 8] true,
    .ProcessVote 2 8 .Commit none, .ProcessVote 1 8 .Commit none, .ProcessVote 2 7 .Commit none,
    .ProcessPreCommitAck 2 7, .ProcessAck 1 8 true, .ProcessPreCommitAck 2 8, .ProcessAck 2 7 true,
    .ProcessAck 1 7 true, .ProcessAck 2 8 true]

theorem safe_committed : (run step committed start).Safe ∧ Meets step Respects committed start := by
  refine safe_run ⟨trivial, ?_, trivial, ?_, ?_, ?_, ?_, ?_, ?_, ?_, ?_, ?_, trivial⟩
  all_goals
    intro dtx dtx' hdtx hrecord
    obtain rfl := Option.some.inj hdtx
    obtain rfl := Except.ok.inj hrecord
    decide

def timedOut : List DtxOp :=
  [.Begin "UPDATE t" [7] false, .ProcessVote 1 7 .Commit none, .CheckTimeouts fun _ => true]

-- The timeout fires between the decision to commit and the acknowledgement.
theorem decided_twice : ¬(run step timedOut start).Safe := by
  intro hsafe
  have hsent : (run step timedOut start).sent =
      [.Prepare 1 "UPDATE t", .Commit 1, .Abort 1 "coordinator timeout"] := rfl
  refine hsafe.decided 1 ?_
  rw [hsent]
  exact ⟨by simp [CommitSent], "coordinator timeout", by simp⟩

end Example

end Coordination

end Kkdb.Raft.Dtx
