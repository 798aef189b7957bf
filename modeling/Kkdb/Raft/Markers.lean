import Kkdb.Raft.History
import Kkdb.Raft.Json

namespace Kkdb.Raft

open Lib

namespace History

variable {π : Type} (json : Json π)

-- What `open` finds after a crash is what the store held before the interrupted call, or what that
-- call was writing.
def VoteKept (point : CrashPoint π) (h : History π) : Prop :=
  let opened := LogStore.open json (crashDir json point h.store)
  opened.readVote = h.store.readVote ∨
    ∃ vote written, point = .SaveVote vote written ∧ opened.readVote = some vote

def PurgeKept (point : CrashPoint π) (h : History π) : Prop :=
  let opened := LogStore.open json (crashDir json point h.store)
  opened.inner.lastPurgedLogId = h.store.inner.lastPurgedLogId ∨
    ∃ logId written, point = .Purge logId written ∧ opened.inner.lastPurgedLogId = some logId

def MarkersKept (op : LogOp π) (h : History π) : Prop :=
  ∀ point, op = .Crash point → h.VoteKept json point ∧ h.PurgeKept json point

-- No crash cuts a marker file that `fs::write` has emptied, unless there was no marker to lose.
def MarkersWhole (op : LogOp π) (h : History π) : Prop :=
  match op with
  | .Crash (.SaveVote vote (some written)) =>
      (json.vote.toVec vote).length ≤ written ∨ h.store.readVote = none
  | .Crash (.Purge logId (some written)) =>
      (json.logId.toVec logId).length ≤ written ∨ h.store.inner.lastPurgedLogId = none
  | _ => True

structure Marked (h : History π) : Prop where
  onDisk : h.store.inner.walFile = true
  vote : h.store.dir.voteJson.bind json.vote.fromSlice = h.store.inner.votedFor
  purge : h.store.dir.purgeJson.bind json.logId.fromSlice = h.store.inner.lastPurgedLogId

variable {json} {h : History π}

theorem marked_start : (start json).Marked json := ⟨rfl, rfl, rfl⟩

theorem marked_appendEntry (hm : h.Marked json) (entry : Entry π) :
    (h.appendEntry json entry).Marked json := by
  constructor <;> simp only [appendEntry, LogStore.appendEntry, if_pos hm.onDisk, LogStore.walAppend,
    LogStore.appendBytes]
  case onDisk => exact hm.onDisk
  case vote => exact hm.vote
  case purge => exact hm.purge

theorem marked_append (hm : h.Marked json) (entries : List (Entry π)) :
    (entries.foldl (appendEntry json) h).Marked json := by
  induction entries generalizing h with
  | nil => exact hm
  | cons entry entries ih => exact ih (marked_appendEntry hm entry)

theorem marked_compact (hm : h.Marked json) : (h.replaced (h.store.compact json)).Marked json := by
  rcases compact_cases json hm.onDisk with hsame | ⟨hdir, -, hpurged, hvoted, hdisk, -⟩
  · rw [hsame, replaced_self]
    exact hm
  · have hstore : (h.replaced (h.store.compact json)).store = h.store.compact json := by
      unfold replaced
      split_ifs <;> rfl
    constructor <;> rw [hstore]
    case onDisk => exact hdisk
    case vote =>
      rw [hdir, hvoted]
      exact hm.vote
    case purge =>
      rw [hdir, hpurged]
      exact hm.purge

theorem marked_markPurged (hid : json.logId.RoundTrips) (hm : h.Marked json) (logId : LogId) :
    (h.marked json logId).Marked json := by
  constructor <;> simp only [marked, LogStore.markPurged, if_pos hm.onDisk]
  case onDisk => exact hm.onDisk
  case vote => exact hm.vote
  case purge => exact hid logId

theorem marked_step (hvote : json.vote.RoundTrips) (hid : json.logId.RoundTrips) (op : LogOp π)
    (h : History π) (hm : h.Marked json) : (h.step json op).Marked json := by
  cases op with
  | Append entries => exact marked_append hm entries
  | Truncate logId =>
      constructor <;> simp only [step, LogStore.truncate, if_pos hm.onDisk, LogStore.walTruncate,
        LogStore.appendBytes]
      case onDisk => exact hm.onDisk
      case vote => exact hm.vote
      case purge => exact hm.purge
  | Purge logId =>
      have hmarked := marked_markPurged hid hm logId
      rcases step_purge json h logId with heq | heq
      · rw [heq]
        exact hmarked
      · rw [heq]
        exact marked_compact hmarked
  | Compact => exact marked_compact hm
  | SetCompactThreshold threshold => exact ⟨hm.onDisk, hm.vote, hm.purge⟩
  | SaveVote vote =>
      constructor <;> simp only [step, LogStore.saveVote, if_pos hm.onDisk]
      case onDisk => exact hm.onDisk
      case vote => exact hvote vote
      case purge => exact hm.purge
  | Crash point => exact ⟨rfl, rfl, rfl⟩

-- A file of which a crash lets through the first bytes holds the old marker or the new one.
theorem cutFile_kept_iff {α : Type} {serde : Serde α} (hround : serde.RoundTrips)
    (hcut : serde.RejectsTorn) (a : α) (written : Nat) (file : Option (List UInt8)) (held : Option α) :
    ((cutFile (serde.toVec a) (some written) file).bind serde.fromSlice = held ∨
        (cutFile (serde.toVec a) (some written) file).bind serde.fromSlice = some a) ↔
      (serde.toVec a).length ≤ written ∨ held = none := by
  simp only [cutFile, Option.bind_some]
  by_cases hall : (serde.toVec a).length ≤ written
  · rw [List.take_of_length_le hall, hround]
    simp [hall]
  · rw [hcut a written (by omega)]
    simp [hall, eq_comm]

theorem voteKept_iff (hround : json.vote.RoundTrips) (hcut : json.vote.RejectsTorn) (hm : h.Marked json)
    (point : CrashPoint π) :
    h.VoteKept json point ↔ ∀ vote written, point = .SaveVote vote (some written) →
      (json.vote.toVec vote).length ≤ written ∨ h.store.readVote = none := by
  cases point with
  | SaveVote vote written =>
      cases written with
      | none => simpa [VoteKept, LogStore.readVote, LogStore.open, crashDir, cutFile] using .inl hm.vote
      | some written =>
          have hkept := cutFile_kept_iff hround hcut vote written h.store.dir.voteJson h.store.readVote
          simpa [VoteKept, LogStore.readVote, LogStore.open, crashDir] using hkept
  | _ =>
      simp only [reduceCtorEq, false_implies, implies_true, iff_true]
      exact .inl hm.vote

theorem purgeKept_iff (hround : json.logId.RoundTrips) (hcut : json.logId.RejectsTorn)
    (hm : h.Marked json) (point : CrashPoint π) :
    h.PurgeKept json point ↔ ∀ logId written, point = .Purge logId (some written) →
      (json.logId.toVec logId).length ≤ written ∨ h.store.inner.lastPurgedLogId = none := by
  cases point with
  | Purge logId written =>
      cases written with
      | none => simpa [PurgeKept, LogStore.open, crashDir, cutFile] using .inl hm.purge
      | some written =>
          have hkept := cutFile_kept_iff hround hcut logId written h.store.dir.purgeJson
            h.store.inner.lastPurgedLogId
          simpa [PurgeKept, LogStore.open, crashDir] using hkept
  | _ =>
      simp only [reduceCtorEq, false_implies, implies_true, iff_true]
      exact .inl hm.purge

theorem markersKept_iff_whole (hvote : json.vote.RoundTrips) (hvoteCut : json.vote.RejectsTorn)
    (hid : json.logId.RoundTrips) (hidCut : json.logId.RejectsTorn) (op : LogOp π) (h : History π)
    (hm : h.Marked json) : h.MarkersKept json op ↔ h.MarkersWhole json op := by
  cases op with
  | Crash point =>
      have hsplit : h.MarkersKept json (.Crash point) ↔
          h.VoteKept json point ∧ h.PurgeKept json point := by simp [MarkersKept]
      rw [hsplit, voteKept_iff hvote hvoteCut hm, purgeKept_iff hid hidCut hm]
      rcases point with _ | _ | _ | ⟨logId, _ | written⟩ | ⟨vote, _ | written⟩ | _ <;> simp [MarkersWhole]
  | _ => simp [MarkersKept, MarkersWhole]

-- In every run: the markers survive every crash exactly when no crash cuts one that had a predecessor.
theorem markersKept_iff (hvote : json.vote.RoundTrips) (hvoteCut : json.vote.RejectsTorn)
    (hid : json.logId.RoundTrips) (hidCut : json.logId.RejectsTorn) (ops : List (LogOp π)) :
    Meets (step json) (MarkersKept json) ops (start json) ↔
      Meets (step json) (MarkersWhole json) ops (start json) :=
  meets_iff (Marked json) marked_start (marked_step hvote hid)
    (markersKept_iff_whole hvote hvoteCut hid hidCut) ops

theorem markersKept_iff_wholeFiles : Meets (step Text.json) (MarkersKept Text.json)
    [.SaveVote ⟨1, 1, false⟩, .Purge ⟨1, 1, 3⟩, .Crash (.SaveVote ⟨2, 1, false⟩ (some 100)),
      .Crash (.Purge ⟨2, 1, 7⟩ none)] (start Text.json) := by
  apply (markersKept_iff Text.vote_roundTrips Text.vote_rejectsTorn Text.logId_roundTrips
    Text.logId_rejectsTorn _).mpr
  exact ⟨trivial, trivial, .inl (by decide), trivial, trivial⟩

-- A crash right behind the emptying of `vote.json`: the store comes back without a vote.
theorem crash_loses_vote : ¬Meets (step Text.json) (MarkersKept Text.json)
    [.SaveVote ⟨1, 1, false⟩, .Crash (.SaveVote ⟨2, 1, false⟩ (some 0))] (start Text.json) := by
  rintro ⟨-, hkept, -⟩
  rcases (hkept _ rfl).1 with hsame | ⟨vote, written, -, hnew⟩
  · exact absurd hsame (by decide)
  · have hnone : (LogStore.open Text.json (crashDir Text.json (.SaveVote ⟨2, 1, false⟩ (some 0))
        ((start Text.json).step Text.json (.SaveVote ⟨1, 1, false⟩)).store)).readVote = none := by decide
    rw [hnone] at hnew
    cases hnew

end History

end Kkdb.Raft
