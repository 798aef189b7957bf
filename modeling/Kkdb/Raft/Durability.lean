import Mathlib.Data.List.Induction
import Kkdb.Raft.History
import Kkdb.Raft.Json

namespace Kkdb.Raft

open Lib

namespace RaftLog

variable {π : Type} {l : RaftLog π} {i : Nat}

@[simp] theorem append_lastPurged (entry : Entry π) : (l.append entry).lastPurged = l.lastPurged := rfl

@[simp] theorem truncate_lastPurged (logId : LogId) : (l.truncate logId).lastPurged = l.lastPurged := rfl

@[simp] theorem purge_lastPurged (logId : LogId) : (l.purge logId).lastPurged = some logId := rfl

theorem unpurged_purge {logId : LogId} (h : l.Advances logId) (hi : (l.purge logId).Unpurged i) :
    l.Unpurged i ∧ logId.index < i := by
  have hlt : logId.index < i := hi logId rfl
  refine ⟨?_, hlt⟩
  intro p hp
  have := h p hp
  omega

end RaftLog

section Logs

variable {π : Type} (json : Json π)

-- The entries of the log are filed under their own index and can be written again.
structure Filed (log : List (Nat × Entry π)) : Prop where
  ordered : Ordered log
  keys : ∀ e ∈ log, e.1 = e.2.logId.index
  fits : ∀ e ∈ log, Fits (json.record.toVec (.Append e.2))

def Holds (log : List (Nat × Entry π)) (l : RaftLog π) : Prop :=
  ∀ i, l.Unpurged i → log.lookup i = l.entries i

variable {json} {log : List (Nat × Entry π)} {l : RaftLog π}

theorem filed_nil : Filed json ([] : List (Nat × Entry π)) where
  ordered := List.Pairwise.nil
  keys := fun _ he => (nomatch he)
  fits := fun _ he => (nomatch he)

theorem Filed.insert (h : Filed json log) {entry : Entry π}
    (hfits : Fits (json.record.toVec (.Append entry))) :
    Filed json (insertKey entry.logId.index entry log) where
  ordered := ordered_insertKey h.ordered
  keys := by
    intro e he
    rcases mem_insertKey he with rfl | he
    · rfl
    · exact h.keys e he
  fits := by
    intro e he
    rcases mem_insertKey he with rfl | he
    · exact hfits
    · exact h.fits e he

theorem Filed.retain (h : Filed json log) (keep : Nat → Bool) : Filed json (retain keep log) where
  ordered := ordered_retain h.ordered
  keys := fun e he => h.keys e (List.mem_of_mem_filter he)
  fits := fun e he => h.fits e (List.mem_of_mem_filter he)

theorem Filed.dropPurged (h : Filed json log) (lastPurged : Option LogId) :
    Filed json (dropPurged lastPurged log) := by
  cases lastPurged with
  | none => exact h
  | some p =>
      rw [Raft.dropPurged]
      exact h.retain _

theorem Filed.replay (h : Filed json log) {record : WalRecord π} (hfits : Fits (json.record.toVec record)) :
    Filed json (record.replay log) := by
  cases record with
  | Append entry => exact h.insert hfits
  | Truncate fromIndex =>
      rw [WalRecord.replay]
      exact h.retain _

theorem filed_replayed {records : List (WalRecord π)}
    (hfits : ∀ record ∈ records, Fits (json.record.toVec record)) : Filed json (replayed records) := by
  induction records using List.reverseRecOn with
  | nil => exact filed_nil
  | append_singleton records record ih =>
      rw [replayed_append]
      exact (ih fun r hr => hfits r (by simp [hr])).replay (hfits record (by simp))

theorem Holds.append (h : Holds log l) (entry : Entry π) :
    Holds (insertKey entry.logId.index entry log) (l.append entry) := by
  intro i hi
  have hold := h i hi
  simp only [lookup_insertKey, RaftLog.append, Function.update_apply, hold]

theorem Holds.truncate (h : Holds log l) (logId : LogId) :
    Holds (Lib.retain (fun k => k < logId.index) log) (l.truncate logId) := by
  intro i hi
  rw [lookup_retain_key]
  simp only [RaftLog.truncate, decide_eq_true_eq]
  rw [h i hi]

theorem Holds.mark (h : Holds log l) {logId : LogId} (hadv : l.Advances logId) :
    Holds log (l.purge logId) := by
  intro i hi
  obtain ⟨hold, hlt⟩ := RaftLog.unpurged_purge hadv hi
  simp [RaftLog.purge, h i hold, hlt]

theorem Holds.retain (h : Holds log l) {keep : Nat → Bool} (hkeep : ∀ i, l.Unpurged i → keep i = true) :
    Holds (Lib.retain keep log) l := by
  intro i hi
  rw [lookup_retain_key, hkeep i hi, if_pos rfl, h i hi]

theorem Holds.purge (h : Holds log l) {logId : LogId} (hadv : l.Advances logId) :
    Holds (Lib.retain (fun k => k > logId.index) log) (l.purge logId) := by
  apply (h.mark hadv).retain
  intro i hi
  simpa using hi logId rfl

theorem Holds.live (h : Holds log l) (i : Nat) : (dropPurged l.lastPurged log).lookup i = l.live i := by
  rw [lookup_dropPurged]
  by_cases hi : l.Unpurged i
  · rw [RaftLog.live, if_pos hi, ← h i hi]
    exact if_pos hi
  · rw [RaftLog.live, if_neg hi]
    exact if_neg hi

theorem holds_dropPurged (h : Holds log l) : Holds (dropPurged l.lastPurged log) l := by
  intro i hi
  rw [h.live, RaftLog.live, if_pos hi]

variable (json) in
-- The log file holds whole records and, behind them, the bytes of interrupted ones.
structure Recorded (file torn : List UInt8) (l : RaftLog π) (records : List (WalRecord π)) : Prop where
  fits : ∀ record ∈ records, Fits (json.record.toVec record)
  bytes : file = records.flatMap (LogStore.recordBytes json) ++ torn
  holds : Holds (replayed records) l

variable {file torn : List UInt8} {records : List (WalRecord π)}

theorem recorded_empty : Recorded json [] [] (RaftLog.empty : RaftLog π) [] where
  fits := fun _ hr => (nomatch hr)
  bytes := rfl
  holds := fun _ _ => rfl

theorem Recorded.record (h : Recorded json file [] l records) {record : WalRecord π}
    (hfits : Fits (json.record.toVec record)) {l' : RaftLog π}
    (hholds : Holds (record.replay (replayed records)) l') :
    Recorded json (file ++ LogStore.recordBytes json record) [] l' (records ++ [record]) where
  fits := by
    intro r hr
    rcases List.mem_append.mp hr with hr | hr
    · exact h.fits r hr
    · rw [List.mem_singleton.mp hr]
      exact hfits
  bytes := by simp [h.bytes]
  holds := by
    rw [replayed_append]
    exact hholds

theorem Recorded.append (h : Recorded json file [] l records) {entry : Entry π}
    (hfits : Fits (json.record.toVec (.Append entry))) :
    Recorded json (file ++ LogStore.recordBytes json (.Append entry)) [] (l.append entry)
      (records ++ [.Append entry]) := h.record hfits (h.holds.append entry)

theorem Recorded.truncate (h : Recorded json file [] l records) {logId : LogId}
    (hfits : Fits (json.record.toVec (.Truncate logId.index))) :
    Recorded json (file ++ LogStore.recordBytes json (.Truncate logId.index)) [] (l.truncate logId)
      (records ++ [.Truncate logId.index]) := h.record hfits (h.holds.truncate logId)

theorem Recorded.part (h : Recorded json file torn l records) (bytes : List UInt8) :
    Recorded json (file ++ bytes) (torn ++ bytes) l records where
  fits := h.fits
  bytes := by simp [h.bytes]
  holds := h.holds

theorem Recorded.purge (h : Recorded json file torn l records) {logId : LogId} (hadv : l.Advances logId) :
    Recorded json file torn (l.purge logId) records where
  fits := h.fits
  bytes := h.bytes
  holds := h.holds.mark hadv

theorem recorded_live (hfiled : Filed json log) (hholds : Holds log l) :
    Recorded json (LogStore.liveBytes json log) [] l ((log.map Prod.snd).map WalRecord.Append) where
  fits := by
    intro record hrecord
    simp only [List.map_map, List.mem_map, Function.comp_apply] at hrecord
    obtain ⟨e, he, rfl⟩ := hrecord
    exact hfiled.fits e he
  bytes := by simp [LogStore.liveBytes, List.flatMap_map]
  holds := by
    rw [replayed_live hfiled.ordered hfiled.keys]
    exact hholds

end Logs

namespace History

variable {π : Type} (json : Json π)

-- What holds of a store that was opened on a directory it wrote itself.
structure Sound (h : History π) : Prop where
  onDisk : h.store.inner.walFile = true
  filed : Filed json h.store.inner.log
  holds : Holds h.store.inner.log h.effect
  purged : h.store.inner.lastPurgedLogId = h.effect.lastPurged
  marker : h.store.dir.purgeJson.bind json.logId.fromSlice = h.effect.lastPurged
  recorded : h.buried = false →
    ∃ records, Recorded json (h.store.dir.walLog.getD []) h.torn h.effect records

variable {json} {h : History π}

theorem sound_start : (start json).Sound json where
  onDisk := rfl
  filed := filed_nil
  holds := fun _ _ => rfl
  purged := rfl
  marker := rfl
  recorded := fun _ => ⟨[], recorded_empty⟩

-- The bytes of a whole record are buried when torn ones stand before them.
theorem unburied_wroteAll {record : WalRecord π} (hb : (h.wroteAll json record).buried = false) :
    h.buried = false ∧ h.torn = [] := by
  simpa [wroteAll, wrote] using hb

theorem torn_wroteAll (record : WalRecord π) : (h.wroteAll json record).torn = h.torn := by
  simp [wroteAll, wrote]

variable (json) in
theorem appendEntry_eq {s : LogStore π} (h : s.inner.walFile = true) (entry : Entry π) :
    s.appendEntry json entry =
      { dir := { s.dir with
          walLog := some (s.dir.walLog.getD [] ++ LogStore.recordBytes json (.Append entry)) }
        inner := { s.inner with
          log := insertKey entry.logId.index entry s.inner.log
          totalRecords := s.inner.totalRecords + 1 } } := by
  simp [LogStore.appendEntry, h, LogStore.walAppend, LogStore.appendBytes]

theorem Sound.appendEntry (hs : h.Sound json) {entry : Entry π}
    (hfits : FitsRecord json (.Append entry)) : (h.appendEntry json entry).Sound json := by
  have hstore := appendEntry_eq json hs.onDisk entry
  constructor <;> simp only [History.appendEntry, hstore]
  case onDisk => exact hs.onDisk
  case filed => exact hs.filed.insert hfits
  case holds => exact hs.holds.append entry
  case purged => exact hs.purged
  case marker => exact hs.marker
  case recorded =>
    intro hb
    obtain ⟨hold, htorn⟩ := unburied_wroteAll hb
    obtain ⟨records, hr⟩ := hs.recorded hold
    rw [torn_wroteAll, htorn]
    rw [htorn] at hr
    exact ⟨_, hr.append hfits⟩

theorem Sound.append (hs : h.Sound json) {entries : List (Entry π)}
    (hfits : ∀ entry ∈ entries, FitsRecord json (.Append entry)) :
    (entries.foldl (History.appendEntry json) h).Sound json := by
  induction entries generalizing h with
  | nil => exact hs
  | cons entry entries ih =>
      exact ih (hs.appendEntry (hfits entry (by simp))) fun e he => hfits e (by simp [he])

variable (json) in
theorem truncate_eq {s : LogStore π} (h : s.inner.walFile = true) (logId : LogId) :
    s.truncate json logId =
      { dir := { s.dir with
          walLog := some (s.dir.walLog.getD [] ++ LogStore.recordBytes json (.Truncate logId.index)) }
        inner := { s.inner with
          log := retain (fun k => k < logId.index) s.inner.log
          totalRecords := s.inner.totalRecords +
            (1 + (s.inner.log.filter fun e => logId.index ≤ e.1).length) } } := by
  simp [LogStore.truncate, h, LogStore.walTruncate, LogStore.appendBytes]

theorem Sound.truncate (hs : h.Sound json) {logId : LogId}
    (hfits : FitsRecord json (.Truncate logId.index : WalRecord π)) :
    (h.step json (.Truncate logId)).Sound json := by
  have hstore := truncate_eq json hs.onDisk logId
  constructor <;> simp only [History.step, hstore]
  case onDisk => exact hs.onDisk
  case filed => exact hs.filed.retain _
  case holds => exact hs.holds.truncate logId
  case purged => exact hs.purged
  case marker => exact hs.marker
  case recorded =>
    intro hb
    obtain ⟨hold, htorn⟩ := unburied_wroteAll hb
    obtain ⟨records, hr⟩ := hs.recorded hold
    rw [torn_wroteAll, htorn]
    rw [htorn] at hr
    exact ⟨_, hr.truncate hfits⟩

theorem Sound.compact (hs : h.Sound json) :
    (h.replaced (h.store.compact json)).Sound json := by
  rcases compact_cases json hs.onDisk with hsame | ⟨hdir, hlog, hpurged, -, hdisk, hcount⟩
  · rw [hsame, replaced_self]
    exact hs
  · have hnew : ¬(h.store.compact json).inner.compactionCount = h.store.inner.compactionCount := by omega
    rw [replaced, if_neg hnew]
    constructor <;> dsimp only
    case onDisk => exact hdisk
    case filed =>
      rw [hlog]
      exact hs.filed
    case holds =>
      rw [hlog]
      exact hs.holds
    case purged =>
      rw [hpurged]
      exact hs.purged
    case marker =>
      rw [hdir]
      exact hs.marker
    case recorded =>
      intro _
      rw [hdir]
      exact ⟨_, recorded_live hs.filed hs.holds⟩

theorem Sound.marked (hs : h.Sound json) (hid : json.logId.RoundTrips) {logId : LogId}
    (hadv : h.effect.Advances logId) : (h.marked json logId).Sound json := by
  constructor <;> simp only [History.marked, LogStore.markPurged, if_pos hs.onDisk]
  case onDisk => exact hs.onDisk
  case filed => exact hs.filed.retain _
  case holds => exact hs.holds.purge hadv
  case purged => rfl
  case marker => exact hid logId
  case recorded =>
    intro hb
    obtain ⟨records, hr⟩ := hs.recorded hb
    exact ⟨records, hr.purge hadv⟩

theorem Sound.purge (hs : h.Sound json) (hid : json.logId.RoundTrips) {logId : LogId}
    (hadv : h.effect.Advances logId) : (h.step json (.Purge logId)).Sound json := by
  have hmarked := hs.marked hid hadv
  rcases step_purge json h logId with heq | heq
  · rw [heq]
    exact hmarked
  · rw [heq]
    exact hmarked.compact

theorem Sound.saveVote (hs : h.Sound json) (vote : Vote) :
    (h.step json (.SaveVote vote)).Sound json := by
  constructor <;> simp only [History.step, LogStore.saveVote, if_pos hs.onDisk]
  case onDisk => exact hs.onDisk
  case filed => exact hs.filed
  case holds => exact hs.holds
  case purged => exact hs.purged
  case marker => exact hs.marker
  case recorded => exact hs.recorded

variable (json) in
structure Survives (dir : RaftDir) (h : History π) : Prop where
  marker : dir.purgeJson.bind json.logId.fromSlice = h.effect.lastPurged
  recorded : ∃ records, Recorded json (dir.walLog.getD []) h.torn h.effect records

theorem log_open (hrec : json.record.RoundTrips) {dir : RaftDir} {torn : List UInt8} {l : RaftLog π}
    {records : List (WalRecord π)} (hr : Recorded json (dir.walLog.getD []) torn l records)
    (htorn : nextRecord torn = none) :
    (LogStore.open json dir).inner.log =
      dropPurged (dir.purgeJson.bind json.logId.fromSlice) (replayed records) := by
  unfold LogStore.open
  cases hwal : dir.walLog with
  | some bytes =>
      have hreplay := replayWal_records hrec hr.fits htorn hr.bytes
      rw [hwal] at hreplay
      simpa using congrArg (dropPurged _) hreplay
  | none =>
      have hnil : records = [] := by
        have hbytes := hr.bytes
        rw [hwal] at hbytes
        cases records with
        | nil => rfl
        | cons record records => simp [LogStore.recordBytes, writeRecord, leBytes] at hbytes
      rw [hnil]
      cases dir.purgeJson.bind json.logId.fromSlice <;> rfl

theorem Survives.sound {dir : RaftDir} (hrec : json.record.RoundTrips) (hv : Survives json dir h)
    (hread : h.Readable) : History.Sound json { h with store := LogStore.open json dir } := by
  obtain ⟨records, hr⟩ := hv.recorded
  have hlog := log_open hrec hr hread.2
  rw [hv.marker] at hlog
  constructor <;> dsimp only
  case onDisk => rfl
  case filed =>
    rw [hlog]
    exact (filed_replayed hr.fits).dropPurged _
  case holds =>
    rw [hlog]
    exact holds_dropPurged hr.holds
  case purged => exact hv.marker
  case marker => exact hv.marker
  case recorded => exact fun _ => ⟨records, hr⟩

theorem Survives.live {dir : RaftDir} (hrec : json.record.RoundTrips) (hv : Survives json dir h)
    (hread : h.Readable) (i : Nat) :
    (LogStore.open json dir).inner.log.lookup i = h.effect.live i := by
  obtain ⟨records, hr⟩ := hv.recorded
  rw [log_open hrec hr hread.2, hv.marker, hr.holds.live]

theorem recorded_wrote {file : List UInt8} {record : WalRecord π} {written : Nat} {l : RaftLog π}
    (hold : h.buried = false → ∃ records, Recorded json file h.torn h.effect records)
    (hwhole : ∀ records, Recorded json file [] h.effect records →
      Recorded json (file ++ LogStore.recordBytes json record) [] l (records ++ [record]))
    (hb : (h.wrote json record written).buried = false) :
    ∃ records, Recorded json (file ++ (LogStore.recordBytes json record).take written)
      (h.wrote json record written).torn
      (if (LogStore.recordBytes json record).length ≤ written then l else h.effect) records := by
  unfold wrote at hb ⊢
  by_cases hall : (LogStore.recordBytes json record).length ≤ written
  · rw [if_pos hall] at hb ⊢
    have hboth : h.buried = false ∧ h.torn = [] := by simpa using hb
    obtain ⟨records, hr⟩ := hold hboth.1
    rw [hboth.2] at hr
    rw [if_pos hall, List.take_of_length_le hall]
    refine ⟨records ++ [record], ?_⟩
    rw [hboth.2]
    exact hwhole records hr
  · rw [if_neg hall] at hb ⊢
    rw [if_neg hall]
    obtain ⟨records, hr⟩ := hold hb
    exact ⟨records, hr.part _⟩

theorem Sound.survives (hs : h.Sound json) (hid : json.logId.RoundTrips)
    (hcut : json.logId.RejectsTorn) {point : CrashPoint π} (hsafe : h.PointSafe json point)
    (hb : (h.crash json point).buried = false) :
    Survives json (crashDir json point h.store) (h.crash json point) := by
  cases point with
  | Idle => exact ⟨hs.marker, hs.recorded hb⟩
  | Append entry written =>
      refine ⟨?_, ?_⟩
      · simp only [crash]
        split_ifs <;> exact hs.marker
      · exact recorded_wrote hs.recorded (fun records hr => hr.append hsafe) hb
  | Truncate logId written =>
      refine ⟨?_, ?_⟩
      · simp only [crash]
        split_ifs <;> exact hs.marker
      · exact recorded_wrote hs.recorded (fun records hr => hr.truncate hsafe) hb
  | Purge logId written =>
      cases written with
      | none => exact ⟨hs.marker, hs.recorded hb⟩
      | some written =>
          have hkept := hsafe written rfl
          simp only [crash] at hb ⊢
          by_cases hall : (json.logId.toVec logId).length ≤ written
          · rw [if_pos hall] at hb hkept ⊢
            obtain ⟨records, hr⟩ := hs.recorded hb
            refine ⟨?_, records, hr.purge hkept⟩
            simp only [crashDir, cutFile, List.take_of_length_le hall]
            exact hid logId
          · rw [if_neg hall] at hb hkept ⊢
            refine ⟨?_, hs.recorded hb⟩
            rw [hkept]
            exact hcut logId written (by omega)
  | SaveVote vote written => exact ⟨hs.marker, hs.recorded hb⟩
  | Compact written => exact ⟨hs.marker, hs.recorded hb⟩

theorem sound_step (hrec : json.record.RoundTrips) (hid : json.logId.RoundTrips)
    (hcut : json.logId.RejectsTorn) (op : LogOp π) (hs : h.Sound json) (hsafe : h.Safe json op) :
    (h.step json op).Sound json := by
  cases op with
  | Append entries => exact hs.append hsafe
  | Truncate logId => exact hs.truncate hsafe
  | Purge logId => exact hs.purge hid hsafe
  | Compact => exact hs.compact
  | SetCompactThreshold threshold =>
      exact ⟨hs.onDisk, hs.filed, hs.holds, hs.purged, hs.marker, hs.recorded⟩
  | SaveVote vote => exact hs.saveVote vote
  | Crash point => exact (hs.survives hid hcut hsafe.1 hsafe.2.1).sound hrec hsafe.2

theorem sound_run (hrec : json.record.RoundTrips) (hid : json.logId.RoundTrips)
    (hcut : json.logId.RejectsTorn) {ops : List (LogOp π)}
    (h : Meets (step json) (Safe json) ops (start json)) : (run (step json) ops (start json)).Sound json :=
  run_invariant (Sound json) sound_start (fun op _ hs hsafe => sound_step hrec hid hcut op hs hsafe) h

-- Behind every crash of a safe run the store holds what the finished writes amount to.
theorem run_logDurable (hrec : json.record.RoundTrips) (hid : json.logId.RoundTrips)
    (hcut : json.logId.RejectsTorn) {before : List (LogOp π)} {point : CrashPoint π}
    (h : Meets (step json) (Safe json) (before ++ [.Crash point]) (start json)) :
    let s := run (step json) (before ++ [.Crash point]) (start json)
    (∀ i, s.store.inner.log.lookup i = s.effect.live i) ∧
      s.store.inner.lastPurgedLogId = s.effect.lastPurged := by
  obtain ⟨hbefore, hlast⟩ := meets_append h
  have hs := sound_run hrec hid hcut hbefore
  have hv := hs.survives hid hcut hlast.1.1 hlast.1.2.1
  have hlive := hv.live hrec hlast.1.2
  rw [run_append]
  exact ⟨hlive, hv.marker⟩

def blank (term index : Nat) : Entry Unit := ⟨⟨term, 1, index⟩, ()⟩

def compactedRun : List (LogOp Unit) :=
  [.Append [blank 1 1, blank 1 2], .Truncate ⟨1, 1, 2⟩, .Crash (.Append (blank 2 2) 3),
    .Purge ⟨1, 1, 1⟩, .Compact, .Append [blank 2 2]]

theorem compactedRun_safe :
    Meets (step Text.json) (Safe Text.json) (compactedRun ++ [.Crash .Idle]) (start Text.json) := by
  decide +kernel

theorem run_logDurable_compacted :
    let s := run (step Text.json) (compactedRun ++ [.Crash .Idle]) (start Text.json)
    (∀ i, s.store.inner.log.lookup i = s.effect.live i) ∧
      s.store.inner.lastPurgedLogId = s.effect.lastPurged :=
  run_logDurable Text.record_roundTrips Text.logId_roundTrips Text.logId_rejectsTorn compactedRun_safe

-- The second entry is appended behind three bytes of a torn record.
theorem append_behind_torn_lost :
    let s := run (step Text.json) [.Append [blank 1 1], .Crash (.Append (blank 1 2) 3),
      .Append [blank 1 2], .Crash .Idle] (start Text.json)
    ¬∀ i, s.store.inner.log.lookup i = s.effect.live i := by
  intro s h
  exact absurd (h 2) (by decide +kernel)

end History

end Kkdb.Raft
