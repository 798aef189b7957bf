import Kkdb.Wal.Snapshots

namespace Kkdb

open Lib

namespace Wal

inductive BufferOp where
  | Log (op : WalOp)
  | RegisterSnapshot
  | ReleaseSnapshot (snapshotId : Nat)
  | Checkpoint (nanos : Nat)

-- A WAL with its finished commits since the last reset, and the database file.
structure Buffering where
  history : History
  db : DbFile

namespace Buffering

def start (dbUuid : Buf 16) (nanos : Nat) (db : DbFile) : Buffering where
  history := History.start dbUuid nanos
  db := db

def step (op : BufferOp) (s : Buffering) : Buffering :=
  match op with
  | .Log op => { s with history := History.step op s.history }
  | .RegisterSnapshot => { s with history := { s.history with wal := s.history.wal.registerSnapshot.2.2 } }
  | .ReleaseSnapshot id =>
      { s with history := { s.history with wal := (s.history.wal.releaseSnapshot id).2 } }
  | .Checkpoint nanos =>
      let r := s.history.wal.checkpoint s.db nanos
      { history := { wal := r.1, done := if s.history.wal.Blocked then s.history.done else [] }, db := r.2.1 }

-- Each commit is made right behind the last commit frame, and is marked as one.
def Appends (op : BufferOp) (s : Buffering) : Prop :=
  match op with
  | .Log op => History.Appends op s.history
  | _ => True

def Sound (s : Buffering) : Prop := ∃ tail rest, s.history.Intact tail rest

def Durable (w : Wal) (p : Nat) (data : PageData) : Prop :=
  ∃ bytes w', w.file = some bytes ∧ Wal.open bytes = .ok w' ∧ w'.readPage p = some data

-- The buffered page writes outlive the checkpoint: the writer reads its own version of
-- each page, and the commit that follows makes them visible and durable.
def Survives (s : Buffering) (nanos : Nat) (dbPageCount : UInt32) : Prop :=
  let w := (s.history.wal.checkpoint s.db nanos).1
  ∀ p f, newest s.history.wal.uncommitted p = some f →
    w.readPage p = some f.data ∧ (w.commit dbPageCount.toNat).readPage p = some f.data ∧
      Durable (w.commit dbPageCount.toNat) p f.data

variable {s : Buffering} {op : BufferOp}

theorem sound_start (dbUuid : Buf 16) (nanos : Nat) (db : DbFile) : (start dbUuid nanos db).Sound :=
  ⟨[], [], History.intact_start dbUuid nanos⟩

-- The WAL that a full checkpoint leaves is the one of an empty file with a new header.
theorem intact_fullCheckpoint {h : History} {tail : List WalFrame} {rest : List UInt8}
    (hi : h.Intact tail rest) (db : DbFile) (nanos : Nat) :
    History.Intact ⟨(h.wal.fullCheckpoint db nanos).1, []⟩ [] [] where
  header := freshHeader_valid hi.header nanos
  file := by
    show (h.wal.file.map fun bytes => (writeAt bytes 0
        (h.wal.freshHeader nanos).serialize).take WAL_HEADER_SIZE) =
      some ((h.wal.freshHeader nanos).serialize ++ ([] ++ []))
    rw [hi.file, Option.map_some, List.append_nil, List.append_nil]
    have hwrite : writeAt (fileBytes h.wal.header (h.done.flatten ++ tail) rest) 0
        (h.wal.freshHeader nanos).serialize = (h.wal.freshHeader nanos).serialize ++
          (fileBytes h.wal.header (h.done.flatten ++ tail) rest).drop WAL_HEADER_SIZE := by
      simp [writeAt]
    rw [hwrite, List.take_left' (WalHeader.length_serialize _)]
  total := rfl
  holds := ⟨rfl, fun _ => rfl, rfl⟩
  fits := fun _ hf => (nomatch hf)
  ended := rfl
  unended := fun _ hf => (nomatch hf)
  short := by decide
  buffered := fun _ hf => (nomatch hf)

theorem Sound.step (h : s.Sound) (hop : Appends op s) : (Buffering.step op s).Sound := by
  cases op with
  | Log op => exact History.Intact.step h hop
  | RegisterSnapshot =>
      obtain ⟨tail, rest, hi⟩ := h
      exact ⟨tail, rest, hi.header, hi.file, hi.total, ⟨hi.holds.committed, hi.holds.pages, hi.holds.count⟩,
        hi.fits, hi.ended, hi.unended, hi.short, hi.buffered⟩
  | ReleaseSnapshot id =>
      obtain ⟨tail, rest, hi⟩ := h
      exact ⟨tail, rest, hi.header, hi.file, hi.total, ⟨hi.holds.committed, hi.holds.pages, hi.holds.count⟩,
        hi.fits, hi.ended, hi.unended, hi.short, hi.buffered⟩
  | Checkpoint nanos =>
      obtain ⟨tail, rest, hi⟩ := h
      unfold Buffering.step
      dsimp only
      by_cases hblocked : s.history.wal.Blocked
      · rw [checkpoint_blocked hblocked, if_pos hblocked]
        exact ⟨tail, rest, hi⟩
      · rw [checkpoint_unblocked hblocked, if_neg hblocked]
        exact ⟨[], [], intact_fullCheckpoint hi s.db nanos⟩

theorem sound_run {dbUuid : Buf 16} {nanos : Nat} {db : DbFile} {ops : List BufferOp}
    (h : Meets Buffering.step Appends ops (start dbUuid nanos db)) :
    (run Buffering.step ops (start dbUuid nanos db)).Sound :=
  run_invariant Sound (sound_start dbUuid nanos db) (fun _ _ => Sound.step) h

theorem newest_append (frames frames' : List WalFrame) (p : Nat) :
    newest (frames ++ frames') p = (newest frames' p).or (newest frames p) := by
  rw [newest, List.reverse_append, List.find?_append]
  rfl

theorem newestIdx_bind (frames : List WalFrame) (p : Nat) :
    ((newestIdx frames p).bind fun idx => frames[idx]?) = newest frames p := by
  have hfind := find_indexEntries frames 0 p
  unfold newestIdx
  cases he : (indexEntries frames 0).reverse.find? fun e => e.1 == p with
  | none =>
      rw [he] at hfind
      exact hfind.symm
  | some e =>
      rw [he] at hfind
      obtain ⟨i, hi, hget, -⟩ := hfind
      rw [Option.map_some, Option.bind_some, hi, Nat.zero_add]
      exact hget

theorem readPage_newest {w : Wal} {frames : List WalFrame} (h : w.Holds frames) (hclean : w.uncommitted = [])
    (p : Nat) : w.readPage p = (newest frames p).map (·.data) := by
  rw [History.Holds.readPage h hclean, ← newestIdx_bind]
  cases newestIdx frames p <;> rfl

theorem indexed_of_holds {w : Wal} {frames : List WalFrame} (h : w.Holds frames) : w.Indexed := by
  intro p idx hidx
  rw [h.pages] at hidx
  rw [h.committed]
  have hfind := find_indexEntries frames 0 p
  unfold newestIdx at hidx
  cases he : (indexEntries frames 0).reverse.find? fun e => e.1 == p with
  | none =>
      rw [he] at hidx
      cases hidx
  | some e =>
      rw [he] at hfind hidx
      obtain ⟨i, hi, hget, hsome⟩ := hfind
      obtain rfl := Option.some.inj hidx
      rw [← hget] at hsome
      have hlt : i < frames.length := by simpa using hsome
      dsimp only
      omega

-- A buffered frame is what the writer reads, before and after the commit.
theorem readPage_buffered {w : Wal} {p : Nat} {f : WalFrame} (hf : newest w.uncommitted p = some f) :
    w.readPage p = some f.data := by
  rw [readPage_eq, hf]
  rfl

theorem durable_commit {h : History} {tail : List WalFrame} {rest : List UInt8} (hi : h.Intact tail rest)
    {dbPageCount : UInt32} (hcount : 0 < dbPageCount.toNat) {p : Nat} {f : WalFrame}
    (hf : newest h.wal.uncommitted p = some f) : Durable (h.wal.commit dbPageCount.toNat) p f.data := by
  have hne : h.wal.uncommitted ≠ [] := by
    intro hnil
    rw [hnil] at hf
    cases hf
  obtain ⟨rest', hshort, htorn, hfits⟩ := hi.finished dbPageCount.toNat_lt (Nat.le_refl _)
  obtain ⟨w, hopen, ho⟩ := open_fileBytes hi.header hfits (.inl hshort)
  have hholds := ho.holds
  rw [← List.append_assoc, committedPart_markCommit _ hne hcount] at hholds
  refine ⟨_, w, ?_, hopen, ?_⟩
  · rw [History.file_commit hne, hi.file, Option.map_some, htorn]
  · rw [readPage_newest hholds ho.clean, newest_append]
    have hmark := newest_markCommit h.wal.uncommitted dbPageCount.toNat p
    rw [hf, Option.map_some] at hmark
    obtain ⟨g, hg, hdata⟩ := Option.map_eq_some_iff.mp hmark
    rw [hg, Option.some_or, Option.map_some, hdata]

theorem readPage_reset {w : Wal} (h : ¬w.Blocked) (db : DbFile) (nanos p : Nat) :
    (w.checkpoint db nanos).1.readPage p = none := by
  rw [checkpoint_unblocked h]
  rfl

-- Buffered page writes outlive a checkpoint exactly when a reader blocks it.
theorem bufferedSurvives_iff (dbUuid : Buf 16) (nanos : Nat) (db : DbFile) (ops : List BufferOp)
    (hops : Meets step Appends ops (start dbUuid nanos db))
    (hbuffered : (run step ops (start dbUuid nanos db)).history.wal.uncommitted ≠ []) (nanos' : Nat)
    (dbPageCount : UInt32) (hcount : 0 < dbPageCount) :
    (run step ops (start dbUuid nanos db)).Survives nanos' dbPageCount ↔
      (run step ops (start dbUuid nanos db)).history.wal.Blocked := by
  obtain ⟨tail, rest, hi⟩ := sound_run hops
  generalize run step ops (start dbUuid nanos db) = s at hbuffered hi
  constructor
  · intro hsurvives
    by_contra hblocked
    obtain ⟨init, f, hlast⟩ := (List.eq_nil_or_concat _).resolve_left hbuffered
    have hf : newest s.history.wal.uncommitted f.pageNum = some f := by
      rw [hlast, List.concat_eq_append, newest_append]
      simp [newest]
    have hread := (hsurvives f.pageNum f hf).1
    rw [readPage_reset hblocked] at hread
    cases hread
  · intro hblocked
    unfold Survives
    rw [checkpoint_blocked hblocked]
    dsimp only
    intro p f hf
    have hread := readPage_buffered hf
    refine ⟨hread, ?_, durable_commit hi hcount hf⟩
    rw [readPage_commit (indexed_of_holds hi.holds)]
    exact hread

section Example

def underReader : List BufferOp := [.RegisterSnapshot, .Log (.WritePage 4 History.oneByte)]

theorem survives_underReader :
    (run step underReader (start Buf.zero 1 (History.emptyFile 3))).Survives 7 4 :=
  (bufferedSurvives_iff Buf.zero 1 (History.emptyFile 3) underReader
    ⟨trivial, fun _ hcompletes => (nomatch hcompletes), trivial⟩ (List.cons_ne_nil _ _) 7 4 (by decide)).mpr
    ⟨rfl, List.cons_ne_nil _ _⟩

def pageBuffered : Buffering := run step [.Log (.WritePage 4 History.oneByte)]
    (start Buf.zero 1 (History.emptyFile 3))

-- With no reader the checkpoint drops the page that the writer has buffered.
theorem checkpoint_drops_buffered : ¬pageBuffered.Survives 7 4 := by
  intro hsurvives
  have hblocked : ¬pageBuffered.history.wal.Blocked := fun h => h.2 rfl
  have hread := (hsurvives 4 { pageNum := 4, commitSize := 0, data := History.oneByte } rfl).1
  rw [readPage_reset hblocked] at hread
  cases hread

end Example

end Buffering

end Wal

end Kkdb
