import Kkdb.Wal.History

namespace Kkdb

open Lib

namespace Wal

structure Disk where
  db : DbFile
  wal : List UInt8

inductive DiskStep where
  | WritePage (page : Nat) (data : PageData)
  | SetDbLen (pages : Nat)
  | SyncDb
  | WriteHeader (header : WalHeader)
  | TruncateWal
  | SyncWal

namespace DiskStep

def apply : DiskStep → Disk → Disk
  | .WritePage page data, d => { d with db := d.db.writePage page data }
  | .SetDbLen pages, d => { d with db := d.db.setPages pages }
  | .WriteHeader header, d => { d with wal := writeAt d.wal 0 header.serialize }
  | .TruncateWal, d => { d with wal := d.wal.take WAL_HEADER_SIZE }
  | .SyncDb, d => d
  | .SyncWal, d => d

end DiskStep

def freshHeader (w : Wal) (nanos : Nat) : WalHeader :=
  { w.header with salt1 := nanos % 2 ^ 32, salt2 := nanos / 2 ^ 32 % 2 ^ 32 }

def dbSteps (w : Wal) (order : List (Nat × PageData)) : List DiskStep :=
  (order.map fun e => .WritePage e.1 e.2) ++
    (if 0 < w.index.dbPageCount then [.SetDbLen w.index.dbPageCount] else []) ++ [.SyncDb]

-- What a checkpoint does to the disk, with the page map visited in the given order.
def checkpointSteps (w : Wal) (order : List (Nat × PageData)) (nanos : Nat) : List DiskStep :=
  if w.Blocked then []
  else w.dbSteps order ++ [.WriteHeader (w.freshHeader nanos), .TruncateWal, .SyncWal]

def runSteps (steps : List DiskStep) (d : Disk) : Disk := run DiskStep.apply steps d

def logical (d : Disk) (p : Nat) : Option PageData :=
  match Wal.open d.wal with
  | .ok w => (w.readPage p).or (d.db.readPage p)
  | .error _ => none

def runningView (w : Wal) (db : DbFile) (p : Nat) : PageData := (w.readPage p).getD (db.slot p)

-- Wherever a checkpoint is cut off, each page of the database reads as before.
def CheckpointSafe (w : Wal) (db : DbFile) (bytes : List UInt8) (nanos : Nat) : Prop :=
  ∀ order, order.Perm (w.checkpointWrites w.committedFrames.length) → ∀ count p, 0 < p →
    p ≤ w.index.dbPageCount →
      logical (runSteps ((w.checkpointSteps order nanos).take count) ⟨db, bytes⟩) p =
        logical ⟨db, bytes⟩ p

-- A WAL with nothing buffered and the bytes of its file.
structure Backed (w : Wal) (bytes : List UInt8) : Prop where
  file : w.file = some bytes
  opens : ∃ w₀, Wal.open bytes = .ok w₀ ∧ w₀.header = w.header
  clean : w.uncommitted = []

-- The first frame of the file has not the salts that a checkpoint draws.
def FreshSalts (bytes : List UInt8) (nanos : Nat) : Prop :=
  WAL_HEADER_SIZE + WAL_FRAME_SIZE ≤ bytes.length →
    leNat (((bytes.drop WAL_HEADER_SIZE).drop 8).take 4) ≠ nanos % 2 ^ 32 ∨
      leNat (((bytes.drop WAL_HEADER_SIZE).drop 12).take 4) ≠ nanos / 2 ^ 32 % 2 ^ 32

theorem FreshSalts.stops {bytes : List UInt8} {nanos : Nat} (h : FreshSalts bytes nanos) :
    Stops (nanos % 2 ^ 32) (nanos / 2 ^ 32 % 2 ^ 32) (bytes.drop WAL_HEADER_SIZE) := by
  by_cases hlen : (bytes.drop WAL_HEADER_SIZE).length < WAL_FRAME_SIZE
  · exact .inl hlen
  right
  have hlong : WAL_HEADER_SIZE + WAL_FRAME_SIZE ≤ bytes.length := by
    rw [List.length_drop] at hlen
    have : 0 < WAL_FRAME_SIZE := by decide
    omega
  have hsalts := h hlong
  generalize bytes.drop WAL_HEADER_SIZE = rest at hlen hsalts
  have hfield : ∀ off, off ≤ 12 → (((rest.take WAL_FRAME_SIZE).drop off).take 4) =
      (rest.drop off).take 4 := by
    intro off hoff
    have hframe : 16 ≤ WAL_FRAME_SIZE := by decide
    rw [List.drop_take, List.take_take, Nat.min_eq_left (by omega)]
  refine ⟨corrupt "WAL frame salt mismatch (stale WAL?)", ?_⟩
  unfold WalFrame.deserialize
  dsimp only
  rw [if_neg (by rw [List.length_take]; omega), hfield 8 (by decide), hfield 12 (by decide),
    if_pos hsalts]

theorem Backed.header {w : Wal} {bytes : List UInt8} (h : w.Backed bytes) :
    WAL_HEADER_SIZE ≤ bytes.length ∧ w.header.Valid := by
  obtain ⟨w₀, hopen, hheader⟩ := h.opens
  unfold Wal.open at hopen
  split_ifs at hopen with hlen
  refine ⟨by omega, ?_⟩
  cases hdr : WalHeader.deserialize (bytes.take WAL_HEADER_SIZE) with
  | error e => rw [hdr] at hopen; cases hopen
  | ok header =>
      rw [hdr] at hopen
      obtain rfl := Except.ok.inj hopen
      rw [← hheader]
      exact WalHeader.valid_of_deserialize hdr

theorem freshHeader_valid {w : Wal} (h : w.header.Valid) (nanos : Nat) : (w.freshHeader nanos).Valid where
  version := h.version
  pageSize := h.pageSize
  salt1 := Nat.mod_lt _ (by decide)
  salt2 := Nat.mod_lt _ (by decide)

-- Behind the fresh header no frame is recovered, and the database file speaks alone.
theorem logical_reset {h : WalHeader} (hv : h.Valid) {rest : List UInt8}
    (hstop : Stops h.salt1 h.salt2 rest) (db : DbFile) (p : Nat) :
    logical ⟨db, h.serialize ++ rest⟩ p = db.readPage p := by
  have hfits : ∀ f ∈ ([] : List WalFrame), f.Fits := fun f hf => (nomatch hf)
  obtain ⟨w, hopen, ho⟩ := open_fileBytes hv hfits hstop
  have hnone : w.readPage p = none := by
    rw [readPage_eq, ho.clean, ho.holds.pages]
    rfl
  rw [fileBytes, encode, List.flatMap_nil, List.nil_append] at hopen
  rw [logical, hopen]
  dsimp only
  rw [hnone, Option.none_or]

theorem readPage_of_clean {w : Wal} (h : w.uncommitted = []) (p : Nat) : w.readPage p =
    (w.index.pageMap.lookup p).bind fun idx => (w.committedFrames[idx]?).map (·.data) := by
  rw [readPage_eq, h]
  rfl

theorem mem_writes_iff {w : Wal} (h : w.uncommitted = []) {e : Nat × PageData} :
    e ∈ w.checkpointWrites w.committedFrames.length ↔ w.readPage e.1 = some e.2 := by
  rw [mem_checkpointWrites, readPage_of_clean h]
  constructor
  · rintro ⟨idx, f, hidx, hf, hdata⟩
    rw [hidx, Option.bind_some, hf, Option.map_some, hdata]
  · intro hread
    obtain ⟨idx, hidx, hmap⟩ := Option.bind_eq_some_iff.mp hread
    obtain ⟨f, hf, hdata⟩ := Option.map_eq_some_iff.mp hmap
    exact ⟨idx, f, hidx, hf, hdata.symm⟩

theorem runSteps_append (steps steps' : List DiskStep) (d : Disk) :
    runSteps (steps ++ steps') d = runSteps steps' (runSteps steps d) := run_append steps steps' d

theorem runSteps_writes (order : List (Nat × PageData)) (d : Disk) :
    runSteps (order.map fun e => .WritePage e.1 e.2) d =
      { d with db := order.foldl (fun f e => DbFile.writePage f e.1 e.2) d.db } := by
  induction order generalizing d with
  | nil => rfl
  | cons e order ih => exact ih _

theorem runSteps_dbSteps (w : Wal) (order : List (Nat × PageData)) (d : Disk) :
    runSteps (w.dbSteps order) d =
      { d with db := if 0 < w.index.dbPageCount then
          (order.foldl (fun f e => DbFile.writePage f e.1 e.2) d.db).setPages w.index.dbPageCount
        else order.foldl (fun f e => DbFile.writePage f e.1 e.2) d.db } := by
  rw [dbSteps, runSteps_append, runSteps_append, runSteps_writes]
  split_ifs <;> rfl

-- The steps together are what `checkpoint` does.
theorem runSteps_checkpointSteps {w : Wal} {bytes : List UInt8} (hfile : w.file = some bytes)
    (db : DbFile) (nanos : Nat) :
    let d := runSteps (w.checkpointSteps (w.checkpointWrites w.committedFrames.length) nanos) ⟨db, bytes⟩
    (w.checkpoint db nanos).2.1 = d.db ∧ (w.checkpoint db nanos).1.file = some d.wal := by
  by_cases hblocked : w.Blocked
  · rw [checkpoint_blocked hblocked, checkpointSteps, if_pos hblocked]
    exact ⟨rfl, hfile⟩
  · rw [checkpoint_unblocked hblocked, checkpointSteps, if_neg hblocked, runSteps_append,
      runSteps_dbSteps]
    refine ⟨rfl, ?_⟩
    unfold fullCheckpoint
    rw [hfile]
    rfl

section Phases

variable {w : Wal} {order : List (Nat × PageData)} {p : Nat}

theorem readPage_settled (hclean : w.uncommitted = [])
    (horder : order.Perm (w.checkpointWrites w.committedFrames.length)) (db : DbFile) (bytes : List UInt8)
    (hp : 0 < p) (hle : p ≤ w.index.dbPageCount) :
    (runSteps (w.dbSteps order) ⟨db, bytes⟩).db.readPage p = some (w.runningView db p) := by
  have hmem : ∀ e, e ∈ order ↔ w.readPage e.1 = some e.2 := fun e =>
    horder.mem_iff.trans (mem_writes_iff hclean)
  have hslot := slot_writes order db p (w.runningView db p) (by
    rintro e he rfl
    rw [runningView, (hmem e).mp he]
    rfl)
  have hkeep : (order.foldl (fun f e => DbFile.writePage f e.1 e.2) db).slot p = w.runningView db p := by
    rw [hslot]
    split_ifs with hex
    · rfl
    · cases hread : w.readPage p with
      | none => rw [runningView, hread]; rfl
      | some data => exact absurd ⟨(p, data), (hmem _).mpr hread, rfl⟩ hex
  rw [runSteps_dbSteps, if_pos (by omega)]
  have hlen : p * PAGE_SIZE ≤ w.index.dbPageCount * PAGE_SIZE := Nat.mul_le_mul_right _ hle
  simp only [DbFile.readPage, DbFile.setPages, hlen, hle, if_true, hkeep]

theorem mem_dbSteps {step : DiskStep} (h : step ∈ w.dbSteps order) :
    (∃ e ∈ order, step = .WritePage e.1 e.2) ∨ step = .SetDbLen w.index.dbPageCount ∨
      step = .SyncDb := by
  rcases List.mem_append.mp h with hdb | hsync
  · rcases List.mem_append.mp hdb with hwrite | hset
    · obtain ⟨e, he, rfl⟩ := List.mem_map.mp hwrite
      exact .inl ⟨e, he, rfl⟩
    · split_ifs at hset
      · exact .inr (.inl (List.mem_singleton.mp hset))
      · cases hset
  · exact .inr (.inr (List.mem_singleton.mp hsync))

-- While the database file is written, each of its pages is as before or as it will be.
theorem slot_writing (hclean : w.uncommitted = [])
    (horder : order.Perm (w.checkpointWrites w.committedFrames.length)) (db : DbFile) (bytes : List UInt8)
    (hle : p ≤ w.index.dbPageCount) {steps : List DiskStep} (hsteps : steps <+: w.dbSteps order) :
    let d := runSteps steps ⟨db, bytes⟩
    d.wal = bytes ∧ (d.db.slot p = db.slot p ∨ d.db.slot p = w.runningView db p) ∧
      (p * PAGE_SIZE ≤ db.len → p * PAGE_SIZE ≤ d.db.len) := by
  have hmeets : Meets DiskStep.apply (fun step _ => step ∈ w.dbSteps order) steps ⟨db, bytes⟩ := by
    refine meets_of_prefixes fun before step after heq => hsteps.subset ?_
    rw [heq]
    exact List.mem_append_right _ List.mem_cons_self
  refine run_invariant (fun d : Disk => d.wal = bytes ∧
    (d.db.slot p = db.slot p ∨ d.db.slot p = w.runningView db p) ∧
      (p * PAGE_SIZE ≤ db.len → p * PAGE_SIZE ≤ d.db.len)) ⟨rfl, .inl rfl, fun h => h⟩ ?_ hmeets
  rintro step d ⟨hwal, hslot, hlen⟩ hstep
  obtain ⟨e, he, rfl⟩ | rfl | rfl := mem_dbSteps hstep
  · refine ⟨hwal, ?_, fun h => Nat.le_trans (hlen h) (Nat.le_max_left _ _)⟩
    by_cases hep : p = e.1
    · have hread := (mem_writes_iff hclean).mp (horder.mem_iff.mp he)
      right
      rw [hep, runningView, hread]
      simp [DiskStep.apply, DbFile.writePage]
    · simpa [DiskStep.apply, DbFile.writePage, hep] using hslot
  · refine ⟨hwal, ?_, fun _ => Nat.mul_le_mul_right _ hle⟩
    simpa [DiskStep.apply, DbFile.setPages, hle] using hslot
  · exact ⟨hwal, hslot, hlen⟩

theorem logical_writing {db : DbFile} {bytes : List UInt8} (hb : w.Backed bytes)
    (horder : order.Perm (w.checkpointWrites w.committedFrames.length))
    (hle : p ≤ w.index.dbPageCount) {steps : List DiskStep} (hsteps : steps <+: w.dbSteps order)
    (hsame : logical ⟨db, bytes⟩ p = some (w.runningView db p)) :
    logical (runSteps steps ⟨db, bytes⟩) p = logical ⟨db, bytes⟩ p := by
  obtain ⟨hwal, hslot, hlen⟩ := slot_writing hb.clean horder db bytes hle hsteps
  obtain ⟨w₀, hopen, -⟩ := hb.opens
  generalize runSteps steps ⟨db, bytes⟩ = d at hwal hslot hlen
  rw [logical, logical, hwal, hopen]
  rw [logical, hopen] at hsame
  dsimp only at hsame ⊢
  cases hread : w₀.readPage p with
  | some data => rfl
  | none =>
      rw [hread, Option.none_or] at hsame
      rw [Option.none_or, Option.none_or, hsame]
      unfold DbFile.readPage at hsame ⊢
      split_ifs at hsame with hfits
      have hold : db.slot p = w.runningView db p := Option.some.inj hsame
      rw [if_pos (hlen hfits)]
      rcases hslot with h | h
      · rw [h, hold]
      · rw [h]

theorem logical_reset_steps {bytes : List UInt8} (hb : w.Backed bytes) {nanos : Nat}
    (hsalts : FreshSalts bytes nanos) (db : DbFile) (p : Nat) {steps : List DiskStep}
    (hsteps : steps <+: [.WriteHeader (w.freshHeader nanos), .TruncateWal, .SyncWal])
    (hne : steps ≠ []) :
    logical (runSteps steps ⟨db, bytes⟩) p = db.readPage p := by
  obtain ⟨hlen, hheader⟩ := hb.header
  have hv := freshHeader_valid hheader nanos
  have hwrite : writeAt bytes 0 (w.freshHeader nanos).serialize =
      (w.freshHeader nanos).serialize ++ bytes.drop WAL_HEADER_SIZE := by
    simp [writeAt]
  have htake : ((w.freshHeader nanos).serialize ++ bytes.drop WAL_HEADER_SIZE).take WAL_HEADER_SIZE =
      (w.freshHeader nanos).serialize ++ [] := by
    rw [List.take_left' (WalHeader.length_serialize _), List.append_nil]
  have hstop : Stops (w.freshHeader nanos).salt1 (w.freshHeader nanos).salt2
      (bytes.drop WAL_HEADER_SIZE) := hsalts.stops
  have hempty : Stops (w.freshHeader nanos).salt1 (w.freshHeader nanos).salt2 [] :=
    .inl (by decide)
  have hcases : steps = [.WriteHeader (w.freshHeader nanos)] ∨
      steps = [.WriteHeader (w.freshHeader nanos), .TruncateWal] ∨
      steps = [.WriteHeader (w.freshHeader nanos), .TruncateWal, .SyncWal] := by
    rcases List.prefix_cons_iff.mp hsteps with hnil | ⟨steps₁, rfl, h₁⟩
    · exact absurd hnil hne
    rcases List.prefix_cons_iff.mp h₁ with rfl | ⟨steps₂, rfl, h₂⟩
    · exact .inl rfl
    rcases List.prefix_cons_iff.mp h₂ with rfl | ⟨steps₃, rfl, h₃⟩
    · exact .inr (.inl rfl)
    rw [List.prefix_nil.mp h₃]
    exact .inr (.inr rfl)
  rcases hcases with rfl | rfl | rfl
  · show logical ⟨db, writeAt bytes 0 (w.freshHeader nanos).serialize⟩ p = _
    rw [hwrite]
    exact logical_reset hv hstop db p
  · show logical ⟨db, (writeAt bytes 0 (w.freshHeader nanos).serialize).take WAL_HEADER_SIZE⟩ p = _
    rw [hwrite, htake]
    exact logical_reset hv hempty db p
  · show logical ⟨db, (writeAt bytes 0 (w.freshHeader nanos).serialize).take WAL_HEADER_SIZE⟩ p = _
    rw [hwrite, htake]
    exact logical_reset hv hempty db p

end Phases

section Safe

variable {w : Wal} {db : DbFile} {bytes : List UInt8} {nanos : Nat}

-- Once the header is written, each page is as the running WAL showed it.
theorem logical_settled (hb : w.Backed bytes) (hsalts : FreshSalts bytes nanos)
    {order : List (Nat × PageData)}
    (horder : order.Perm (w.checkpointWrites w.committedFrames.length)) {steps : List DiskStep}
    (hsteps : steps <+: [.WriteHeader (w.freshHeader nanos), .TruncateWal, .SyncWal])
    (hne : steps ≠ []) {p : Nat} (hp : 0 < p) (hle : p ≤ w.index.dbPageCount) :
    logical (runSteps (w.dbSteps order ++ steps) ⟨db, bytes⟩) p = some (w.runningView db p) := by
  have hwal : (runSteps (w.dbSteps order) ⟨db, bytes⟩).wal = bytes := by rw [runSteps_dbSteps]
  have hread := readPage_settled hb.clean horder db bytes hp hle
  rw [runSteps_append]
  generalize runSteps (w.dbSteps order) ⟨db, bytes⟩ = d at hwal hread
  obtain ⟨db', wal'⟩ := d
  dsimp only at hwal hread
  rw [hwal, logical_reset_steps hb hsalts db' p hsteps hne, hread]

theorem CheckpointSafe.agrees (hb : w.Backed bytes) (hsalts : FreshSalts bytes nanos)
    (h : w.CheckpointSafe db bytes nanos) (hblocked : ¬w.Blocked) {p : Nat} (hp : 0 < p)
    (hle : p ≤ w.index.dbPageCount) : logical ⟨db, bytes⟩ p = some (w.runningView db p) := by
  have hall := h _ (List.Perm.refl _) (w.checkpointSteps
    (w.checkpointWrites w.committedFrames.length) nanos).length p hp hle
  rw [List.take_length, checkpointSteps, if_neg hblocked,
    logical_settled hb hsalts (List.Perm.refl _) (List.prefix_refl _) (by simp) hp hle] at hall
  exact hall.symm

end Safe

-- A checkpoint is safe exactly when it is blocked, or when the running WAL shows each
-- page as the files on disk do.
theorem checkpointSafe_iff (w : Wal) (db : DbFile) (bytes : List UInt8) (nanos : Nat)
    (hb : w.Backed bytes) (hsalts : FreshSalts bytes nanos) :
    w.CheckpointSafe db bytes nanos ↔ w.Blocked ∨
      ∀ p, 0 < p → p ≤ w.index.dbPageCount → logical ⟨db, bytes⟩ p = some (w.runningView db p) := by
  constructor
  · intro h
    by_cases hblocked : w.Blocked
    · exact .inl hblocked
    · exact .inr fun p hp hle => h.agrees hb hsalts hblocked hp hle
  · intro h order horder count p hp hle
    by_cases hblocked : w.Blocked
    · rw [checkpointSteps, if_pos hblocked, List.take_nil]
      rfl
    have hsame := h.resolve_left hblocked p hp hle
    rw [checkpointSteps, if_neg hblocked, List.take_append]
    by_cases hcount : count ≤ (w.dbSteps order).length
    · rw [Nat.sub_eq_zero_of_le hcount, List.take_zero, List.append_nil]
      exact logical_writing hb horder hle (List.take_prefix _ _) hsame
    · rw [List.take_of_length_le (by omega), hsame]
      refine logical_settled hb hsalts horder (List.take_prefix _ _) (fun hnil => ?_) hp hle
      have hlen := congrArg List.length hnil
      rw [List.length_take, List.length_nil] at hlen
      simp only [List.length_cons, List.length_nil] at hlen
      omega

theorem freshSalts_fileBytes {h : WalHeader} (hv : h.Valid) {frames : List WalFrame}
    {rest : List UInt8} (hshort : rest.length < WAL_FRAME_SIZE) {nanos : Nat}
    (hsalts : h.salt1 ≠ nanos % 2 ^ 32 ∨ h.salt2 ≠ nanos / 2 ^ 32 % 2 ^ 32) :
    FreshSalts (fileBytes h frames rest) nanos := by
  intro hlong
  have hdrop : (fileBytes h frames rest).drop WAL_HEADER_SIZE =
      encode h.salt1 h.salt2 frames ++ rest := List.drop_left' h.length_serialize
  rw [hdrop]
  cases frames with
  | nil =>
      rw [length_fileBytes, List.length_nil, Nat.zero_mul] at hlong
      omega
  | cons f frames =>
      obtain ⟨-, -, hs₁, hs₂, -⟩ := f.drop_serialize h.salt1 h.salt2
      have hfield : ∀ off, off ≤ 12 → ((encode h.salt1 h.salt2 (f :: frames) ++ rest).drop off).take 4 =
          ((f.serialize h.salt1 h.salt2).drop off).take 4 := by
        intro off hoff
        have hlen := f.length_serialize h.salt1 h.salt2
        have hframe : 16 ≤ WAL_FRAME_SIZE := by decide
        rw [encode, List.flatMap_cons, List.append_assoc, List.drop_append_of_le_length (by omega),
          List.take_append_of_le_length (by rw [List.length_drop]; omega)]
      rw [hfield 8 (by decide), hfield 12 (by decide), hs₁, hs₂,
        leNat_leBytes_of_lt (by simpa using hv.salt1), leNat_leBytes_of_lt (by simpa using hv.salt2)]
      exact hsalts

namespace History

variable {h : History} {tail : List WalFrame} {rest : List UInt8}

theorem Intact.backed (hi : h.Intact tail rest) (hclean : h.wal.uncommitted = []) :
    h.wal.Backed (fileBytes h.wal.header (h.done.flatten ++ tail) rest) := by
  obtain ⟨w, hopen, ho⟩ := open_fileBytes hi.header hi.fits (.inl hi.short)
  exact ⟨hi.file, ⟨w, hopen, ho.header⟩, hclean⟩

theorem Holds.readPage {w : Wal} {frames : List WalFrame} (hw : w.Holds frames)
    (hclean : w.uncommitted = []) (p : Nat) : w.readPage p =
      (newestIdx frames p).bind fun idx => (frames[idx]?).map (·.data) := by
  rw [readPage_of_clean hclean, hw.pages, hw.committed]

-- As long as commits append to the log, the files show what the running WAL shows.
theorem Intact.logical (hi : h.Intact tail rest) (hclean : h.wal.uncommitted = []) (db : DbFile)
    (p : Nat) : Wal.logical ⟨db, fileBytes h.wal.header (h.done.flatten ++ tail) rest⟩ p =
      (h.wal.readPage p).or (db.readPage p) := by
  obtain ⟨w, hopen, ho⟩ := open_fileBytes hi.header hi.fits (.inl hi.short)
  have hholds := ho.holds
  rw [committedPart_append hi.unended, hi.ended] at hholds
  rw [Wal.logical, hopen]
  dsimp only
  rw [Holds.readPage hholds ho.clean, Holds.readPage hi.holds hclean]

section Example

def emptyFile (pages : Nat) : DbFile := { len := pages * PAGE_SIZE, slot := fun _ => Buf.zero }

def onePage : History := step (.Commit 1) (step (.WritePage 1 oneByte) (start Buf.zero 1))

theorem onePage_count : onePage.wal.index.dbPageCount = 1 := rfl

theorem onePage_read : onePage.wal.readPage 1 = some oneByte := by
  have hindexed : ((create Buf.zero 1).writePage 1 oneByte).Indexed := indexed_create Buf.zero 1
  have hcommit : onePage.wal = ((create Buf.zero 1).writePage 1 oneByte).commit 1 := rfl
  rw [hcommit, readPage_commit hindexed, readPage_writePage, if_pos rfl]

-- The page of the WAL is on its way to an empty database file.
theorem checkpointSafe_onePage :
    ∃ bytes, onePage.wal.file = some bytes ∧ onePage.wal.CheckpointSafe (emptyFile 0) bytes 7 := by
  have hstart : ∃ tail rest, (step (.WritePage 1 oneByte) (start Buf.zero 1)).Intact tail rest :=
    ⟨[], [], (intact_start Buf.zero 1).write 1 oneByte⟩
  obtain ⟨tail, rest, hi⟩ : ∃ tail rest, onePage.Intact tail rest := by
    refine Intact.commit hstart 1 fun count hcount => ?_
    obtain rfl := Option.some.inj hcount
    exact ⟨by decide, rfl⟩
  have hclean : onePage.wal.uncommitted = [] := rfl
  have hsalt : onePage.wal.header.salt1 = 1 := rfl
  refine ⟨_, hi.file, (checkpointSafe_iff onePage.wal (emptyFile 0) _ 7 (hi.backed hclean)
    (freshSalts_fileBytes hi.header hi.short (.inl (by rw [hsalt]; decide)))).mpr (.inr ?_)⟩
  intro p hp hle
  rw [onePage_count] at hle
  obtain rfl : p = 1 := by omega
  rw [hi.logical hclean, runningView, onePage_read]
  rfl

def tornFrame : WalFrame := { pageNum := 4, commitSize := 0, data := oneByte }

structure Half (h : History) : Prop where
  intact : ∃ rest, h.Intact [tornFrame] rest
  done : h.done = []
  clean : h.wal.uncommitted = []
  salt1 : h.wal.header.salt1 = 1
  unread : h.wal.activeSnapshots = []

theorem half_crash {h : History} {rest : List UInt8} (hi : h.Intact [] rest) (hdone : h.done = [])
    {f : WalFrame} (hun : h.wal.uncommitted = [tornFrame, f]) (hsalt : h.wal.header.salt1 = 1) :
    Half (step (.Crash 5 WAL_FRAME_SIZE) h) := by
  have hcut : h.wal.uncommitted = [] ∨ WAL_FRAME_SIZE < h.wal.uncommitted.length * WAL_FRAME_SIZE := by
    rw [hun]
    exact .inr (by decide : WAL_FRAME_SIZE < 2 * WAL_FRAME_SIZE)
  obtain ⟨rest', hi', ho⟩ := hi.cut 5 hcut
  have hnone : completes (.Crash 5 WAL_FRAME_SIZE) h = none := if_pos hcut
  rw [hun, Nat.div_self (by decide)] at hi'
  refine ⟨⟨rest', hi'⟩, ?_, ho.clean, by rw [ho.header, hsalt], ho.unread⟩
  simp only [step, hnone, hdone]

-- The file shows the torn frame, the running WAL does not.
theorem Half.lost {h : History} (hh : Half h) : ∃ bytes,
    (step (.Commit 5) (step (.WritePage 3 Buf.zero) h)).wal.Backed bytes ∧ FreshSalts bytes 7 ∧
      ¬(step (.Commit 5) (step (.WritePage 3 Buf.zero) h)).wal.CheckpointSafe (emptyFile 5) bytes 7 := by
  obtain ⟨rest, hi⟩ := hh.intact
  have hwrite := hi.write 3 Buf.zero
  have hun : (step (.WritePage 3 Buf.zero) h).wal.uncommitted =
      [{ pageNum := 3, commitSize := 0, data := Buf.zero }] := by
    show h.wal.uncommitted ++ _ = _
    rw [hh.clean]
    rfl
  have hrunning : (step (.WritePage 3 Buf.zero) h).wal.readPage 4 = none := by
    show (h.wal.writePage 3 Buf.zero).readPage 4 = none
    rw [readPage_writePage, if_neg (by decide), Holds.readPage hi.holds hh.clean, hh.done]
    rfl
  have hindexed : (step (.WritePage 3 Buf.zero) h).wal.Indexed := by
    intro p idx hidx
    have hpages := hi.holds.pages p
    rw [hh.done] at hpages
    exact absurd (hidx.symm.trans hpages) (fun hno => (nomatch hno))
  have hdone : (step (.WritePage 3 Buf.zero) h).done = [] := hh.done
  have hsalt : (step (.WritePage 3 Buf.zero) h).wal.header.salt1 = 1 := hh.salt1
  have hunread : (step (.WritePage 3 Buf.zero) h).wal.activeSnapshots = [] := hh.unread
  generalize step (.WritePage 3 Buf.zero) h = h' at *
  have hne : h'.wal.uncommitted ≠ [] := by rw [hun]; simp
  have hcompletes : completes (.Commit 5) h' = some 5 := if_neg hne
  obtain ⟨-, rest', hshort, hfile, hfits⟩ := hwrite.completed hcompletes
  obtain ⟨w, hopen, ho⟩ := open_fileBytes hwrite.header hfits (.inl hshort)
  have hcommit : (step (.Commit 5) h').wal = h'.wal.commit 5 := rfl
  have hheader : (h'.wal.commit 5).header = h'.wal.header := by rw [Wal.commit, if_neg hne]
  have hsnaps : (h'.wal.commit 5).activeSnapshots = [] := by rw [Wal.commit, if_neg hne]; exact hunread
  have hcount : (h'.wal.commit 5).index.dbPageCount = 5 := by rw [Wal.commit, if_neg hne]
  rw [hcommit] at hfile ⊢
  have hb : (h'.wal.commit 5).Backed _ :=
    ⟨hfile, ⟨w, hopen, ho.header.trans hheader.symm⟩, uncommitted_commit _ _⟩
  have hfresh : FreshSalts (fileBytes h'.wal.header (h'.done.flatten ++
      ([tornFrame] ++ markCommit h'.wal.uncommitted 5)) rest') 7 :=
    freshSalts_fileBytes hwrite.header hshort (.inl (by rw [hsalt]; decide))
  refine ⟨_, hb, hfresh, fun hsafe => ?_⟩
  have hagrees := hsafe.agrees hb hfresh (fun hblocked => hblocked.2 hsnaps) (p := 4) (by decide)
    (by rw [hcount]; decide)
  have hholds := ho.holds
  rw [← List.append_assoc, committedPart_markCommit _ hne (by decide), hdone, hun] at hholds
  have hshown : w.readPage 4 = some oneByte := by
    rw [Holds.readPage hholds ho.clean]
    rfl
  rw [logical, hopen] at hagrees
  dsimp only at hagrees
  rw [hshown, runningView, readPage_commit hindexed, hrunning, Option.some_or, Option.some.injEq] at hagrees
  have hbyte : oneByte.byte 0 = (Buf.zero : PageData).byte 0 := congrArg (fun b => Buf.byte b 0) hagrees
  exact absurd hbyte (by decide)

theorem checkpoint_drops_frame : ∃ bytes, (run step tornCommit (start Buf.zero 1)).wal.Backed bytes ∧
    FreshSalts bytes 7 ∧
      ¬(run step tornCommit (start Buf.zero 1)).wal.CheckpointSafe (emptyFile 5) bytes 7 :=
  (half_crash intact_twoPages rfl rfl rfl).lost

end Example

end History

end Wal

end Kkdb
