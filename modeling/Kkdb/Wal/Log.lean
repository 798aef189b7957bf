import Kkdb.Wal.Codec
import Mathlib.Data.List.DropRight

namespace Kkdb

open Lib

theorem lookup_foldl_entries {κ υ : Type} [DecidableEq κ] (m m' : AList (fun _ : κ => υ)) (k : κ) :
    (m.entries.foldl (fun acc e => acc.insert e.1 e.2) m').lookup k = (m.lookup k).or (m'.lookup k) := by
  have hfold := lookup_foldl_insert (m.entries.map fun e => (e.1, e.2)) m' k
  rw [List.foldl_map] at hfold
  rw [hfold]
  congr 1
  cases hfind : (m.entries.map fun e => (e.1, e.2)).reverse.find? fun e => e.1 == k with
  | none =>
      cases hlook : m.lookup k with
      | none => rfl
      | some v =>
          have hmem : (k, v) ∈ (m.entries.map fun e => (e.1, e.2)).reverse :=
            List.mem_reverse.mpr (List.mem_map.mpr ⟨⟨k, v⟩, AList.mem_lookup_iff.mp hlook, rfl⟩)
          have hno := List.find?_eq_none.mp hfind (k, v) hmem
          simp at hno
  | some e =>
      have hmem := List.mem_reverse.mp (List.mem_of_find?_eq_some hfind)
      obtain ⟨entry, hentry, rfl⟩ := List.mem_map.mp hmem
      have hkey : entry.1 = k := by simpa using List.find?_some hfind
      rw [← hkey, AList.mem_lookup_iff.mpr hentry]
      rfl

namespace Wal

def newestIdx (frames : List WalFrame) (p : Nat) : Option Nat :=
  ((indexEntries frames 0).reverse.find? fun e => e.1 == p).map (·.2)

theorem indexEntries_append (frames frames' : List WalFrame) (base : Nat) :
    indexEntries (frames ++ frames') base =
      indexEntries frames base ++ indexEntries frames' (base + frames.length) := by
  simp only [indexEntries, List.zipIdx_append, List.map_append]
  congr 1
  rw [Nat.zero_add, List.zipIdx_eq_map_add, List.map_map]
  refine List.map_congr_left fun e _ => ?_
  simp only [Function.comp_apply, Nat.add_assoc]

theorem newestIdx_append (frames frames' : List WalFrame) (p : Nat) :
    newestIdx (frames ++ frames') p =
      (((indexEntries frames' frames.length).reverse.find? fun e => e.1 == p).map (·.2)).or
        (newestIdx frames p) := by
  rw [newestIdx, indexEntries_append, List.reverse_append, List.find?_append, Nat.zero_add, newestIdx]
  cases (indexEntries frames' frames.length).reverse.find? fun e => e.1 == p <;> simp

theorem newestIdx_snoc (frames : List WalFrame) (f : WalFrame) (p : Nat) :
    newestIdx (frames ++ [f]) p = if p = f.pageNum then some frames.length else newestIdx frames p := by
  rw [newestIdx_append]
  by_cases hp : p = f.pageNum
  · simp [indexEntries, hp]
  · simp [indexEntries, hp, Ne.symm hp]

def lastCount (frames : List WalFrame) : Nat := (frames.getLast?.map (·.commitSize)).getD 0

-- The tables of the WAL are those of the frames.
structure Holds (w : Wal) (frames : List WalFrame) : Prop where
  committed : w.committedFrames = frames
  pages : ∀ p, w.index.pageMap.lookup p = newestIdx frames p
  count : w.index.dbPageCount = lastCount frames

theorem markCommit_concat (frames : List WalFrame) (f : WalFrame) (count : Nat) :
    markCommit (frames ++ [f]) count = frames ++ [{ f with commitSize := count }] := by
  rw [markCommit, List.modify_eq_take_cons_drop (by simp)]
  simp

variable {frames : List WalFrame}

theorem lastCount_markCommit {new : List WalFrame} (hnew : new ≠ []) (count : Nat) :
    lastCount (frames ++ markCommit new count) = count := by
  obtain ⟨init, f, rfl⟩ := List.eq_nil_or_concat new |>.resolve_left hnew
  rw [List.concat_eq_append, markCommit_concat, ← List.append_assoc]
  simp [lastCount]

theorem Holds.commit {w : Wal} (h : w.Holds frames) (hne : w.uncommitted ≠ []) (count : Nat) :
    (w.commit count).Holds (frames ++ markCommit w.uncommitted count) where
  committed := by rw [committedFrames_commit hne, h.committed]
  pages := by
    intro p
    rw [lookup_commit hne, newestIdx_append, h.pages, h.committed]
  count := by
    rw [lastCount_markCommit hne, Wal.commit, if_neg hne]

def committedPart (frames : List WalFrame) : List WalFrame :=
  frames.rdropWhile fun f => f.commitSize = 0

-- What the scan knows after it has read the frames.
structure Scan.Of (sc : Scan) (read : List WalFrame) : Prop where
  frames : sc.frames = read
  frameIdx : sc.frameIdx = read.length
  committed : sc.index.committedFrames = (committedPart read).length
  count : sc.index.dbPageCount = lastCount (committedPart read)
  pages : ∀ p, sc.index.pageMap.lookup p = newestIdx (committedPart read) p
  pending : ∀ p, (sc.pending.lookup p).or (newestIdx (committedPart read) p) = newestIdx read p

theorem Scan.Of.push {sc : Scan} (h : sc.Of frames) (f : WalFrame) : (sc.push f).Of (frames ++ [f]) := by
  have hnewest : ∀ p, ((sc.pending.insert f.pageNum sc.frames.length).lookup p).or
      (newestIdx (committedPart frames) p) = newestIdx (frames ++ [f]) p := by
    intro p
    rw [newestIdx_snoc]
    by_cases hp : p = f.pageNum
    · rw [hp, AList.lookup_insert, if_pos rfl, h.frames]
      rfl
    · rw [AList.lookup_insert_ne hp, if_neg hp]
      exact h.pending p
  have hidx : sc.frameIdx + 1 = (frames ++ [f]).length := by
    rw [h.frameIdx, List.length_append, List.length_singleton]
  unfold Scan.push
  dsimp only
  by_cases hcommit : 0 < f.commitSize
  · have hpart : committedPart (frames ++ [f]) = frames ++ [f] :=
      List.rdropWhile_concat_neg _ _ _ (by simp; omega)
    rw [if_pos hcommit]
    refine ⟨by rw [h.frames], hidx, by rw [hpart, h.frames],
      ?_, fun p => ?_, fun p => ?_⟩
    · rw [hpart]
      simp [lastCount]
    · rw [hpart, lookup_foldl_entries, h.pages]
      exact hnewest p
    · rw [hpart]
      rfl
  · have hpart : committedPart (frames ++ [f]) = committedPart frames :=
      List.rdropWhile_concat_pos _ _ _ (by simp; omega)
    rw [if_neg hcommit]
    refine ⟨by rw [h.frames], hidx, ?_, ?_, fun p => ?_,
      fun p => ?_⟩
    · rw [hpart]
      exact h.committed
    · rw [hpart]
      exact h.count
    · rw [hpart]
      exact h.pages p
    · rw [hpart]
      exact hnewest p

theorem Scan.Of.foldl {sc : Scan} (h : sc.Of frames) (new : List WalFrame) :
    (new.foldl Scan.push sc).Of (frames ++ new) := by
  induction new generalizing sc frames with
  | nil => rw [List.append_nil]; exact h
  | cons f new ih =>
      have hrest := ih (h.push f)
      rwa [List.append_assoc] at hrest

theorem Scan.of_start : ({ index := {}, frames := [], pending := ∅, frameIdx := 0 } : Scan).Of [] :=
  ⟨rfl, rfl, rfl, rfl, fun _ => rfl, fun _ => rfl⟩

def encode (salt1 salt2 : Nat) (frames : List WalFrame) : List UInt8 :=
  frames.flatMap fun f => f.serialize salt1 salt2

theorem length_encode (salt1 salt2 : Nat) (frames : List WalFrame) :
    (encode salt1 salt2 frames).length = frames.length * WAL_FRAME_SIZE := by
  induction frames with
  | nil => simp [encode]
  | cons f frames ih =>
      rw [encode, List.flatMap_cons, List.length_append, ← encode, ih, WalFrame.length_serialize,
        List.length_cons, Nat.succ_mul, Nat.add_comm]

-- No further frame can be read from the bytes.
def Stops (salt1 salt2 : Nat) (bytes : List UInt8) : Prop :=
  bytes.length < WAL_FRAME_SIZE ∨
    ∃ e, WalFrame.deserialize (bytes.take WAL_FRAME_SIZE) salt1 salt2 = .error e

theorem scanFrames_encode {salt1 salt2 : Nat} (h₁ : salt1 < 2 ^ 32) (h₂ : salt2 < 2 ^ 32)
    (hfits : ∀ f ∈ frames, f.Fits) {rest : List UInt8}
    (hstop : Stops salt1 salt2 rest) {fuel : Nat} (hfuel : frames.length < fuel) (sc : Scan) :
    scanFrames salt1 salt2 fuel (encode salt1 salt2 frames ++ rest) sc = frames.foldl Scan.push sc := by
  induction frames generalizing fuel sc with
  | nil =>
      obtain ⟨fuel, rfl⟩ := Nat.exists_eq_succ_of_ne_zero (Nat.ne_of_gt hfuel)
      unfold scanFrames
      rcases hstop with hshort | ⟨e, he⟩
      · exact if_pos hshort
      · split_ifs with hlen
        · rfl
        · simp only [encode, List.flatMap_nil, List.nil_append, he]
          rfl
  | cons f frames ih =>
      obtain ⟨fuel, rfl⟩ := Nat.exists_eq_succ_of_ne_zero
          (Nat.ne_of_gt (Nat.lt_of_le_of_lt (Nat.zero_le _) hfuel))
      have hbytes : encode salt1 salt2 (f :: frames) ++ rest =
          f.serialize salt1 salt2 ++ (encode salt1 salt2 frames ++ rest) := by
        rw [encode, List.flatMap_cons, List.append_assoc, ← encode]
      unfold scanFrames
      rw [hbytes, List.take_left' (f.length_serialize salt1 salt2),
        List.drop_left' (f.length_serialize salt1 salt2),
        WalFrame.deserialize_serialize (hfits f List.mem_cons_self) h₁ h₂, if_neg (by simp)]
      exact ih (fun g hg => hfits g (List.mem_cons_of_mem _ hg)) (by simpa using hfuel) (sc.push f)

-- The file of a WAL: its header, whole frames, and bytes that are no further frame.
def fileBytes (h : WalHeader) (frames : List WalFrame) (rest : List UInt8) : List UInt8 :=
  h.serialize ++ (encode h.salt1 h.salt2 frames ++ rest)

theorem length_fileBytes (h : WalHeader) (frames : List WalFrame) (rest : List UInt8) :
    (fileBytes h frames rest).length =
      WAL_HEADER_SIZE + (frames.length * WAL_FRAME_SIZE + rest.length) := by
  rw [fileBytes, List.length_append, List.length_append, WalHeader.length_serialize, length_encode]

-- The WAL that `open` rebuilds from such a file.
structure Opened (h : WalHeader) (frames : List WalFrame) (rest : List UInt8) (w : Wal) : Prop where
  file : w.file = some (fileBytes h frames rest)
  header : w.header = h
  clean : w.uncommitted = []
  unread : w.activeSnapshots = []
  total : w.index.totalFrames = frames.length
  holds : w.Holds (committedPart frames)

theorem open_fileBytes {h : WalHeader} (hv : h.Valid)
    (hfits : ∀ f ∈ frames, f.Fits) {rest : List UInt8} (hstop : Stops h.salt1 h.salt2 rest) :
    ∃ w, Wal.open (fileBytes h frames rest) = .ok w ∧ Opened h frames rest w := by
  have hlen := length_fileBytes h frames rest
  have hfuel : frames.length < (fileBytes h frames rest).length := by
    have hmul : frames.length ≤ frames.length * WAL_FRAME_SIZE :=
      Nat.le_mul_of_pos_right _ (by decide)
    have hpos : 0 < WAL_HEADER_SIZE := by decide
    omega
  have htake : (fileBytes h frames rest).take WAL_HEADER_SIZE = h.serialize :=
    List.take_left' h.length_serialize
  have hdrop : (fileBytes h frames rest).drop WAL_HEADER_SIZE =
      encode h.salt1 h.salt2 frames ++ rest := List.drop_left' h.length_serialize
  have hscan := scanFrames_encode hv.salt1 hv.salt2 hfits hstop hfuel
    { index := {}, frames := [], pending := ∅, frameIdx := 0 }
  have hof := Scan.of_start.foldl frames
  rw [← hscan, List.nil_append, ← hdrop] at hof
  unfold Wal.open
  rw [if_neg (by omega), htake, WalHeader.deserialize_serialize hv]
  refine ⟨_, rfl, rfl, rfl, rfl, rfl, hof.frameIdx, ?_, hof.pages, hof.count⟩
  dsimp only
  rw [hof.frames, hof.committed]
  exact List.prefix_iff_eq_take.mp (List.rdropWhile_prefix _ _) |>.symm

theorem committedPart_append {tail : List WalFrame} (h : ∀ f ∈ tail, f.commitSize = 0) :
    committedPart (frames ++ tail) = committedPart frames := by
  induction tail using List.reverseRecOn with
  | nil => rw [List.append_nil]
  | append_singleton tail f ih =>
      rw [← List.append_assoc, committedPart,
        List.rdropWhile_concat_pos _ _ _ (by simpa using h f (by simp))]
      exact ih fun g hg => h g (List.mem_append_left _ hg)

theorem committedPart_markCommit (frames : List WalFrame) {new : List WalFrame} (hnew : new ≠ [])
    {count : Nat} (hcount : 0 < count) :
    committedPart (frames ++ markCommit new count) = frames ++ markCommit new count := by
  obtain ⟨init, f, rfl⟩ := (List.eq_nil_or_concat new).resolve_left hnew
  rw [List.concat_eq_append, markCommit_concat, ← List.append_assoc, committedPart,
    List.rdropWhile_concat_neg _ _ _ (by simpa using Nat.ne_of_gt hcount)]

theorem length_markCommit (frames : List WalFrame) (count : Nat) :
    (markCommit frames count).length = frames.length := by
  rw [markCommit, List.length_modify]

theorem mem_markCommit {count : Nat} {f : WalFrame} (hf : f ∈ markCommit frames count) :
    f ∈ frames ∨ ∃ g ∈ frames, f = { g with commitSize := count } := by
  rcases List.eq_nil_or_concat frames with rfl | ⟨init, g, rfl⟩
  · cases hf
  · rw [List.concat_eq_append] at hf ⊢
    rw [markCommit_concat] at hf
    rcases List.mem_append.mp hf with hinit | hlast
    · exact .inl (List.mem_append_left _ hinit)
    · exact .inr ⟨g, by simp, List.mem_singleton.mp hlast⟩

theorem fits_markCommit (h : ∀ f ∈ frames, f.Fits) {count : Nat}
    (hcount : count < 2 ^ 32) : ∀ f ∈ markCommit frames count, f.Fits := by
  intro f hf
  rcases mem_markCommit hf with hmem | ⟨g, hmem, rfl⟩
  · exact h f hmem
  · exact ⟨(h g hmem).pageNum, hcount⟩

theorem take_markCommit {count j : Nat} (hj : j < frames.length) :
    (markCommit frames count).take j = frames.take j := by
  obtain ⟨init, f, rfl⟩ := (List.eq_nil_or_concat frames).resolve_left (by rintro rfl; simp at hj)
  rw [List.concat_eq_append] at hj ⊢
  have hle : j ≤ init.length := by
    rw [List.length_append, List.length_singleton] at hj
    omega
  rw [markCommit_concat, List.take_append_of_le_length hle, List.take_append_of_le_length hle]

theorem encode_append (salt1 salt2 : Nat) (frames frames' : List WalFrame) :
    encode salt1 salt2 (frames ++ frames') = encode salt1 salt2 frames ++ encode salt1 salt2 frames' :=
  List.flatMap_append

theorem take_encode (salt1 salt2 : Nat) (frames : List WalFrame) (written : Nat) :
    ∃ part, part.length < WAL_FRAME_SIZE ∧ (encode salt1 salt2 frames).take written =
      encode salt1 salt2 (frames.take (written / WAL_FRAME_SIZE)) ++ part := by
  have hpos : 0 < WAL_FRAME_SIZE := by decide
  generalize hj : written / WAL_FRAME_SIZE = j
  have hsplit := encode_append salt1 salt2 (frames.take j) (frames.drop j)
  rw [List.take_append_drop] at hsplit
  have hlen := length_encode salt1 salt2 (frames.take j)
  have hdiv := Nat.div_add_mod written WAL_FRAME_SIZE
  have hmod := Nat.mod_lt written hpos
  rw [hj, Nat.mul_comm] at hdiv
  have hle : (frames.take j).length * WAL_FRAME_SIZE ≤ written := by
    have : (frames.take j).length ≤ j := List.length_take_le _ _
    have := Nat.mul_le_mul_right WAL_FRAME_SIZE this
    omega
  refine ⟨(encode salt1 salt2 (frames.drop j)).take (written - (frames.take j).length * WAL_FRAME_SIZE),
    ?_, ?_⟩
  · by_cases hall : j ≤ frames.length
    · rw [List.length_take, List.length_take_of_le hall]
      omega
    · rw [List.drop_eq_nil_of_le (by omega)]
      simpa [encode] using hpos
  · rw [hsplit, List.take_append, hlen, List.take_of_length_le (by omega)]

theorem writeAt_append (front back data : List UInt8) :
    writeAt (front ++ back) front.length data = front ++ (data ++ back.drop data.length) := by
  have hpad : front.length - (front ++ back).length = 0 := by simp
  rw [writeAt, hpad, List.replicate_zero, List.append_nil, List.take_left' rfl, List.append_assoc,
    ← List.drop_drop, List.drop_left' rfl]

end Wal

end Kkdb
