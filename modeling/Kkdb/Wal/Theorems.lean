import Kkdb.Wal

namespace Kkdb

open Lib

theorem lookup_foldl_insert {κ υ : Type} [DecidableEq κ] (kvs : List (κ × υ))
    (m : AList (fun _ : κ => υ)) (k : κ) :
    (kvs.foldl (fun m e => m.insert e.1 e.2) m).lookup k =
      ((kvs.reverse.find? fun e => e.1 == k).map (·.2)).or (m.lookup k) := by
  induction kvs generalizing m with
  | nil => simp
  | cons e kvs ih =>
      rw [List.foldl_cons, ih, List.reverse_cons, List.find?_append]
      cases hfind : kvs.reverse.find? fun e => e.1 == k with
      | some found => simp
      | none =>
          by_cases hk : e.1 = k
          · subst hk
            simp [AList.lookup_insert]
          · simp [hk, AList.lookup_insert_ne (Ne.symm hk)]

theorem map_modify_of_eq {α β : Type} (g : α → β) (f : α → α) (h : ∀ a, g (f a) = g a)
    (l : List α) (i : Nat) : (l.modify i f).map g = l.map g := by
  apply List.ext_getElem?
  intro j
  simp only [List.getElem?_map, List.getElem?_modify]
  cases l[j]? with
  | none => rfl
  | some a =>
      by_cases hij : i = j <;> simp [hij, h]

namespace Wal

variable {w : Wal} {p q : Nat}

def Indexed (w : Wal) : Prop :=
  ∀ p idx, w.index.pageMap.lookup p = some idx → idx < w.committedFrames.length

theorem indexed_create (dbUuid : Buf 16) (nanos : Nat) : (create dbUuid nanos).Indexed := by
  intro p idx h
  simp [create] at h

theorem readPage_writePage (w : Wal) (p q : Nat) (data : PageData) :
    (w.writePage p data).readPage q = if q = p then some data else w.readPage q := by
  simp only [readPage, writePage, List.reverse_append, List.reverse_cons, List.reverse_nil,
    List.nil_append, List.singleton_append]
  by_cases hqp : q = p
  · subst hqp
    rw [List.find?_cons_of_pos (by simp), if_pos rfl]
  · rw [List.find?_cons_of_neg (by simp [Ne.symm hqp]), if_neg hqp]

def newest (frames : List WalFrame) (p : Nat) : Option WalFrame :=
  frames.reverse.find? fun f => f.pageNum == p

theorem newest_markCommit (frames : List WalFrame) (count : Nat) (p : Nat) :
    (newest (markCommit frames count) p).map (·.data) = (newest frames p).map (·.data) := by
  have hmap : (markCommit frames count).map (fun f => (f.pageNum, f.data)) =
      frames.map (fun f => (f.pageNum, f.data)) :=
    map_modify_of_eq (fun f : WalFrame => (f.pageNum, f.data))
      (fun f => { f with commitSize := count }) (fun _ => rfl) frames _
  have hfind : ∀ fs : List WalFrame, (newest fs p).map (·.data) =
      (((fs.map fun f => (f.pageNum, f.data)).reverse.find? fun e => e.1 == p)).map (·.2) := by
    intro fs
    rw [← List.map_reverse, List.find?_map, Option.map_map, newest]
    rfl
  rw [hfind, hfind, hmap]

-- The index entries of new frames behind `base` old ones.
def indexEntries (frames : List WalFrame) (base : Nat) : List (Nat × Nat) :=
  frames.zipIdx.map fun e => (e.1.pageNum, base + e.2)

theorem find_indexEntries (frames : List WalFrame) (base p : Nat) :
    match (indexEntries frames base).reverse.find? fun e => e.1 == p with
    | some e => ∃ i, e.2 = base + i ∧ frames[i]? = newest frames p ∧ (newest frames p).isSome
    | none => newest frames p = none := by
  have hfst : (frames.zipIdx.reverse).map (·.1) = frames.reverse := by
    rw [List.map_reverse, List.zipIdx_map_fst]
  have hnewest : newest frames p = (frames.zipIdx.reverse.find?
      ((fun f : WalFrame => f.pageNum == p) ∘ (·.1))).map (·.1) := by
    rw [newest, ← hfst, List.find?_map]
  rw [indexEntries, ← List.map_reverse, List.find?_map]
  have hpred : ((fun e : Nat × Nat => e.1 == p) ∘
      fun e : WalFrame × Nat => (e.1.pageNum, base + e.2)) =
      ((fun f : WalFrame => f.pageNum == p) ∘ (·.1)) := rfl
  rw [hpred]
  cases hfind : frames.zipIdx.reverse.find? ((fun f : WalFrame => f.pageNum == p) ∘ (·.1)) with
  | none =>
      rw [hfind, Option.map_none] at hnewest
      exact hnewest
  | some e =>
      rw [hfind, Option.map_some] at hnewest
      have hmem := List.mem_reverse.mp (List.mem_of_find?_eq_some hfind)
      refine ⟨e.2, rfl, ?_, by rw [hnewest]; rfl⟩
      rw [hnewest]
      exact List.mem_zipIdx_iff_getElem?.mp hmem

theorem lookup_commit {count : Nat} (h : w.uncommitted ≠ []) (p : Nat) :
    (w.commit count).index.pageMap.lookup p =
      Option.or (((indexEntries (markCommit w.uncommitted count)
        w.committedFrames.length).reverse.find? fun e => e.1 == p).map (·.2))
        (w.index.pageMap.lookup p) := by
  rw [← lookup_foldl_insert, indexEntries, List.foldl_map, commit, if_neg h]

theorem committedFrames_commit {count : Nat} (h : w.uncommitted ≠ []) :
    (w.commit count).committedFrames = w.committedFrames ++ markCommit w.uncommitted count := by
  rw [commit, if_neg h]

theorem uncommitted_commit (w : Wal) (count : Nat) : (w.commit count).uncommitted = [] := by
  unfold commit
  split_ifs with h
  · exact h
  · rfl

theorem readPage_eq (w : Wal) (p : Nat) : w.readPage p =
    ((newest w.uncommitted p).map (·.data)).or
      ((w.index.pageMap.lookup p).bind fun idx => (w.committedFrames[idx]?).map (·.data)) := by
  rw [readPage, newest]
  cases w.uncommitted.reverse.find? fun f => f.pageNum == p <;> rfl

-- A commit moves frames from the buffer to the index; readers see the same pages.
theorem readPage_commit (hw : w.Indexed) (count p : Nat) :
    (w.commit count).readPage p = w.readPage p := by
  by_cases h : w.uncommitted = []
  · rw [commit, if_pos h]
  have hfind := find_indexEntries (markCommit w.uncommitted count) w.committedFrames.length p
  rw [readPage_eq, readPage_eq, uncommitted_commit, lookup_commit h, committedFrames_commit h,
    ← newest_markCommit w.uncommitted count p]
  have hnil : newest [] p = none := rfl
  rw [hnil, Option.map_none, Option.none_or]
  cases he : (indexEntries (markCommit w.uncommitted count)
      w.committedFrames.length).reverse.find? fun e => e.1 == p with
  | some e =>
      rw [he] at hfind
      obtain ⟨i, hi, hget, hsome⟩ := hfind
      obtain ⟨f, hf⟩ := Option.isSome_iff_exists.mp hsome
      simp [hi, List.getElem?_append_right, hget, hf]
  | none =>
      rw [he] at hfind
      simp only [hfind, Option.map_none, Option.none_or]
      cases hidx : w.index.pageMap.lookup p with
      | none => rfl
      | some idx =>
          simp only [Option.bind_some]
          rw [List.getElem?_append_left (hw p idx hidx)]

theorem indexed_commit (hw : w.Indexed) (count : Nat) : (w.commit count).Indexed := by
  by_cases h : w.uncommitted = []
  · rw [commit, if_pos h]
    exact hw
  intro p idx hidx
  have hfind := find_indexEntries (markCommit w.uncommitted count) w.committedFrames.length p
  rw [lookup_commit h p] at hidx
  rw [committedFrames_commit h, List.length_append]
  cases he : (indexEntries (markCommit w.uncommitted count)
      w.committedFrames.length).reverse.find? fun e => e.1 == p with
  | some e =>
      rw [he] at hfind hidx
      obtain ⟨i, hi, hget, hsome⟩ := hfind
      have hlt : i < (markCommit w.uncommitted count).length := by
        rw [← hget] at hsome
        simpa using hsome
      simp only [Option.map_some, Option.some_or, Option.some.injEq] at hidx
      omega
  | none =>
      rw [he] at hidx
      have := hw p idx (by simpa using hidx)
      omega

section Checkpoint

theorem slot_writes (writes : List (Nat × PageData)) (db : DbFile) (p : Nat) (data : PageData)
    (h : ∀ e ∈ writes, e.1 = p → e.2 = data) :
    (writes.foldl (fun f e => DbFile.writePage f e.1 e.2) db).slot p =
      if ∃ e ∈ writes, e.1 = p then data else db.slot p := by
  induction writes generalizing db with
  | nil => simp
  | cons e writes ih =>
      rw [List.foldl_cons, ih _ (fun e he => h e (List.mem_cons_of_mem _ he))]
      by_cases hrest : ∃ e ∈ writes, e.1 = p
      · have hall : ∃ e' ∈ e :: writes, e'.1 = p := by
          obtain ⟨e', he', hp⟩ := hrest
          exact ⟨e', List.mem_cons_of_mem _ he', hp⟩
        rw [if_pos hrest, if_pos hall]
      · by_cases he : e.1 = p
        · rw [if_neg hrest, if_pos ⟨e, List.mem_cons_self, he⟩, ← h e List.mem_cons_self he, ← he]
          simp [DbFile.writePage]
        · have hall : ¬∃ e' ∈ e :: writes, e'.1 = p := by
            rintro ⟨e', he', hp⟩
            rcases List.mem_cons.mp he' with rfl | h'
            · exact he hp
            · exact hrest ⟨e', h', hp⟩
          rw [if_neg hrest, if_neg hall]
          simp [DbFile.writePage, Ne.symm he]

theorem len_writes (writes : List (Nat × PageData)) (db : DbFile) :
    db.len ≤ (writes.foldl (fun f e => DbFile.writePage f e.1 e.2) db).len ∧
      ∀ p data, (p, data) ∈ writes → p * PAGE_SIZE ≤
        (writes.foldl (fun f e => DbFile.writePage f e.1 e.2) db).len := by
  induction writes generalizing db with
  | nil => simp
  | cons e writes ih =>
      obtain ⟨hlen, hall⟩ := ih (db.writePage e.1 e.2)
      have hwrite : db.len ≤ (db.writePage e.1 e.2).len ∧
          e.1 * PAGE_SIZE ≤ (db.writePage e.1 e.2).len := by
        simp only [DbFile.writePage]
        omega
      refine ⟨by rw [List.foldl_cons]; omega, fun p data he => ?_⟩
      rw [List.foldl_cons]
      rcases List.mem_cons.mp he with rfl | h
      · exact Nat.le_trans hwrite.2 hlen
      · exact hall p data h

theorem mem_checkpointWrites {e : Nat × PageData} :
    e ∈ w.checkpointWrites w.committedFrames.length ↔
      ∃ idx f, w.index.pageMap.lookup e.1 = some idx ∧ w.committedFrames[idx]? = some f ∧
        e.2 = f.data := by
  simp only [checkpointWrites, List.mem_filterMap]
  constructor
  · rintro ⟨entry, hmem, hwrite⟩
    split_ifs at hwrite
    obtain ⟨f, hf, rfl⟩ := Option.map_eq_some_iff.mp hwrite
    exact ⟨entry.2, f, AList.mem_lookup_iff.mpr hmem, hf, rfl⟩
  · rintro ⟨idx, f, hidx, hf, hdata⟩
    obtain ⟨hlt, -⟩ := List.getElem?_eq_some_iff.mp hf
    refine ⟨⟨e.1, idx⟩, AList.mem_lookup_iff.mp hidx, ?_⟩
    rw [if_pos hlt, hf, Option.map_some, ← hdata]

theorem readPage_fullCheckpoint {db : DbFile} (nanos : Nat) (hw : w.Indexed)
    (hun : w.uncommitted = []) (hcount : w.index.dbPageCount = 0 ∨ p ≤ w.index.dbPageCount)
    (hdb : w.readPage p = none → p * PAGE_SIZE ≤ db.len) :
    (w.fullCheckpoint db nanos).2.1.readPage p = some ((w.readPage p).getD (db.slot p)) := by
  have hread : w.readPage p =
      (w.index.pageMap.lookup p).bind fun idx => (w.committedFrames[idx]?).map (·.data) := by
    rw [readPage_eq, hun]
    rfl
  have hlen := len_writes (w.checkpointWrites w.committedFrames.length) db
  obtain ⟨db₁, hdb₁⟩ : ∃ db₁, db₁ = (w.checkpointWrites w.committedFrames.length).foldl
    (fun f e => DbFile.writePage f e.1 e.2) db := ⟨_, rfl⟩
  have hslot : db₁.slot p = (w.readPage p).getD (db.slot p) ∧ p * PAGE_SIZE ≤ db₁.len := by
    rw [← hdb₁] at hlen
    cases hidx : w.index.pageMap.lookup p with
    | none =>
        have hnone : w.readPage p = none := by rw [hread, hidx]; rfl
        have hno : ¬∃ e ∈ w.checkpointWrites w.committedFrames.length, e.1 = p := by
          rintro ⟨e, he, rfl⟩
          obtain ⟨idx, f, hidx', -⟩ := mem_checkpointWrites.mp he
          rw [hidx] at hidx'
          cases hidx'
        rw [hdb₁, slot_writes _ db p Buf.zero (fun e he hp => absurd ⟨e, he, hp⟩ hno), if_neg hno,
          hnone, ← hdb₁]
        exact ⟨rfl, Nat.le_trans (hdb hnone) hlen.1⟩
    | some idx =>
        obtain ⟨f, hf⟩ : ∃ f, w.committedFrames[idx]? = some f :=
          ⟨_, List.getElem?_eq_getElem (hw p idx hidx)⟩
        have hmem : (p, f.data) ∈ w.checkpointWrites w.committedFrames.length :=
          mem_checkpointWrites.mpr ⟨idx, f, hidx, hf, rfl⟩
        have hsame : ∀ e ∈ w.checkpointWrites w.committedFrames.length, e.1 = p →
            e.2 = f.data := by
          rintro e he rfl
          obtain ⟨idx', f', hidx', hf', hdata⟩ := mem_checkpointWrites.mp he
          obtain rfl := Option.some.inj (hidx.symm.trans hidx')
          obtain rfl := Option.some.inj (hf.symm.trans hf')
          exact hdata
        rw [hdb₁, slot_writes _ db p _ hsame, if_pos ⟨_, hmem, rfl⟩, hread, hidx, ← hdb₁]
        simp only [Option.bind_some, hf, Option.map_some, Option.getD_some, true_and]
        exact hlen.2 p f.data hmem
  have hfile : (w.fullCheckpoint db nanos).2.1 =
      if 0 < w.index.dbPageCount then db₁.setPages w.index.dbPageCount else db₁ := by
    rw [hdb₁]
    rfl
  rw [hfile, ← hslot.1]
  split_ifs with hpos
  · have hle : p ≤ w.index.dbPageCount := by omega
    have hlen' : (db₁.setPages w.index.dbPageCount).len = w.index.dbPageCount * PAGE_SIZE := rfl
    rw [DbFile.readPage, hlen', if_pos (Nat.mul_le_mul_right PAGE_SIZE hle)]
    simp only [DbFile.setPages, hle, if_true]
  · rw [DbFile.readPage, if_pos hslot.2]

def Blocked (w : Wal) : Prop := w.safeCheckpointBoundary = 0 ∧ w.activeSnapshots ≠ []

instance (w : Wal) : Decidable w.Blocked := inferInstanceAs (Decidable (_ ∧ _))

-- The boundary is either nothing or everything, so a checkpoint is never partial.
theorem safeCheckpointBoundary_cases (w : Wal) :
    w.safeCheckpointBoundary = w.committedFrames.length ∨ w.Blocked := by
  unfold Blocked safeCheckpointBoundary
  cases hmin : (w.activeSnapshots.map (·.visibleFrames)).min? with
  | none => exact .inl rfl
  | some minVisible =>
      have hne : w.activeSnapshots ≠ [] := by
        rintro hnil
        simp [hnil] at hmin
      simp only
      split_ifs
      · exact .inl rfl
      · exact .inr ⟨rfl, hne⟩

theorem checkpoint_blocked (h : w.Blocked) (db : DbFile) (nanos : Nat) :
    w.checkpoint db nanos = (w, db, 0) := if_pos h

theorem checkpoint_unblocked (h : ¬w.Blocked) (db : DbFile) (nanos : Nat) :
    w.checkpoint db nanos = w.fullCheckpoint db nanos := by
  have hboundary := w.safeCheckpointBoundary_cases.resolve_right h
  unfold Blocked at h
  unfold checkpoint
  dsimp only
  rw [if_neg h, if_pos (Nat.le_of_eq hboundary.symm)]

theorem checkpoint_cases (w : Wal) (db : DbFile) (nanos : Nat) :
    w.checkpoint db nanos = (w, db, 0) ∨ w.checkpoint db nanos = w.fullCheckpoint db nanos := by
  by_cases h : w.Blocked
  · exact .inl (checkpoint_blocked h db nanos)
  · exact .inr (checkpoint_unblocked h db nanos)

end Checkpoint

end Wal

end Kkdb
