import Kkdb.Pager.Content
import Kkdb.Wal.Recovery

namespace Kkdb

open Lib

namespace Pager

theorem chooseOpenable_fits {left right : Res SuperblockV2} {len : Nat} {sb : SuperblockV2}
    {slot : SuperblockSlot} (h : chooseOpenableSuperblockV2 left right len = .ok (sb, slot)) :
    superblockFitsFile sb len = true := by
  unfold chooseOpenableSuperblockV2 at h
  cases left with
  | error e =>
      cases right with
      | error e' => cases h
      | ok b =>
          dsimp only at h
          split_ifs at h with hb
          cases h
          exact hb
  | ok a =>
      cases right with
      | error e' =>
          dsimp only at h
          split_ifs at h with ha
          cases h
          exact ha
      | ok b =>
          dsimp only at h
          by_cases huuid : a.dbUuid.toList = b.dbUuid.toList
          swap
          · rw [if_pos huuid] at h
            cases h
          rw [if_neg (not_not.mpr huuid)] at h
          cases ha : superblockFitsFile a len <;> cases hb : superblockFitsFile b len
          all_goals simp only [ha, hb] at h
          · cases h
          · cases h
            exact hb
          · cases h
            exact ha
          · split_ifs at h
            · cases h
              exact hb
            · cases h
              exact ha

theorem openCowV2_eq {f : DbFile} {s : Pager} (h : openCowV2 f = .ok s) :
    ∃ sb slot, s = fromSuperblock f sb slot ∧ 3 ≤ sb.pageCount ∧
      sb.pageCount * PAGE_SIZE ≤ f.len := by
  unfold openCowV2 at h
  split_ifs at h
  cases hchoose : chooseOpenableSuperblockV2 (readSuperblockV2 f 1) (readSuperblockV2 f 2) f.len with
  | error e => rw [hchoose] at h; cases h
  | ok found =>
      rw [hchoose] at h
      have hfits := chooseOpenable_fits hchoose
      simp only [superblockFitsFile, decide_eq_true_eq] at hfits
      exact ⟨found.1, found.2, (Except.ok.inj h).symm, hfits⟩

-- A file whose newest superblock describes it. The other slot is unreadable or
-- holds an older superblock of the same database.
structure ActiveSlot (f : DbFile) (sb : SuperblockV2) (slot : SuperblockSlot) : Prop where
  magic : (f.slot 1).slice 0 16 = COW_MAGIC
  active : readSuperblockV2 f slot.pageNum = .ok sb
  count : 3 ≤ sb.pageCount
  fits : sb.pageCount * PAGE_SIZE ≤ f.len
  older : ∀ other, readSuperblockV2 f slot.inactive.pageNum = .ok other →
    other.dbUuid.toList = sb.dbUuid.toList ∧ other.generation < sb.generation

theorem chooseOpenable_left {a : SuperblockV2} {right : Res SuperblockV2} {len : Nat}
    (hfits : superblockFitsFile a len = true)
    (holder : ∀ b, right = .ok b → b.dbUuid.toList = a.dbUuid.toList ∧ b.generation < a.generation) :
    chooseOpenableSuperblockV2 (.ok a) right len = .ok (a, .A) := by
  unfold chooseOpenableSuperblockV2
  cases right with
  | error e => exact if_pos hfits
  | ok b =>
      obtain ⟨huuid, hgen⟩ := holder b rfl
      dsimp only
      rw [if_neg (not_not.mpr huuid.symm), hfits]
      cases superblockFitsFile b len with
      | false => rfl
      | true => exact if_neg (by omega)

theorem chooseOpenable_right {b : SuperblockV2} {left : Res SuperblockV2} {len : Nat}
    (hfits : superblockFitsFile b len = true)
    (holder : ∀ a, left = .ok a → a.dbUuid.toList = b.dbUuid.toList ∧ a.generation < b.generation) :
    chooseOpenableSuperblockV2 left (.ok b) len = .ok (b, .B) := by
  unfold chooseOpenableSuperblockV2
  cases left with
  | error e => exact if_pos hfits
  | ok a =>
      obtain ⟨huuid, hgen⟩ := holder a rfl
      dsimp only
      rw [if_neg (not_not.mpr huuid), hfits]
      cases superblockFitsFile a len with
      | false => rfl
      | true => exact if_pos hgen

theorem openCowV2_active {f : DbFile} {sb : SuperblockV2} {slot : SuperblockSlot}
    (h : ActiveSlot f sb slot) : openCowV2 f = .ok (fromSuperblock f sb slot) := by
  have hfits : superblockFitsFile sb f.len = true := by
    simp only [superblockFitsFile, decide_eq_true_eq]
    exact ⟨h.count, h.fits⟩
  have hlen : ¬f.len < PAGE_SIZE * 2 := by
    have hcount := h.count
    have hle := h.fits
    have hp : PAGE_SIZE = 4096 := rfl
    rw [hp] at hle ⊢
    omega
  unfold openCowV2
  rw [if_neg hlen, if_neg (not_not.mpr h.magic)]
  have hactive := h.active
  have holder := h.older
  cases slot with
  | A =>
      simp only [SuperblockSlot.pageNum, SuperblockSlot.inactive] at hactive holder
      rw [hactive, chooseOpenable_left hfits holder]
  | B =>
      simp only [SuperblockSlot.pageNum, SuperblockSlot.inactive] at hactive holder
      rw [hactive, chooseOpenable_right hfits holder]

-- A missing file is created, another is opened when it starts with the magic.
def «open» (dbUuid : Buf 16) (existing : Option DbFile) : Res Pager :=
  match existing with
  | none => createCowV2 dbUuid
  | some f =>
      if f.len < 16 then .error (corrupt "database file is too short")
      else if (f.slot 1).slice 0 16 = COW_MAGIC then openCowV2 f
      else .error (.Err (.RuntimeError "unsupported database format: only format v2 is supported"))

structure Usable (f : DbFile) (slot : SuperblockSlot) (sb : SuperblockV2) : Prop where
  valid : readSuperblockV2 f slot.pageNum = .ok sb
  fits : superblockFitsFile sb f.len = true

structure Newest (f : DbFile) (slot : SuperblockSlot) (sb : SuperblockV2) : Prop where
  usable : Usable f slot sb
  newest : ∀ slot' sb', Usable f slot' sb' → sb'.generation ≤ sb.generation

-- The readable superblocks are of one database.
def SharedUuid (f : DbFile) : Prop :=
  ∀ a b, readSuperblockV2 f 1 = .ok a → readSuperblockV2 f 2 = .ok b → a.dbUuid.toList = b.dbUuid.toList

def OpensNewest (dbUuid : Buf 16) (f : DbFile) : Prop :=
  ∃ slot sb, Newest f slot sb ∧ Pager.open dbUuid (some f) = .ok (fromSuperblock f sb slot)

section Newest

variable {f : DbFile}

theorem Usable.two_le (h : ∃ slot sb, Usable f slot sb) : PAGE_SIZE * 2 ≤ f.len := by
  obtain ⟨slot, sb, husable⟩ := h
  have hfits := husable.fits
  simp only [superblockFitsFile, decide_eq_true_eq] at hfits
  have hp : PAGE_SIZE = 4096 := rfl
  rw [hp] at hfits ⊢
  omega

theorem Usable.unique {slot : SuperblockSlot} {a b : SuperblockV2} (ha : Usable f slot a)
    (hb : Usable f slot b) : a = b :=
  Except.ok.inj (ha.valid.symm.trans hb.valid)

theorem Usable.newest {slot : SuperblockSlot} {sb : SuperblockV2} (h : Usable f slot sb)
    (holder : ∀ other, Usable f slot.inactive other → other.generation ≤ sb.generation) :
    Newest f slot sb := by
  refine ⟨h, fun slot' sb' h' => ?_⟩
  cases slot <;> cases slot'
  case A.A => exact (h.unique h') ▸ Nat.le_refl _
  case A.B => exact holder sb' h'
  case B.A => exact holder sb' h'
  case B.B => exact (h.unique h') ▸ Nat.le_refl _

-- A superblock that does not fit the file does not count, nor does an unreadable one.
theorem chooseOpenable_only_A {a : SuperblockV2} (h : Usable f .A a) (hshared : SharedUuid f)
    (hnone : ∀ b, ¬Usable f .B b) :
    chooseOpenableSuperblockV2 (readSuperblockV2 f 1) (readSuperblockV2 f 2) f.len = .ok (a, .A) := by
  have hread : readSuperblockV2 f 1 = .ok a := h.valid
  rw [hread]
  unfold chooseOpenableSuperblockV2
  cases hb : readSuperblockV2 f 2 with
  | error e => exact if_pos h.fits
  | ok b =>
      have hfits : superblockFitsFile b f.len = false :=
        Bool.eq_false_iff.mpr fun hfits => hnone b ⟨hb, hfits⟩
      dsimp only
      rw [if_neg (not_not.mpr (hshared a b hread hb)), h.fits, hfits]

theorem chooseOpenable_only_B {b : SuperblockV2} (h : Usable f .B b) (hshared : SharedUuid f)
    (hnone : ∀ a, ¬Usable f .A a) :
    chooseOpenableSuperblockV2 (readSuperblockV2 f 1) (readSuperblockV2 f 2) f.len = .ok (b, .B) := by
  have hread : readSuperblockV2 f 2 = .ok b := h.valid
  rw [hread]
  unfold chooseOpenableSuperblockV2
  cases ha : readSuperblockV2 f 1 with
  | error e => exact if_pos h.fits
  | ok a =>
      have hfits : superblockFitsFile a f.len = false :=
        Bool.eq_false_iff.mpr fun hfits => hnone a ⟨ha, hfits⟩
      dsimp only
      rw [if_neg (not_not.mpr (hshared a b ha hread)), h.fits, hfits]

theorem chooseOpenable_both {a b : SuperblockV2} (ha : Usable f .A a) (hb : Usable f .B b)
    (hshared : SharedUuid f) :
    chooseOpenableSuperblockV2 (readSuperblockV2 f 1) (readSuperblockV2 f 2) f.len =
      if a.generation < b.generation then .ok (b, .B) else .ok (a, .A) := by
  have hreadA : readSuperblockV2 f 1 = .ok a := ha.valid
  have hreadB : readSuperblockV2 f 2 = .ok b := hb.valid
  rw [hreadA, hreadB]
  unfold chooseOpenableSuperblockV2
  dsimp only
  rw [if_neg (not_not.mpr (hshared a b hreadA hreadB)), ha.fits, hb.fits]

theorem chooseOpenable_newest (husable : ∃ slot sb, Usable f slot sb) (hshared : SharedUuid f) :
    ∃ slot sb, Newest f slot sb ∧
      chooseOpenableSuperblockV2 (readSuperblockV2 f 1) (readSuperblockV2 f 2) f.len = .ok (sb, slot) := by
  by_cases hA : ∃ a, Usable f .A a <;> by_cases hB : ∃ b, Usable f .B b
  · obtain ⟨a, ha⟩ := hA
    obtain ⟨b, hb⟩ := hB
    rw [chooseOpenable_both ha hb hshared]
    by_cases hlt : a.generation < b.generation
    · exact ⟨.B, b, hb.newest fun a' ha' => ha.unique ha' ▸ Nat.le_of_lt hlt, if_pos hlt⟩
    · exact ⟨.A, a, ha.newest fun b' hb' => hb.unique hb' ▸ Nat.le_of_not_lt hlt, if_neg hlt⟩
  · obtain ⟨a, ha⟩ := hA
    exact ⟨.A, a, ha.newest fun b hb => absurd ⟨b, hb⟩ hB,
      chooseOpenable_only_A ha hshared fun b hb => hB ⟨b, hb⟩⟩
  · obtain ⟨b, hb⟩ := hB
    exact ⟨.B, b, hb.newest fun a ha => absurd ⟨a, ha⟩ hA,
      chooseOpenable_only_B hb hshared fun a ha => hA ⟨a, ha⟩⟩
  · obtain ⟨slot, sb, h⟩ := husable
    cases slot with
    | A => exact absurd ⟨sb, h⟩ hA
    | B => exact absurd ⟨sb, h⟩ hB

-- With a usable superblock the file is opened at the newest one exactly when the first
-- page, which is slot A, still begins with the magic.
theorem opensNewest_iff (dbUuid : Buf 16) (f : DbFile) (husable : ∃ slot sb, Usable f slot sb)
    (hshared : SharedUuid f) : OpensNewest dbUuid f ↔ (f.slot 1).slice 0 16 = COW_MAGIC := by
  have hlen := Usable.two_le husable
  have hp : PAGE_SIZE = 4096 := rfl
  unfold OpensNewest Pager.open
  dsimp only
  rw [if_neg (by rw [hp] at hlen; omega)]
  constructor
  · rintro ⟨slot, sb, -, hopen⟩
    split_ifs at hopen with hmagic
    exact hmagic
  · intro hmagic
    obtain ⟨slot, sb, hnewest, hchoose⟩ := chooseOpenable_newest husable hshared
    refine ⟨slot, sb, hnewest, ?_⟩
    rw [if_pos hmagic, openCowV2, if_neg (Nat.not_lt_of_le hlen), if_neg (not_not.mpr hmagic), hchoose]

end Newest

theorem readSuperblockV2_of_slot {f : DbFile} {p : Nat} (sb : SuperblockV2) (hv : sb.Valid)
    (hslot : f.slot p = sb.serialize) (hlen : p * PAGE_SIZE ≤ f.len) :
    readSuperblockV2 f p = .ok sb.stamp := by
  simp only [readSuperblockV2, DbFile.readPage, if_pos hlen, hslot]
  exact SuperblockV2.deserialize_serialize sb hv

def createdSuperblock (dbUuid : Buf 16) : SuperblockV2 :=
  { SuperblockV2.new dbUuid with pageCount := 3 }

theorem valid_createdSuperblock (dbUuid : Buf 16) {generation : Nat} (h : generation ≤ 1) :
    ({ createdSuperblock dbUuid with generation := generation }).Valid := by
  have hmax : 1 ≤ U64_MAX := by decide
  refine ⟨rfl, rfl, ?_, Nat.le_trans h hmax, ?_, ?_, ?_, ?_⟩
  all_goals simp [createdSuperblock, SuperblockV2.new]

theorem len_createdFile (dbUuid : Buf 16) : (createdFile dbUuid).len = 3 * PAGE_SIZE := by
  simp [createdFile, DbFile.writePage, PAGE_SIZE]

theorem readSuperblockV2_created (dbUuid : Buf 16) : readSuperblockV2 (createdFile dbUuid) 2 =
    .ok ({ createdSuperblock dbUuid with generation := 0 }).stamp :=
  readSuperblockV2_of_slot _ (valid_createdSuperblock dbUuid (Nat.zero_le 1)) rfl
    (by rw [len_createdFile]; decide)

theorem activeSlot_created (dbUuid : Buf 16) :
    ActiveSlot (createdFile dbUuid) (createdSuperblock dbUuid).stamp .A where
  magic := SuperblockV2.slice_field (createdSuperblock dbUuid) 0 0 COW_MAGIC rfl rfl
  active := readSuperblockV2_of_slot (createdSuperblock dbUuid)
    (valid_createdSuperblock dbUuid (Nat.le_refl 1)) rfl (by rw [len_createdFile]; decide)
  count := Nat.le_refl 3
  fits := by
    rw [len_createdFile]
    exact Nat.le_refl (3 * PAGE_SIZE)
  older := fun other h => by
    obtain rfl := Except.ok.inj ((readSuperblockV2_created dbUuid).symm.trans h)
    exact ⟨rfl, Nat.zero_lt_one⟩

theorem createCowV2_eq (dbUuid : Buf 16) : createCowV2 dbUuid =
    .ok (fromSuperblock (createdFile dbUuid) (createdSuperblock dbUuid).stamp .A) :=
  openCowV2_active (activeSlot_created dbUuid)

section Example

theorem opensNewest_created : OpensNewest Buf.zero (createdFile Buf.zero) := by
  have hactive := activeSlot_created Buf.zero
  refine (opensNewest_iff Buf.zero (createdFile Buf.zero) ?_ fun a b ha hb => ?_).mpr hactive.magic
  · exact ⟨.A, _, hactive.active, decide_eq_true ⟨hactive.count, hactive.fits⟩⟩
  · obtain rfl := Except.ok.inj (hactive.active.symm.trans ha)
    exact (hactive.older b hb).1.symm

def lostFirstPage : DbFile := (createdFile Buf.zero).writePage 1 Buf.zero

theorem lostFirstPage_not_opened : (∃ slot sb, Usable lostFirstPage slot sb) ∧ SharedUuid lostFirstPage ∧
    ¬OpensNewest Buf.zero lostFirstPage := by
  have hlen : lostFirstPage.len = 3 * PAGE_SIZE := by decide
  have hzero : (lostFirstPage.slot 1).slice 0 16 ≠ COW_MAGIC := by decide
  have hread : readSuperblockV2 lostFirstPage 1 = .error (corrupt "invalid superblock magic") := by
    rw [readSuperblockV2, DbFile.readPage, if_pos (by rw [hlen]; decide)]
    exact if_pos hzero
  refine ⟨⟨.B, ({ createdSuperblock Buf.zero with generation := 0 }).stamp, ?_, ?_⟩,
    fun a b ha => ?_, ?_⟩
  · exact readSuperblockV2_of_slot _ (valid_createdSuperblock Buf.zero (Nat.zero_le 1)) rfl
      (by rw [hlen]; decide)
  · rw [hlen]
    exact decide_eq_true ⟨Nat.le_refl 3, Nat.le_refl (3 * PAGE_SIZE)⟩
  · rw [hread] at ha
    cases ha
  · rintro ⟨slot, sb, -, hopen⟩
    rw [Pager.open, hlen] at hopen
    rw [if_neg (by decide), if_neg hzero] at hopen
    cases hopen

end Example

theorem enableWal_eq {s s₀ : Pager} {existing : Option (List UInt8)} {nanos : Nat}
    (hfile : s₀.isMemory = false) (hwal : s₀.wal = none) (h : enableWal existing nanos s₀ = .ok () s) :
    ∃ w, s = { s₀ with wal := some w } ∧ w.Indexed ∧ w.uncommitted = [] := by
  unfold enableWal at h
  rw [if_neg (by simp [hfile, hwal])] at h
  cases hw : Wal.openOrCreate existing s₀.cow.activeSuperblock.dbUuid nanos with
  | error e => rw [hw] at h; cases h
  | ok w =>
      rw [hw] at h
      simp only [EStateM.Result.ok.injEq, true_and] at h
      exact ⟨w, h.symm, Wal.indexed_openOrCreate hw⟩

section Opened

variable {f : DbFile} {sb : SuperblockV2} {slot : SuperblockSlot} {p : Nat}

theorem page_fromSuperblock (f : DbFile) (sb : SuperblockV2) (slot : SuperblockSlot) (p : Nat) :
    (fromSuperblock f sb slot).page p = Page.new := by
  simp only [page, fromSuperblock, List.getD_eq_getElem?_getD, List.getElem?_replicate]
  split_ifs <;> rfl

theorem isLoaded_fromSuperblock (f : DbFile) (sb : SuperblockV2) (slot : SuperblockSlot) (p : Nat) :
    (fromSuperblock f sb slot).isLoaded p = false := by
  simp only [isLoaded, fromSuperblock, List.getD_eq_getElem?_getD, List.getElem?_replicate]
  split_ifs <;> rfl

theorem opened_isLoaded {s : Pager} {wal : Option Wal} {max : Nat}
    (h : s = { fromSuperblock f sb slot with wal := wal, maxBufferPages := max }) (p : Nat) :
    s.isLoaded p = false := by
  rw [h]
  exact isLoaded_fromSuperblock f sb slot p

theorem opened_evict (f : DbFile) (sb : SuperblockV2) (slot : SuperblockSlot) (wal : Option Wal)
    (max : Nat) : ({ fromSuperblock f sb slot with wal := wal, maxBufferPages := max }).evictLruIfNeeded =
      { fromSuperblock f sb slot with wal := wal, maxBufferPages := max } := by
  unfold evictLruIfNeeded
  exact if_pos (.inr (Nat.zero_le _))

variable [Lz4Flex]

theorem opened_coherent (lo : Nat) {s : Pager} {wal : Option Wal} {max : Nat}
    (h : s = { fromSuperblock f sb slot with wal := wal, maxBufferPages := max })
    (hread : ∀ p, lo < p → p ≤ sb.pageCount → (s.stored p).isSome) :
    Coherent lo sb.pageCount s := by
  have hpage : ∀ p, s.page p = Page.new := fun p => by
    rw [h]
    exact page_fromSuperblock f sb slot p
  have hqueue : s.lruQueue = [] := by rw [h]; rfl
  refine ⟨?_, ?_, ?_, ?_, ?_, ?_, fun p hlo hle _ => hread p hlo hle, ?_⟩
  · rw [h]
    exact List.length_replicate
  · rw [h]
    exact List.length_replicate
  · rw [h]
    exact Nat.le_refl _
  · rw [hqueue]
    exact fun p hp => (nomatch hp)
  · intro p hb hle
    rw [h] at hle
    exact absurd hle (Nat.not_le_of_lt hb)
  · intro p _ _
    rw [hpage]
    exact ⟨rfl, rfl⟩
  · rw [hqueue]
    exact fun _ p hp => (nomatch hp)

theorem loadPageFromDisk_of_none {s : Pager} (hfile : s.file.isSome = true)
    (h : s.stored p = none) : ∃ e, s.loadPageFromDisk p = .error e := by
  obtain ⟨g, hg⟩ := Option.isSome_iff_exists.mp hfile
  cases hw : s.readWal p with
  | some data => simp [stored, hw] at h
  | none =>
      simp only [stored, hw, hg, Option.bind_some] at h
      unfold loadPageFromDisk
      rw [hg]
      dsimp only
      cases hread : g.readPage p with
      | none => exact ⟨_, rfl⟩
      | some slot =>
          rw [hread, Option.bind_some] at h
          dsimp only
          cases hdec : decodeSlot s.useLz4 p slot with
          | error e => exact ⟨e, rfl⟩
          | ok data => rw [hdec] at h; cases h

theorem stored_of_peek {lo base : Nat} {s : Pager} {data : PageData} (hs : Coherent lo base s)
    (hp : 0 < p) (hl : s.isLoaded p = false) (hfile : s.file.isSome = true)
    (hevict : s.evictLruIfNeeded = s) (h : s.peek p = some data) : s.stored p = some data := by
  have hle : p ≤ s.header.totalPages := by
    by_contra hlt
    rw [peek_of_range (.inr (by omega))] at h
    cases h
  cases hst : s.stored p with
  | some d =>
      rw [peek_of_stored hs hp hle hl hst] at h
      exact h
  | none =>
      obtain ⟨e, hdisk⟩ := loadPageFromDisk_of_none hfile hst
      have hw : s.readWal p = none := by
        cases hw : s.readWal p with
        | none => rfl
        | some d => simp [stored, hw] at hst
      unfold peek getPage at h
      rw [if_neg (by omega), if_neg (by rw [hs.loadedLength]; omega), if_neg (by simp [hl]), hw,
        hevict, hdisk] at h
      cases h

end Opened

end Pager

end Kkdb
