import Kkdb.Pager.Open
import Kkdb.Pager.Persist
import Kkdb.Pager.Held

namespace Kkdb

open Lib

theorem SuperblockV2.valid_of_deserialize {page : PageData} {sb : SuperblockV2}
    (h : SuperblockV2.deserialize page = .ok sb) : sb.Valid := by
  unfold SuperblockV2.deserialize at h
  split_ifs at h with hmagic hversion hsize hsum
  obtain rfl := Except.ok.inj h
  refine ⟨not_not.mp hversion, ?_, Buf.u32_lt _ _, ?_, Buf.u32_lt _ _, Buf.u32_lt _ _,
    Buf.u32_lt _ _, Buf.u32_lt _ _⟩
  · have hp : PAGE_SIZE = 4096 := rfl
    have hu : pageSizeToU16 = 4096 := rfl
    simp only [u16ToPageSize, hp, ne_eq, not_not] at hsize
    rw [hu]
    split_ifs at hsize
    · cases hsize
    · exact hsize
  · have hlt := leNat_lt (page.slice 24 8)
    rw [Buf.length_slice] at hlt
    exact Nat.le_of_lt_succ hlt

theorem SuperblockV2.Valid.of_identity {sb disk : SuperblockV2} (hid : sb.identity = disk.identity)
    (hdisk : disk.Valid) (hroots : sb.Rooted) {generation pageCount : Nat}
    (hgen : generation ≤ U64_MAX) (hcount : pageCount < 2 ^ 32) :
    ({ sb with generation := generation, pageCount := pageCount }).Valid where
  version := (congrArg Identity.formatVersion hid).trans hdisk.version
  pageSize := (congrArg Identity.pageSize hid).trans hdisk.pageSize
  flags := by rw [show sb.flags = disk.flags from congrArg Identity.flags hid]; exact hdisk.flags
  generation := hgen
  schemaRoot := hroots.schemaRoot
  freeRoot := hroots.freeRoot
  pendingFreeRoot := hroots.pendingFreeRoot
  pageCount := hcount

namespace Pager

theorem pageNum_inactive_ne (slot : SuperblockSlot) : slot.inactive.pageNum ≠ slot.pageNum := by
  cases slot <;> decide

theorem inactive_inactive (slot : SuperblockSlot) : slot.inactive.inactive = slot := by
  cases slot <;> rfl

section Choice

variable {f : DbFile} {slot : SuperblockSlot} {a b : SuperblockV2}

-- Generation `b` in the other slot is preferred to `a` in `slot`; slot A wins a tie.
def Wins (slot : SuperblockSlot) (a b : Nat) : Prop :=
  match slot with
  | .A => a < b
  | .B => a ≤ b

instance (slot : SuperblockSlot) (a b : Nat) : Decidable (Wins slot a b) := by
  cases slot
  · exact inferInstanceAs (Decidable (_ < _))
  · exact inferInstanceAs (Decidable (_ ≤ _))

theorem openCowV2_eq_choice (hmagic : (f.slot 1).slice 0 16 = COW_MAGIC)
    (hlen : PAGE_SIZE * 2 ≤ f.len) (found : SuperblockV2 × SuperblockSlot)
    (h : chooseOpenableSuperblockV2 (readSuperblockV2 f 1) (readSuperblockV2 f 2) f.len = .ok found) :
    openCowV2 f = .ok (fromSuperblock f found.1 found.2) := by
  unfold openCowV2
  rw [if_neg (by omega), if_neg (not_not.mpr hmagic), h]

theorem two_pages_le (h : superblockFitsFile a f.len = true) : PAGE_SIZE * 2 ≤ f.len := by
  simp only [superblockFitsFile, decide_eq_true_eq] at h
  have hp : PAGE_SIZE = 4096 := rfl
  rw [hp] at h ⊢
  omega

theorem openCowV2_pair (hmagic : (f.slot 1).slice 0 16 = COW_MAGIC)
    (ha : readSuperblockV2 f slot.pageNum = .ok a) (hfits : superblockFitsFile a f.len = true)
    (hb : readSuperblockV2 f slot.inactive.pageNum = .ok b)
    (huuid : b.dbUuid.toList = a.dbUuid.toList) :
    openCowV2 f = .ok (if superblockFitsFile b f.len = true ∧ Wins slot a.generation b.generation
      then fromSuperblock f b slot.inactive else fromSuperblock f a slot) := by
  have hlen := two_pages_le hfits
  cases slot with
  | A =>
      simp only [SuperblockSlot.pageNum, SuperblockSlot.inactive] at ha hb ⊢
      cases hfb : superblockFitsFile b f.len with
      | false =>
          rw [if_neg (by simp)]
          refine openCowV2_eq_choice hmagic hlen (a, .A) ?_
          simp only [chooseOpenableSuperblockV2, ha, hb, huuid, hfits, hfb, ne_eq, not_true_eq_false,
            if_false]
      | true =>
          by_cases hw : a.generation < b.generation
          · rw [if_pos ⟨rfl, hw⟩]
            refine openCowV2_eq_choice hmagic hlen (b, .B) ?_
            simp only [chooseOpenableSuperblockV2, ha, hb, huuid, hfits, hfb, ne_eq,
              not_true_eq_false, if_false, if_pos hw]
          · rw [if_neg (fun h => hw h.2)]
            refine openCowV2_eq_choice hmagic hlen (a, .A) ?_
            simp only [chooseOpenableSuperblockV2, ha, hb, huuid, hfits, hfb, ne_eq,
              not_true_eq_false, if_false, if_neg hw]
  | B =>
      simp only [SuperblockSlot.pageNum, SuperblockSlot.inactive] at ha hb ⊢
      cases hfb : superblockFitsFile b f.len with
      | false =>
          rw [if_neg (by simp)]
          refine openCowV2_eq_choice hmagic hlen (a, .B) ?_
          simp only [chooseOpenableSuperblockV2, ha, hb, huuid, hfits, hfb, ne_eq, not_true_eq_false,
            if_false]
      | true =>
          by_cases hw : b.generation < a.generation
          · rw [if_neg (fun h => Nat.not_le_of_lt hw h.2)]
            refine openCowV2_eq_choice hmagic hlen (a, .B) ?_
            simp only [chooseOpenableSuperblockV2, ha, hb, huuid, hfits, hfb, ne_eq,
              not_true_eq_false, if_false, if_pos hw]
          · rw [if_pos ⟨rfl, Nat.le_of_not_lt hw⟩]
            refine openCowV2_eq_choice hmagic hlen (b, .A) ?_
            simp only [chooseOpenableSuperblockV2, ha, hb, huuid, hfits, hfb, ne_eq,
              not_true_eq_false, if_false, if_neg hw]

theorem openCowV2_lone {e : Fault} (hmagic : (f.slot 1).slice 0 16 = COW_MAGIC)
    (ha : readSuperblockV2 f slot.pageNum = .ok a) (hfits : superblockFitsFile a f.len = true)
    (hb : readSuperblockV2 f slot.inactive.pageNum = .error e) :
    openCowV2 f = .ok (fromSuperblock f a slot) := by
  have hlen := two_pages_le hfits
  cases slot with
  | A =>
      simp only [SuperblockSlot.pageNum, SuperblockSlot.inactive] at ha hb
      refine openCowV2_eq_choice hmagic hlen (a, .A) ?_
      simp only [chooseOpenableSuperblockV2, ha, hb, hfits, if_true]
  | B =>
      simp only [SuperblockSlot.pageNum, SuperblockSlot.inactive] at ha hb
      refine openCowV2_eq_choice hmagic hlen (a, .B) ?_
      simp only [chooseOpenableSuperblockV2, ha, hb, hfits, if_true]

end Choice

section Writes

variable [Lz4Flex] {s : Pager} {f : DbFile} {p q : Nat}

def diskRead (useLz4 : Bool) (f : DbFile) (p : Nat) : Option PageData :=
  (f.readPage p).bind fun slot => (decodeSlot useLz4 p slot).toOption

theorem peek_fromSuperblock (f : DbFile) (sb : SuperblockV2) (slot : SuperblockSlot) (p : Nat) :
    (fromSuperblock f sb slot).peek p = if 0 < p ∧ p ≤ sb.pageCount
      then diskRead (sb.flags % 2 = 1) f p else none := by
  have htotal : (fromSuperblock f sb slot).header.totalPages = sb.pageCount := rfl
  split_ifs with hr
  · have hload : (fromSuperblock f sb slot).loadPageFromDisk p =
        (f.readPage p).elim (.error (corrupt ("short read for page " ++ toString p)))
          (decodeSlot (sb.flags % 2 = 1) p) := by
      have hfile : (fromSuperblock f sb slot).file = some f := rfl
      unfold loadPageFromDisk
      rw [hfile]
      dsimp only
      cases f.readPage p with
      | none => rfl
      | some data => rfl
    have hlen : (fromSuperblock f sb slot).loaded.length = sb.pageCount := List.length_replicate
    have hpages : (fromSuperblock f sb slot).pages.length = sb.pageCount := List.length_replicate
    have hevict : (fromSuperblock f sb slot).evictLruIfNeeded = fromSuperblock f sb slot :=
      opened_evict f sb slot none 256
    have hwal : (fromSuperblock f sb slot).readWal p = none := rfl
    unfold peek getPage
    rw [if_neg (by omega), if_neg (by omega), if_neg (by simp [isLoaded_fromSuperblock]), hwal]
    simp only [hevict, hload]
    unfold diskRead
    cases f.readPage p with
    | none => rfl
    | some data =>
        simp only [Option.bind_some, Option.elim_some]
        cases decodeSlot (sb.flags % 2 = 1) p data with
        | error e => rfl
        | ok out =>
            obtain ⟨used, hused⟩ := page_touch_eq (s := (fromSuperblock f sb slot).install p out)
              hr.1 (by simp [install, setData, setPage, hpages, hr.2])
            have hself : ((fromSuperblock f sb slot).install p out).page p =
                { (fromSuperblock f sb slot).page p with data := out } :=
              page_setPage_self _ hr.1 (by rw [hpages]; exact hr.2)
            simp only [hused, hself]
            rfl
  · exact peek_of_range (by rw [htotal]; omega)

-- The pages among `nums` that the loop over the dirty pages writes.
def Written (nums : List Nat) (s : Pager) (p : Nat) : Prop :=
  p ∈ nums ∧ p ≤ s.pages.length ∧ (s.page p).dirty = true

def slotRead (s : Pager) (p : Nat) : Option PageData :=
  (decodeSlot s.useLz4 p (encodeSlot s.useLz4 (s.page p).data)).toOption

structure Wrote (nums : List Nat) (s : Pager) (f g : DbFile) : Prop where
  slot : ∀ q, 0 < q → Written nums s q → g.slot q = encodeSlot s.useLz4 (s.page q).data
  kept : ∀ q, 0 < q → ¬Written nums s q → g.slot q = f.slot q
  len : ∀ n, n ≤ g.len ↔ n ≤ f.len ∨ ∃ q, 0 < q ∧ Written nums s q ∧ n ≤ q * PAGE_SIZE

theorem writeDirtyPage_of_dirty (hw : s.wal = none) (hf : s.file = some f)
    (hle : p ≤ s.pages.length) (hd : (s.page p).dirty = true) :
    s.writeDirtyPage p = { s with
      file := some (f.writePage p (encodeSlot s.useLz4 (s.page p).data))
      pages := s.pages.set (p - 1) { s.page p with dirty := false } } := by
  unfold writeDirtyPage
  rw [if_neg (by omega), if_neg (by simp [hd])]
  simp only [storePage, hw, hf]
  rfl

theorem writeDirtyPage_of_not (h : ¬(p ≤ s.pages.length ∧ (s.page p).dirty = true)) :
    s.writeDirtyPage p = s := by
  unfold writeDirtyPage
  split_ifs with hlen hd
  · rfl
  · rfl
  · exact absurd ⟨by omega, by simpa using hd⟩ h

theorem foldl_writeDirtyPage (nums : List Nat) (hw : s.wal = none) (hf : s.file = some f)
    (hpos : ∀ p ∈ nums, 0 < p) : ∃ g pages, nums.foldl writeDirtyPage s =
      { s with file := some g, pages := pages } ∧ Wrote nums s f g := by
  induction nums generalizing s f with
  | nil =>
      refine ⟨f, s.pages, by rw [← hf]; rfl, fun q _ h => (nomatch h.1), fun q _ _ => rfl, fun n => ?_⟩
      exact ⟨.inl, fun h => h.elim (fun h => h) (fun ⟨q, _, h, _⟩ => (nomatch h.1))⟩
  | cons p nums ih =>
      have hp := hpos p List.mem_cons_self
      have hpos' : ∀ q ∈ nums, 0 < q := fun q hq => hpos q (List.mem_cons_of_mem _ hq)
      rw [List.foldl_cons]
      by_cases hdirty : p ≤ s.pages.length ∧ (s.page p).dirty = true
      · rw [writeDirtyPage_of_dirty hw hf hdirty.1 hdirty.2]
        obtain ⟨g, pages, hrun, hg⟩ := ih (s := { s with
          file := some (f.writePage p (encodeSlot s.useLz4 (s.page p).data))
          pages := s.pages.set (p - 1) { s.page p with dirty := false } }) hw rfl hpos'
        refine ⟨g, pages, hrun, ?_⟩
        generalize hs' : ({ s with
          file := some (f.writePage p (encodeSlot s.useLz4 (s.page p).data))
          pages := s.pages.set (p - 1) { s.page p with dirty := false } } : Pager) = s' at hg
        have hself : s'.page p = { s.page p with dirty := false } := by
          rw [← hs']
          exact page_setPage_self _ hp hdirty.1
        have hne : ∀ q, 0 < q → q ≠ p → s'.page q = s.page q := fun q hq hqp => by
          rw [← hs']
          exact page_setPage_of_ne _ hp hq hqp
        have hlen : s'.pages.length = s.pages.length := by rw [← hs']; exact List.length_set
        have hlz : s'.useLz4 = s.useLz4 := by rw [← hs']
        -- the page just written is clean, so the rest of the loop skips it
        have hstop : ¬Written nums s' p := fun h => by
          rw [Written, hself] at h
          exact Bool.noConfusion h.2.2
        have hrest : ∀ q, 0 < q → q ≠ p → (Written nums s' q ↔ Written (p :: nums) s q) := by
          intro q hq hqp
          rw [Written, Written, hne q hq hqp, hlen, List.mem_cons]
          simp only [hqp, false_or]
        refine ⟨?_, ?_, ?_⟩
        · intro q hq h
          by_cases hqp : q = p
          · subst hqp
            rw [hg.kept q hq hstop]
            exact Function.update_self _ _ _
          · rw [hg.slot q hq ((hrest q hq hqp).mpr h), hlz, hne q hq hqp]
        · intro q hq h
          by_cases hqp : q = p
          · exact absurd ⟨by rw [hqp]; exact List.mem_cons_self, by rw [hqp]; exact hdirty⟩ h
          · rw [hg.kept q hq (fun h' => h ((hrest q hq hqp).mp h'))]
            exact Function.update_of_ne hqp _ _
        · intro n
          rw [hg.len]
          have hmax : n ≤ max f.len (p * PAGE_SIZE) ↔ n ≤ f.len ∨ n ≤ p * PAGE_SIZE := by omega
          show n ≤ max f.len (p * PAGE_SIZE) ∨ _ ↔ _
          rw [hmax, or_assoc]
          refine or_congr Iff.rfl ⟨?_, ?_⟩
          · rintro (h | ⟨q, hq, hw', hn⟩)
            · exact ⟨p, hp, ⟨List.mem_cons_self, hdirty⟩, h⟩
            · have hqp : q ≠ p := fun h => hstop (h ▸ hw')
              exact ⟨q, hq, (hrest q hq hqp).mp hw', hn⟩
          · rintro ⟨q, hq, hw', hn⟩
            by_cases hqp : q = p
            · exact .inl (by rw [← hqp]; exact hn)
            · exact .inr ⟨q, hq, (hrest q hq hqp).mpr hw', hn⟩
      · rw [writeDirtyPage_of_not hdirty]
        obtain ⟨g, pages, hrun, hg⟩ := ih hw hf hpos'
        have hiff : ∀ q, Written nums s q ↔ Written (p :: nums) s q := by
          intro q
          refine ⟨fun h => ⟨List.mem_cons_of_mem _ h.1, h.2⟩, fun h => ⟨?_, h.2⟩⟩
          rcases List.mem_cons.mp h.1 with hqp | hq
          · exact absurd (hqp ▸ h.2) hdirty
          · exact hq
        refine ⟨g, pages, hrun, fun q hq h => hg.slot q hq ((hiff q).mpr h),
          fun q hq h => hg.kept q hq (fun h' => h ((hiff q).mp h')), fun n => ?_⟩
        rw [hg.len]
        simp only [hiff]

instance (nums : List Nat) (s : Pager) (p : Nat) : Decidable (Written nums s p) :=
  inferInstanceAs (Decidable (_ ∧ _ ∧ _))

theorem Wrote.len_le {nums : List Nat} {g : DbFile} (h : Wrote nums s f g) : f.len ≤ g.len :=
  (h.len _).mpr (.inl (Nat.le_refl _))

theorem Wrote.read {nums : List Nat} {g : DbFile} (h : Wrote nums s f g) (hq : 0 < q)
    (hlen : q * PAGE_SIZE ≤ g.len) : diskRead s.useLz4 g q = if Written nums s q then s.slotRead q
      else (decodeSlot s.useLz4 q (f.slot q)).toOption := by
  rw [diskRead, DbFile.readPage, if_pos hlen, Option.bind_some]
  split_ifs with hw
  · rw [h.slot q hq hw]
    rfl
  · rw [h.kept q hq hw]

theorem diskRead_of_le (useLz4 : Bool) (h : q * PAGE_SIZE ≤ f.len) :
    diskRead useLz4 f q = (decodeSlot useLz4 q (f.slot q)).toOption := by
  rw [diskRead, DbFile.readPage, if_pos h, Option.bind_some]

theorem diskRead_superblock (useLz4 : Bool) (f : DbFile) (slot : SuperblockSlot) (data : PageData)
    (hq : 2 < q) (hlen : 2 * PAGE_SIZE ≤ f.len) :
    diskRead useLz4 (f.writePage slot.pageNum data) q = diskRead useLz4 f q := by
  obtain ⟨-, hle⟩ := pageNum_le slot
  have hmul : slot.pageNum * PAGE_SIZE ≤ 2 * PAGE_SIZE := Nat.mul_le_mul_right _ hle
  have hne : q ≠ slot.pageNum := by omega
  simp only [diskRead, DbFile.readPage, DbFile.writePage, Function.update_of_ne hne]
  rw [show max f.len (slot.pageNum * PAGE_SIZE) = f.len by omega]

end Writes

section Slots

variable {f g : DbFile} {sb : SuperblockV2} {slot : SuperblockSlot}

theorem readSuperblockV2_congr {p : Nat} (hslot : g.slot p = f.slot p)
    (hf : p * PAGE_SIZE ≤ f.len) (hg : p * PAGE_SIZE ≤ g.len) :
    readSuperblockV2 g p = readSuperblockV2 f p := by
  simp only [readSuperblockV2, DbFile.readPage, if_pos hf, if_pos hg, hslot]

theorem pageNum_fits (slot : SuperblockSlot) (h : 2 * PAGE_SIZE ≤ f.len) :
    slot.pageNum * PAGE_SIZE ≤ f.len :=
  Nat.le_trans (Nat.mul_le_mul_right _ (pageNum_le slot).2) h

theorem ActiveSlot.two_le (h : ActiveSlot f sb slot) : 2 * PAGE_SIZE ≤ f.len :=
  Nat.le_trans (Nat.mul_le_mul_right _ (Nat.le_of_succ_le h.count)) h.fits

theorem ActiveSlot.grown (h : ActiveSlot f sb slot) (hone : g.slot 1 = f.slot 1)
    (htwo : g.slot 2 = f.slot 2) (hlen : f.len ≤ g.len) : ActiveSlot g sb slot := by
  have hread : ∀ σ : SuperblockSlot, readSuperblockV2 g σ.pageNum = readSuperblockV2 f σ.pageNum := by
    intro σ
    have hf : σ.pageNum * PAGE_SIZE ≤ f.len := pageNum_fits σ h.two_le
    refine readSuperblockV2_congr ?_ hf (Nat.le_trans hf hlen)
    cases σ with
    | A => exact hone
    | B => exact htwo
  exact ⟨by rw [hone]; exact h.magic, by rw [hread]; exact h.active, h.count,
    Nat.le_trans h.fits hlen, fun other ho => h.older other (by rw [← hread]; exact ho)⟩

theorem readSuperblockV2_written (hv : sb.Valid) :
    readSuperblockV2 (f.writePage slot.pageNum sb.serialize) slot.pageNum = .ok sb.stamp :=
  readSuperblockV2_of_slot sb hv (Function.update_self _ _ _) (Nat.le_max_right _ _)

theorem readSuperblockV2_kept (sb : SuperblockV2) (slot : SuperblockSlot)
    (h : 2 * PAGE_SIZE ≤ f.len) :
    readSuperblockV2 (f.writePage slot.inactive.pageNum sb.serialize) slot.pageNum =
      readSuperblockV2 f slot.pageNum := by
  have hf := pageNum_fits slot h
  exact readSuperblockV2_congr (Function.update_of_ne (pageNum_inactive_ne slot).symm _ _) hf
    (Nat.le_trans hf (Nat.le_max_left _ _))

theorem magic_written (sb : SuperblockV2) (h : (f.slot 1).slice 0 16 = COW_MAGIC) :
    ((f.writePage slot.pageNum sb.serialize).slot 1).slice 0 16 = COW_MAGIC := by
  cases slot with
  | A => exact SuperblockV2.slice_field sb 0 0 COW_MAGIC rfl rfl
  | B => exact h

theorem len_superblock (sb : SuperblockV2) (slot : SuperblockSlot) (h : 2 * PAGE_SIZE ≤ f.len) :
    (f.writePage slot.pageNum sb.serialize).len = f.len :=
  Nat.max_eq_left (pageNum_fits slot h)

end Slots

end Pager

end Kkdb
