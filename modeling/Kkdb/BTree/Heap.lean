import Kkdb.BTree
import Kkdb.Pager.Held
import Kkdb.Pager.Reclaim

namespace Kkdb

open Lib

namespace BTree

abbrev Heap := Nat → Option PageData

theorem mem_of_owned {H : Heap} {allocated : Finset Nat} {content : Nat → PageData} {p : Nat}
    {d : PageData} (hH : ∀ p, H p = if p ∈ allocated then some (content p) else none)
    (hp : H p = some d) : p ∈ allocated ∧ content p = d := by
  rw [hH p] at hp
  split_ifs at hp with hmem
  exact ⟨hmem, Option.some.inj hp⟩

theorem wal_of_held {s s' : Pager} (hheld : s'.held = s.held) (h : s.wal = none) : s'.wal = none := by
  have hwal : s'.wal = s.wal := congrArg Pager.Held.wal hheld
  rw [hwal, h]

theorem mutSafe_of_wal {s : Pager} (h : s.wal = none) (p : Nat) : Pager.MutSafe s p := by
  right
  rw [Pager.readWal, h]
  rfl

theorem setData_self {s : Pager} {p : Nat} (hp : 0 < p) (hle : p ≤ s.pages.length) :
    s.setData p (s.page p).data = s := by
  have hget : s.page p = s.pages.get ⟨p - 1, by omega⟩ := by
    rw [Pager.page, List.getD_eq_getElem _ _ (by omega)]
    rfl
  have hset : s.pages.set (p - 1) (s.page p) = s.pages := by
    rw [hget]
    exact List.set_getElem_self _
  rw [Pager.setData, Pager.setPage]
  exact congrArg (fun pages => { s with pages := pages }) hset

theorem nodup_length_le {ps : List Nat} {total : Nat} (hnodup : ps.Nodup)
    (hrange : ∀ q ∈ ps, 1 ≤ q ∧ q ≤ total) : ps.length ≤ total := by
  have hsub : ps ⊆ List.range' 1 total := by
    intro q hq
    have := hrange q hq
    rw [List.mem_range'_1]
    omega
  have hlen := (List.subperm_of_subset hnodup hsub).length_le
  rw [List.length_range'] at hlen
  exact hlen

section Owned

variable [Lz4Flex]

structure Owns (H : Heap) (total : Nat) (s : Pager) : Prop where
  space : ∃ base σ, Pager.SpaceInv base (s, σ) ∧
    ∀ p, H p = if p ∈ σ.now.allocated then some (s.content 2 p) else none
  wal : s.wal = none
  total : s.header.totalPages = total

variable {H : Heap} {total p : Nat} {s s' : Pager} {d : PageData}

theorem Owns.range (h : Owns H total s) (hp : H p = some d) : 2 < p ∧ p ≤ total := by
  obtain ⟨base, σ, hspace, hH⟩ := h.space
  have hrange := hspace.lists.owned p (mem_of_owned hH hp).1
  rw [← h.total]
  exact hrange

theorem Owns.total_lt (h : Owns H total s) : total < 2 ^ 32 := by
  obtain ⟨base, σ, hspace, -⟩ := h.space
  rw [← h.total]
  exact hspace.sys.count

theorem Owns.small (h : Owns H total s) (hp : H p = some d) : p < 2 ^ 32 := by
  have := h.range hp
  have := h.total_lt
  omega

theorem Owns.length_le {ps : List Nat} (h : Owns H total s) (hnodup : ps.Nodup)
    (howned : ∀ q ∈ ps, ∃ d, H q = some d) : ps.length ≤ total := by
  refine nodup_length_le hnodup fun q hq => ?_
  obtain ⟨d, hd⟩ := howned q hq
  have := h.range hd
  omega

-- Under the invariant a page in use is read as what it holds, and its number fits a link.
structure Serves (I : Pager → Prop) (H : Heap) : Prop where
  read : ∀ p d s, H p = some d → I s → Yields (Pager.getPage p) s fun pg s' => pg.data = d ∧ I s'
  small : ∀ p d s, H p = some d → I s → p < 2 ^ 32

theorem getPage_owns (h : Owns H total s) (hp : H p = some d) :
    Yields (Pager.getPage p) s fun pg s' => pg.data = d ∧ Owns H total s' := by
  obtain ⟨base, σ, hspace, hH⟩ := h.space
  obtain ⟨hmem, hcontent⟩ := mem_of_owned hH hp
  obtain ⟨hlo, hle⟩ := hspace.lists.owned p hmem
  obtain ⟨s', hrun, hload, -, hdata⟩ := Pager.getPage_spec hspace.sys.coherent hlo hle
  have hinv := Pager.getPage_space hspace p
  have hheld := (Pager.getPage_rebuffered p s).kept.held
  rw [left_ok hrun] at hinv hheld
  refine ⟨_, s', hrun, by rw [hdata, hcontent], ⟨base, σ, hinv, ?_⟩, wal_of_held hheld h.wal, ?_⟩
  · rw [hload.content]
    exact hH
  · rw [hload.header]
    exact h.total

theorem getPage_keeps (hO : Owns H total s) (p : Nat) : Owns H total (left (Pager.getPage p) s) := by
  obtain ⟨base, σ, hspace, hH⟩ := hO.space
  have hload := Pager.getPage_reload hspace.sys.coherent p
  refine ⟨⟨base, σ, Pager.getPage_space hspace p, ?_⟩,
    wal_of_held (Pager.getPage_rebuffered p s).kept.held hO.wal, ?_⟩
  · rw [hload.content]
    exact hH
  · rw [hload.header]
    exact hO.total

theorem Owns.serves : Serves (Owns H total) H where
  read _ _ _ hp h := getPage_owns h hp
  small _ _ _ hp h := h.small hp

theorem modifyPage_owns {α : Type} {f : PageData → Res (α × PageData)} (a : α) (d' : PageData)
    (h : Owns H total s) (hp : H p = some d) (hf : f d = .ok (a, d')) :
    Yields (Pager.modifyPage p f) s fun a' s' =>
      a' = a ∧ Owns (Function.update H p (some d')) total s' := by
  obtain ⟨base, σ, hspace, hH⟩ := h.space
  obtain ⟨hmem, hcontent⟩ := mem_of_owned hH hp
  obtain ⟨hlo, hle⟩ := hspace.lists.owned p hmem
  obtain ⟨s', hrun, htouch⟩ := Pager.modifyPage_touched hspace.sys.coherent hlo hle
    (mutSafe_of_wal h.wal p) (show f (s.content 2 p) = .ok (a, d') by rw [hcontent]; exact hf)
  have hinv : Pager.SpaceInv base (s', σ) :=
    hspace.untouched (.of_touched hspace.sys.coherent htouch (hspace.lists.notMem hmem))
  have hheld := (Pager.modifyPage_kept p f s).held
  rw [left_ok hrun] at hheld
  refine ⟨a, s', hrun, rfl, ⟨base, σ, hinv, fun q => ?_⟩, wal_of_held hheld h.wal, ?_⟩
  · rw [htouch.content]
    by_cases hqp : q = p
    · rw [hqp, Function.update_self, Function.update_self, if_pos hmem]
    · rw [Function.update_of_ne hqp, Function.update_of_ne hqp]
      exact hH q
  · rw [htouch.header]
    exact h.total

theorem writePage_owns (f : PageData → PageData) (h : Owns H total s) (hp : H p = some d) :
    Yields (Pager.writePage p f) s fun _ s' => Owns (Function.update H p (some (f d))) total s' :=
  (modifyPage_owns () (f d) h hp rfl).mono fun _ _ hq => hq.2

theorem modifyPage_fails {α : Type} {f : PageData → Res (α × PageData)} {e : Fault}
    (h : Owns H total s) (hp : H p = some d) (hf : f d = .error e) :
    Raises (Pager.modifyPage p f) s e (Owns H total) := by
  obtain ⟨base, σ, hspace, hH⟩ := h.space
  obtain ⟨hmem, hcontent⟩ := mem_of_owned hH hp
  obtain ⟨hlo, hle⟩ := hspace.lists.owned p hmem
  obtain ⟨s₁, pg, hget, hdata, hload, hl, -⟩ := Pager.getPageMut_spec hspace.sys.coherent hlo hle
    (mutSafe_of_wal h.wal p)
  have hf' : f pg.data = .error e := by rw [hdata, hcontent]; exact hf
  have hrun : Pager.modifyPage p f s = .error e ((s₁.snapshotPage p).markDirty p) := by
    simp only [Pager.modifyPage, bind, EStateM.bind, hget, hf']
    rfl
  -- storing the data that is there changes nothing
  have hlen : p ≤ s₁.pages.length := by
    rw [hload.coherent.pagesLength, hload.header]
    exact hle
  have hsame : pg.data = (((s₁.snapshotPage p).markDirty p).page p).data := by
    rw [Pager.data_marked (by omega) hlen, hdata, ← hload.content]
    exact Pager.content_of_loaded hlo (by rw [hload.header]; exact hle) hl
  have hwrite : Pager.writePage p id s = .ok () ((s₁.snapshotPage p).markDirty p) := by
    have hself := setData_self (s := (s₁.snapshotPage p).markDirty p) (by omega : 0 < p)
      (by rw [Pager.markDirty, Pager.setPage, List.length_set, Pager.pages_length_snapshotPage]; exact hlen)
    rw [← hsame] at hself
    simp only [Pager.writePage, Pager.modifyPage, bind, EStateM.bind, hget]
    exact congrArg (EStateM.Result.ok ()) hself
  have hq := (writePage_owns id h hp).ok hwrite
  rw [id, ← hp, Function.update_eq_self] at hq
  exact ⟨_, hrun, hq⟩

theorem allocatePage_owns (h : Owns H total s) (hroom : total < MAX_PAGES) :
    Yields Pager.allocatePage s fun p s' => H p = none ∧ ∃ d total', total ≤ total' ∧
      total' ≤ total + 1 ∧ Owns (Function.update H p (some d)) total' s' := by
  obtain ⟨base, σ, hspace, hH⟩ := h.space
  rcases Pager.allocatePage_space hspace with ⟨p, s', hrun, hnew, hinv, hsame, hle, hle'⟩ | ⟨hfull, -⟩
  · have hheld := (Pager.allocatePage_kept s).held
    rw [left_ok hrun] at hheld
    have hall : (σ.now.allocate p).allocated = Insert.insert p σ.now.allocated := by
      rw [Pager.Ledger.allocate, Pager.Ledger.allocated_rotate]
    refine ⟨p, s', hrun, by rw [hH, if_neg hnew], s'.content 2 p, s'.header.totalPages,
      by rw [← h.total]; exact hle, by rw [← h.total]; exact hle',
      ⟨base, _, hinv, fun q => ?_⟩, wal_of_held hheld h.wal, rfl⟩
    simp only [hall, Finset.mem_insert]
    by_cases hqp : q = p
    · rw [hqp, Function.update_self, if_pos (.inl rfl)]
    · rw [Function.update_of_ne hqp, hH q]
      by_cases hq : q ∈ σ.now.allocated
      · rw [if_pos hq, if_pos (.inr hq), hsame q hq]
      · rw [if_neg hq, if_neg (by rintro (h | h); exacts [hqp h, hq h])]
  · simp only [h.total] at hfull
    omega

theorem freePage_owns (h : Owns H total s) (hp : H p = some d) :
    Yields (Pager.freePage p) s fun _ s' => Owns (Function.update H p none) total s' := by
  obtain ⟨base, σ, hspace, hH⟩ := h.space
  obtain ⟨hmem, hcontent⟩ := mem_of_owned hH hp
  obtain ⟨s', hrun, hinv, hsame, hheader⟩ := Pager.freePage_space hspace hmem (mutSafe_of_wal h.wal p)
  have hheld := Pager.freePage_held p s
  rw [left_ok hrun] at hheld
  refine ⟨(), s', hrun, ⟨base, _, hinv, fun q => ?_⟩, wal_of_held hheld h.wal, by
    rw [hheader]; exact h.total⟩
  have hall : (σ.now.release s.inTransaction p).allocated = σ.now.allocated.erase p := by
    cases s.inTransaction <;> rfl
  simp only [hall, Finset.mem_erase]
  by_cases hqp : q = p
  · rw [hqp, Function.update_self, if_neg (fun hq => hq.1 rfl)]
  · rw [Function.update_of_ne hqp, hH q]
    by_cases hq : q ∈ σ.now.allocated
    · rw [if_pos hq, if_pos ⟨hqp, hq⟩, hsame q hq hqp]
    · rw [if_neg hq, if_neg (fun h => hq h.2)]

end Owned

end BTree

end Kkdb
