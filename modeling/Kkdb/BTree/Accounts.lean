import Kkdb.BTree.Heap

namespace Kkdb

open Lib

namespace Pager

-- The page stays in the buffer: it was appended by this process, or it waits to be written.
def Steady (base : Nat) (s : Pager) (p : Nat) : Prop := base < p ∨ (s.page p).dirty = true

def KeepsSteady (base : Nat) (s s' : Pager) : Prop := ∀ p, 0 < p → Steady base s p → Steady base s' p

theorem KeepsSteady.refl (base : Nat) (s : Pager) : KeepsSteady base s s := fun _ _ h => h

theorem KeepsSteady.trans {base : Nat} {s s' s'' : Pager} (h : KeepsSteady base s s')
    (h' : KeepsSteady base s' s'') :
    KeepsSteady base s s'' := fun p hp hst => h' p hp (h p hp hst)

theorem Ledger.lists_release (b : Bool) (p : Nat) (l : Ledger) : (l.release b p).lists.Perm (p :: l.lists) := by
  cases b with
  | true =>
      show (l.free ++ (l.pending ++ (l.freed ++ [p]))).Perm (p :: (l.free ++ (l.pending ++ l.freed)))
      rw [← List.append_assoc, ← List.append_assoc, ← List.append_assoc]
      exact List.perm_append_singleton _ _
  | false => exact List.perm_middle

section Steady

variable [Lz4Flex] {lo base p : Nat} {s s' : Pager} {σ : Space}

theorem Steady.safe (h : Steady base s p) (hs : Coherent lo base s) (hp : 0 < p)
    (hle : p ≤ s.header.totalPages) :
    MutSafe s p := by
  rcases h with happended | hdirty
  · exact .inl (hs.appended p happended hle)
  · exact MutStable.safe (.inl hdirty) hs hp

theorem Edit.keeps (h : Edit lo base s s') (hs : Coherent lo base s) : KeepsSteady base s s' := by
  intro p hp hst
  refine hst.imp_right fun hdirty => ?_
  cases h with
  | reload h =>
      rw [h.dirty p hp]
      exact hdirty
  | @mutate q data hlo hle hl =>
      have hlen : q ≤ s.pages.length := by rw [hs.pagesLength]; exact hle
      by_cases hpq : p = q
      · rw [hpq, page_mutate_self data (by omega) hlen]
        rfl
      · rw [page_mutate_of_ne data (by omega) hlen hp hpq]
        exact hdirty
  | grow =>
      rw [page_grow]
      exact hdirty
  | cow c _ => exact hdirty

theorem Edits.keeps (h : Edits lo base s s') (hs : Coherent lo base s) : KeepsSteady base s s' := by
  induction h with
  | refl => exact KeepsSteady.refl base s
  | tail hrun hstep ih => exact ih.trans (hstep.keeps (Edits.coherent hrun hs))

theorem allocatePage_keeps (h : SpaceInv base (s, σ)) (hrun : allocatePage s = .ok p s') :
    Steady base s' p ∧ KeepsSteady base s s' := by
  have heq := allocatePage_eq s
  have hrot := rotateFree_space h
  have hkeeps := (rotateFree_edits 2 base s).keeps h.sys.coherent
  rw [hrun] at heq
  split_ifs at heq with hmax hfree
  · have hne : σ.now.rotate.free ≠ [] := fun hnil => hfree (hrot.lists.free.root_eq_zero_iff.mpr hnil)
    obtain ⟨q, rest, hlist⟩ := List.exists_cons_of_ne_nil hne
    have hlinked := hrot.lists.free
    simp only [hlist] at hlinked
    obtain ⟨hq, -, -⟩ := hlinked
    have hmem : q ∈ σ.now.rotate.lists := Ledger.mem_lists.mpr (.inl (by rw [hlist]; exact List.mem_cons_self))
    obtain ⟨hlo, hle⟩ := hrot.lists.range q hmem
    rw [hq] at heq
    obtain ⟨s₁, hget, hload, hl, -⟩ := getPage_spec hrot.sys.coherent hlo hle
    obtain ⟨s₂, hwrite, hw⟩ := writePage_rewired (t := s₁.setFreeRoot ((s₁.page q).data.u32 0)) (fun _ => Buf.zero)
      hload.coherent rfl rfl hlo (by rw [hload.header]; exact hle) hl
    have hpop : popFree q s.rotateFree = .ok q s₂ := by
      rw [popFree, bind_ok hget, modify_bind, bind_ok hwrite]
      rfl
    rw [hpop] at heq
    obtain ⟨rfl, rfl⟩ := EStateM.Result.ok.inj heq
    have hed : Edits 2 base s.rotateFree s' := (Relation.ReflTransGen.single (.reload hload)).trans hw.edits
    exact ⟨.inr hw.dirty, hkeeps.trans (Edits.keeps hed hrot.sys.coherent)⟩
  · obtain ⟨rfl, rfl⟩ := EStateM.Result.ok.inj heq
    have hbase : base ≤ s.rotateFree.header.totalPages := hrot.sys.coherent.base_le
    exact ⟨.inl (show base < s.rotateFree.header.totalPages + 1 by omega),
      hkeeps.trans ((Edit.grow : Edit 2 base _ _).keeps hrot.sys.coherent)⟩

end Steady

end Pager

namespace BTree

open Pager (Steady KeepsSteady MutSafe)

section Accounts

variable [Lz4Flex]

-- The pager between two calls on pages, with or without a WAL: the heap is what the ledger has handed out.
structure Accounts (base : Nat) (σ : Pager.Space) (H : Heap) (s : Pager) : Prop where
  space : Pager.SpaceInv base (s, σ)
  heap : ∀ p, H p = if p ∈ σ.now.allocated then some (s.content 2 p) else none

variable {base p : Nat} {σ : Pager.Space} {H : Heap} {s s' : Pager} {d : PageData}

theorem Accounts.owned (h : Accounts base σ H s) (hp : H p = some d) :
    p ∈ σ.now.allocated ∧ s.content 2 p = d := mem_of_owned h.heap hp

theorem Accounts.range (h : Accounts base σ H s) (hp : H p = some d) : 2 < p ∧ p ≤ s.header.totalPages :=
  h.space.lists.owned p (h.owned hp).1

theorem Accounts.small (h : Accounts base σ H s) (hp : H p = some d) : p < 2 ^ 32 := by
  have hle := (h.range hp).2
  have hcount : s.header.totalPages < 2 ^ 32 := h.space.sys.count
  omega

theorem Accounts.owns_iff (h : Accounts base σ H s) (p : Nat) : p ∈ σ.now.allocated ↔ H p ≠ none := by
  rw [h.heap p]
  by_cases hp : p ∈ σ.now.allocated <;> simp [hp]

theorem Accounts.length_le {ps : List Nat} (h : Accounts base σ H s) (hnodup : ps.Nodup)
    (howned : ∀ q ∈ ps, ∃ d, H q = some d) : ps.length ≤ s.header.totalPages := by
  refine nodup_length_le hnodup fun q hq => ?_
  obtain ⟨d, hd⟩ := howned q hq
  have := h.range hd
  omega

-- The pages in use of a pager, with what they hold.
def heapOf (σ : Pager.Space) (s : Pager) : Heap := fun p =>
  if p ∈ σ.now.allocated then some (s.content 2 p) else none

theorem accounts_heapOf (h : Pager.SpaceInv base (s, σ)) : Accounts base σ (heapOf σ s) s := ⟨h, fun _ => rfl⟩

theorem Accounts.heap_eq (h : Accounts base σ H s) : H = heapOf σ s := funext h.heap

theorem getPage_accounts (h : Accounts base σ H s) (hp : H p = some d) :
    Yields (Pager.getPage p) s fun pg s' => pg.data = d ∧ Accounts base σ H s' ∧ s'.isLoaded p = true ∧
      KeepsSteady base s s' ∧ s'.header = s.header := by
  obtain ⟨hmem, hcontent⟩ := h.owned hp
  obtain ⟨hlo, hle⟩ := h.range hp
  obtain ⟨s', hrun, hload, hl, hdata⟩ := Pager.getPage_spec h.space.sys.coherent hlo hle
  have hinv := Pager.getPage_space h.space p
  rw [left_ok hrun] at hinv
  refine ⟨_, s', hrun, by rw [hdata, hcontent], ⟨hinv, fun q => ?_⟩, hl,
    (Pager.Edit.reload hload).keeps h.space.sys.coherent, hload.header⟩
  rw [hload.content]
  exact h.heap q

theorem Accounts.serves : Serves (Accounts base σ H) H where
  read _ _ _ hp h := (getPage_accounts h hp).mono fun _ _ hq => ⟨hq.1, hq.2.1⟩
  small _ _ _ hp h := h.small hp

theorem modifyPage_accounts {α : Type} {f : PageData → Res (α × PageData)} (a : α) (d' : PageData)
    (h : Accounts base σ H s) (hp : H p = some d) (hsafe : MutSafe s p) (hf : f d = .ok (a, d')) :
    Yields (Pager.modifyPage p f) s fun a' s' => a' = a ∧
      Accounts base σ (Function.update H p (some d')) s' ∧ Steady base s' p ∧ KeepsSteady base s s' ∧
      s'.header = s.header := by
  obtain ⟨hmem, hcontent⟩ := h.owned hp
  obtain ⟨hlo, hle⟩ := h.range hp
  obtain ⟨s', hrun, htouch⟩ := Pager.modifyPage_touched h.space.sys.coherent hlo hle hsafe
    (show f (s.content 2 p) = .ok (a, d') by rw [hcontent]; exact hf)
  have hinv : Pager.SpaceInv base (s', σ) :=
    h.space.untouched (.of_touched h.space.sys.coherent htouch (h.space.lists.notMem hmem))
  refine ⟨a, s', hrun, rfl, ⟨hinv, fun q => ?_⟩, .inr htouch.dirty, htouch.edits.keeps h.space.sys.coherent,
    htouch.header⟩
  rw [htouch.content]
  by_cases hqp : q = p
  · rw [hqp, Function.update_self, Function.update_self, if_pos hmem]
  · rw [Function.update_of_ne hqp, Function.update_of_ne hqp]
    exact h.heap q

theorem writePage_accounts (f : PageData → PageData) (h : Accounts base σ H s) (hp : H p = some d)
    (hsafe : MutSafe s p) :
    Yields (Pager.writePage p f) s fun _ s' => Accounts base σ (Function.update H p (some (f d))) s' ∧
      Steady base s' p ∧ KeepsSteady base s s' ∧ s'.header = s.header :=
  (modifyPage_accounts () (f d) h hp hsafe rfl).mono fun _ _ hq => hq.2

theorem allocatePage_accounts (h : Accounts base σ H s) :
    Ends Pager.allocatePage s (fun p s' => H p = none ∧
        (∃ d, Accounts base { σ with now := σ.now.allocate p } (Function.update H p (some d)) s') ∧
        Steady base s' p ∧ KeepsSteady base s s' ∧ s.header.totalPages < MAX_PAGES ∧
        s.header.totalPages ≤ s'.header.totalPages ∧ s'.header.totalPages ≤ s.header.totalPages + 1)
      fun e s' => e = .Err .DatabaseFull ∧ s' = s ∧ MAX_PAGES ≤ s.header.totalPages := by
  by_cases hmax : MAX_PAGES ≤ s.header.totalPages
  · exact .inr ⟨_, s, by rw [Pager.allocatePage_eq, if_pos hmax], rfl, rfl, hmax⟩
  rcases Pager.allocatePage_space h.space with ⟨p, s', hrun, hnew, hinv, hsame, hle, hle'⟩ | ⟨hfull, -⟩
  · obtain ⟨hsteady, hkeeps⟩ := Pager.allocatePage_keeps h.space hrun
    have hall : (σ.now.allocate p).allocated = Insert.insert p σ.now.allocated := by
      rw [Pager.Ledger.allocate, Pager.Ledger.allocated_rotate]
    refine .inl ⟨p, s', hrun, by rw [h.heap, if_neg hnew], ⟨s'.content 2 p, hinv, fun q => ?_⟩, hsteady, hkeeps,
      by omega, hle, hle'⟩
    simp only [hall, Finset.mem_insert]
    by_cases hqp : q = p
    · rw [hqp, Function.update_self, if_pos (.inl rfl)]
    · rw [Function.update_of_ne hqp, h.heap q]
      by_cases hq : q ∈ σ.now.allocated
      · rw [if_pos hq, if_pos (.inr hq), hsame q hq]
      · rw [if_neg hq, if_neg (by rintro (h | h); exacts [hqp h, hq h])]
  · exact absurd hfull hmax

theorem freePage_accounts (h : Accounts base σ H s) (hp : H p = some d) (hsafe : MutSafe s p) :
    Yields (Pager.freePage p) s fun _ s' => ∃ σ', Accounts base σ' (Function.update H p none) s' ∧
      σ'.now.allocated = σ.now.allocated.erase p ∧ σ'.now.lists.Perm (p :: σ.now.lists) := by
  obtain ⟨hmem, hcontent⟩ := h.owned hp
  obtain ⟨s', hrun, hinv, hsame, -⟩ := Pager.freePage_space h.space hmem hsafe
  have hall : (σ.now.release s.inTransaction p).allocated = σ.now.allocated.erase p := by
    cases s.inTransaction <;> rfl
  refine ⟨(), s', hrun, _, ⟨hinv, fun q => ?_⟩, hall, Pager.Ledger.lists_release s.inTransaction p σ.now⟩
  simp only [hall, Finset.mem_erase]
  by_cases hqp : q = p
  · rw [hqp, Function.update_self, if_neg (fun hq => hq.1 rfl)]
  · rw [Function.update_of_ne hqp, h.heap q]
    by_cases hq : q ∈ σ.now.allocated
    · rw [if_pos hq, if_pos ⟨hqp, hq⟩, hsame q hq hqp]
    · rw [if_neg hq, if_neg (fun h => hq h.2)]

end Accounts

end BTree

end Kkdb
