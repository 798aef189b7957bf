import Kkdb.BTree.Accounts
import Kkdb.BTree.CursorScan
import Kkdb.BTree.Tree

namespace Kkdb

open Lib

namespace BTree

open Pager (Steady KeepsSteady)

theorem Chunked.length_eq {cs : List (List UInt8)} (h : Chunked cs) :
    cs.length = (cs.flatten.length + (OVERFLOW_DATA_SIZE - 1)) / OVERFLOW_DATA_SIZE := by
  have hdata : OVERFLOW_DATA_SIZE = 4092 := rfl
  induction cs with
  | nil => rfl
  | cons c cs ih =>
      obtain ⟨hpos, hle, hfull, hrest⟩ := h
      have hlen := ih hrest
      rw [List.flatten_cons, List.length_append, List.length_cons]
      rw [hdata] at hlen ⊢
      by_cases hnil : cs = []
      · rw [hnil, List.length_nil, List.flatten_nil, List.length_nil]
        omega
      · have := hfull hnil
        omega

def overflowPages (payload : List UInt8) : Nat :=
  (payload.length + (OVERFLOW_DATA_SIZE - 1)) / OVERFLOW_DATA_SIZE

theorem length_chunks (payload : List UInt8) : (chunks payload).length = overflowPages payload := by
  rw [(chunked_chunks payload).length_eq, flatten_chunks]
  rfl

theorem ne_nil_of_long {payload : List UInt8} (h : MAX_INLINE_PAYLOAD < payload.length) : payload ≠ [] := by
  rintro rfl
  simp at h

section Write

variable [Lz4Flex] {base page : Nat} {σ : Pager.Space} {H : Heap} {s : Pager} {d : PageData}
  {cs : List (List UInt8)} {payload : List UInt8}

theorem writeChunks_accounts (h : Accounts base σ H s) (hp : H page = some d) (hsteady : Steady base s page)
    (hne : cs ≠ []) (hchunked : Chunked cs) (hmax : s.header.totalPages ≤ MAX_PAGES) :
    Ends (writeChunks cs page) s (fun _ s' => ∃ H' σ' ps, Chained H H' page ps cs ∧
        s'.header.totalPages ≤ MAX_PAGES ∧ KeepsSteady base s s' ∧ Accounts base σ' H' s')
      fun e _ => e = .Err .DatabaseFull ∧ MAX_PAGES + 1 < s.header.totalPages + cs.length := by
  induction cs generalizing H σ page d s with
  | nil => exact absurd rfl hne
  | cons c cs ih =>
      obtain ⟨-, hle, -, hchunked'⟩ := hchunked
      obtain ⟨hlo, htotal⟩ := h.range hp
      have hpos : page ≠ 0 := by omega
      cases cs with
      | nil =>
          obtain ⟨hnext, hslice⟩ := fillOverflow_spec d (show 0 < 2 ^ 32 by decide) hle
          have hsafe := hsteady.safe h.space.sys.coherent (by omega) htotal
          refine ((writePage_accounts (fillOverflow 0 c) h hp hsafe).mono fun _ s' hq => ?_).ends
          obtain ⟨h', -, hkeeps, hheader⟩ := hq
          exact ⟨_, σ, [], chained_last hpos hnext hslice, by rw [hheader]; exact hmax, hkeeps, h'⟩
      | cons c' cs =>
          simp only [List.length_cons] at ih ⊢
          rw [writeChunks]
          refine ((allocatePage_accounts h).mono (fun _ _ hq => hq) ?_).bind fun next s₁ hnew => ?_
          · rintro e s' ⟨rfl, -, hfull⟩
            exact ⟨rfl, by omega⟩
          obtain ⟨hfree, ⟨d₁, h₁⟩, hsteady₁, hkeeps₁, hroom, -, hle₁⟩ := hnew
          have hnp : page ≠ next := by
            rintro rfl
            rw [hp] at hfree
            cases hfree
          have hp₁ : Function.update H next (some d₁) page = some d := by
            rw [Function.update_of_ne hnp]
            exact hp
          have hnext₁ : Function.update H next (some d₁) next = some d₁ := Function.update_self ..
          have hsafe₁ := (hkeeps₁ page (by omega) hsteady).safe h₁.space.sys.coherent (by omega)
              (h₁.range hp₁).2
          obtain ⟨hlink, hslice⟩ := fillOverflow_spec d (h₁.small hnext₁) hle
          refine (writePage_accounts (fillOverflow next c) h₁ hp₁ hsafe₁).ends.bind fun _ s₂ hwrite => ?_
          obtain ⟨h₂, -, hkeeps₂, hheader₂⟩ := hwrite
          have hnext₂ : Function.update (Function.update H next (some d₁)) page
              (some (fillOverflow next c d)) next = some d₁ := by
            rw [Function.update_of_ne (Ne.symm hnp), hnext₁]
          have hsteady₂ := hkeeps₂ next (Nat.zero_lt_of_lt (h₁.range hnext₁).1) hsteady₁
          have hmax₂ : s₂.header.totalPages ≤ MAX_PAGES := by
            rw [hheader₂]
            omega
          refine (ih h₂ hnext₂ hsteady₂ (List.cons_ne_nil _ _) hchunked' hmax₂).mono (fun _ s₃ hchain => ?_) ?_
          · obtain ⟨H', σ', ps, hchained, hmax', hkeeps', h'⟩ := hchain
            exact ⟨H', σ', next :: ps, hchained.cons hfree (by simp [hp]) hpos hlink hslice, hmax',
              (hkeeps₁.trans hkeeps₂).trans hkeeps', h'⟩
          · rintro e s' ⟨rfl, hfull⟩
            rw [hheader₂] at hfull
            exact ⟨rfl, by omega⟩

-- The chain of a payload is on new pages, as many as it needs, or the pager had no room for them.
theorem writeOverflowChain_accounts (h : Accounts base σ H s) (hne : payload ≠ []) :
    Ends (writeOverflowChain payload) s (fun first s' => ∃ H' σ' ps, Links H' first ps (chunks payload) ∧
        ps.Nodup ∧ ps.head? = some first ∧ (∀ q ∈ ps, H q = none) ∧ (∀ q, q ∉ ps → H' q = H q) ∧
        s'.header.totalPages ≤ MAX_PAGES ∧ KeepsSteady base s s' ∧ Accounts base σ' H' s')
      fun e _ => e = .Err .DatabaseFull ∧ MAX_PAGES < s.header.totalPages + overflowPages payload := by
  have hchunks := chunks_ne_nil hne
  have hpos := List.length_pos_iff.mpr hchunks
  rw [length_chunks] at hpos
  rw [writeOverflowChain]
  refine ((allocatePage_accounts h).mono (fun _ _ hq => hq) ?_).bind fun first s₁ hnew => ?_
  · rintro e s' ⟨rfl, -, hfull⟩
    exact ⟨rfl, by omega⟩
  obtain ⟨hfree, ⟨d₁, h₁⟩, hsteady₁, hkeeps₁, hroom, -, hle₁⟩ := hnew
  have hwrite := writeChunks_accounts h₁ (Function.update_self _ _ _) hsteady₁ hchunks (chunked_chunks payload)
    (by omega)
  refine (hwrite.mono (fun _ _ hq => hq) ?_).bind fun _ s₂ hchain => ?_
  · rintro e s' ⟨rfl, hfull⟩
    rw [length_chunks] at hfull
    exact ⟨rfl, by omega⟩
  obtain ⟨H', σ', ps, hchained, hmax, hkeeps, h'⟩ := hchain
  obtain ⟨hfresh, hsame⟩ := hchained.new hfree
  exact .inl (.pure ⟨H', σ', first :: ps, hchained.links, hchained.nodup, rfl, hfresh, hsame, hmax,
    hkeeps₁.trans hkeeps, h'⟩)

end Write

section Free

variable [Lz4Flex] {base first : Nat} {σ : Pager.Space} {H : Heap} {s : Pager} {ps : List Nat}
  {cs : List (List UInt8)}

theorem freeChain_accounts (h : Accounts base σ H s) (hlinks : Links H first ps cs) (hnodup : ps.Nodup)
    (fuel : Nat) (hfuel : ps.length < fuel) :
    Yields (freeChain fuel first) s fun _ s' => ∃ σ', Accounts base σ' (H.without ps) s' ∧
      σ'.now.lists.Perm (ps ++ σ.now.lists) := by
  induction ps generalizing H σ first cs fuel s with
  | nil =>
      cases cs with
      | cons c cs => exact hlinks.elim
      | nil =>
          cases fuel with
          | zero => omega
          | succ fuel =>
              rw [freeChain, if_pos (show first = 0 from hlinks)]
              have hsame : H.without [] = H := by
                funext q
                exact if_neg List.not_mem_nil
              rw [hsame]
              exact .pure ⟨σ, h, .refl _⟩
  | cons p ps ih =>
      cases cs with
      | nil => exact hlinks.elim
      | cons c cs =>
          obtain ⟨rfl, hp, d, hd, -, hrest⟩ := hlinks
          obtain ⟨hnot, hnodup'⟩ := List.nodup_cons.mp hnodup
          cases fuel with
          | zero => omega
          | succ fuel =>
              rw [List.length_cons] at hfuel
              rw [freeChain, if_neg hp]
              refine (getPage_accounts h hd).bind fun pg s₁ hgot => ?_
              obtain ⟨hpg, h₁, hload, _⟩ := hgot
              refine (freePage_accounts h₁ hd (.inl hload)).bind fun _ s₂ hgot => ?_
              obtain ⟨σ₂, h₂, _, hlists⟩ := hgot
              rw [hpg]
              have hrest₂ : Links (Function.update H first none) _ _ _ := hrest.frame fun q hq =>
                Function.update_of_ne (ne_of_mem_of_not_mem hq hnot) _ _
              refine (ih h₂ hrest₂ hnodup' fuel (by omega)).mono fun _ s₃ hgot => ?_
              obtain ⟨σ₃, h₃, hlists₃⟩ := hgot
              rw [Heap.without_cons] at h₃
              exact ⟨σ₃, h₃, (hlists₃.trans (hlists.append_left ps)).trans List.perm_middle⟩

theorem freeOverflowChain_accounts (h : Accounts base σ H s) (hlinks : Links H first ps cs)
    (hnodup : ps.Nodup) :
    Yields (freeOverflowChain first) s fun _ s' => ∃ σ', Accounts base σ' (H.without ps) s' ∧
      σ'.now.lists.Perm (ps ++ σ.now.lists) := by
  have hlen := h.length_le hnodup hlinks.owned
  have hfuel : ps.length < (s.header.totalPages + 1) * (s.header.totalPages + 1) :=
    Nat.lt_of_lt_of_le (by omega) (Nat.le_mul_of_pos_left _ (by omega))
  exact freeChain_accounts h hlinks hnodup _ hfuel

end Free

section Route

variable {H : Heap} {rowid : Int64} {root leaf depth depth' : Nat} {d : PageData}

-- A search ends at a leaf, so it cannot pass one page after different numbers of steps.
theorem Route.depth_eq (h : Route H rowid depth root leaf) (h' : Route H rowid depth' root leaf)
    (hleaf : H leaf = some d) (htype : pageType d = LEAF_TABLE) : depth = depth' := by
  induction depth generalizing root depth' with
  | zero =>
      obtain rfl : root = leaf := h
      cases depth' with
      | zero => rfl
      | succ depth' =>
          obtain ⟨d', -, hd', htype', -⟩ := h'
          obtain rfl : d' = d := Option.some.inj (hd'.symm.trans hleaf)
          exact absurd (htype'.symm.trans htype) interior_ne_leaf
  | succ depth ih =>
      obtain ⟨d₁, child, hd₁, htype₁, hchild, hrest⟩ := h
      cases depth' with
      | zero =>
          obtain rfl : root = leaf := h'
          obtain rfl : d₁ = d := Option.some.inj (hd₁.symm.trans hleaf)
          exact absurd (htype₁.symm.trans htype) interior_ne_leaf
      | succ depth' =>
          obtain ⟨d₂, child', hd₂, -, hchild', hrest'⟩ := h'
          obtain rfl : d₂ = d₁ := Option.some.inj (hd₂.symm.trans hd₁)
          obtain rfl : child = child' := Except.ok.inj (hchild.symm.trans hchild')
          rw [ih hrest hrest']

-- The pages that a search passes are different, so it takes fewer steps than there are pages.
theorem Route.pages (h : Route H rowid depth root leaf) (hleaf : H leaf = some d)
    (htype : pageType d = LEAF_TABLE) : ∃ ps : List Nat, ps.Nodup ∧ ps.length = depth + 1 ∧
      ∀ q ∈ ps, (∃ dq, H q = some dq) ∧ ∃ k ≤ depth, Route H rowid k q leaf := by
  induction depth generalizing root with
  | zero =>
      obtain rfl : root = leaf := h
      exact ⟨[root], List.nodup_singleton _, rfl, fun q hq => by
        rw [List.mem_singleton.mp hq]
        exact ⟨⟨d, hleaf⟩, 0, le_rfl, rfl⟩⟩
  | succ depth ih =>
      obtain ⟨d₁, child, hd₁, htype₁, hchild, hrest⟩ := id h
      obtain ⟨ps, hnodup, hlen, hps⟩ := ih hrest
      have hnot : root ∉ ps := fun hmem => by
        obtain ⟨-, k, hk, hroute⟩ := hps root hmem
        have := h.depth_eq hroute hleaf htype
        omega
      refine ⟨root :: ps, List.nodup_cons.mpr ⟨hnot, hnodup⟩, by rw [List.length_cons, hlen], fun q hq => ?_⟩
      rcases List.mem_cons.mp hq with rfl | hmem
      · exact ⟨⟨d₁, hd₁⟩, depth + 1, le_rfl, h⟩
      · obtain ⟨howned, k, hk, hroute⟩ := hps q hmem
        exact ⟨howned, k, by omega, hroute⟩

end Route

section Delete

variable [Lz4Flex] {base root leaf depth lo next prev : Nat} {σ : Pager.Space} {H : Heap} {s : Pager}
  {d : PageData} {pre post : List Cell} {c : Cell}

theorem deleteFromPage_accounts (h : Accounts base σ H s) (hp : H leaf = some d)
    (hleaf : LeafAt d (pre ++ c :: post) lo next prev) (hstored : c.Stored H)
    (hlong : needsOverflow c.payload = true) (hapart : leaf ∉ c.chain) (fuel : Nat) :
    Yields (deleteFromPage c.rowid (fuel + 1) leaf) s fun b s' => b = true ∧
      ∃ σ' d', LeafAt d' (pre ++ post) lo next prev ∧
        Accounts base σ' (Heap.without (Function.update H leaf (some d')) c.chain) s' ∧
        σ'.now.lists.Perm (c.chain ++ σ.now.lists) := by
  have hchain := hstored.chain
  rw [if_pos hlong] at hchain
  have hsmall : c.chain.headD 0 < 2 ^ 32 := by
    obtain ⟨d₁, hd₁⟩ := hstored.owned _ (hchain.1.head (chunks_ne_nil (by
      intro hnil
      rw [hnil] at hlong
      exact absurd hlong (by decide))))
    exact h.small hd₁
  obtain ⟨d', hdelete, h'⟩ := hleaf.delete_present hsmall
  rw [if_pos hlong] at hdelete
  rw [deleteFromPage]
  refine (getPage_accounts h hp).bind fun pg s₁ hgot => ?_
  obtain ⟨hdata, h₁, hload, _⟩ := hgot
  rw [hdata, hleaf.laid.type, if_pos rfl]
  refine (modifyPage_accounts _ d' h₁ hp (.inl hload) hdelete).bind fun r s₂ hgot => ?_
  obtain ⟨hr, h₂, _⟩ := hgot
  rw [hr]
  have hlinks : Links (Function.update H leaf (some d')) _ _ _ := hchain.1.frame fun q hq =>
    Function.update_of_ne (ne_of_mem_of_not_mem hq hapart) _ _
  refine (freeOverflowChain_accounts h₂ hlinks hchain.2).bind fun _ s₃ hgot => ?_
  obtain ⟨σ₃, h₃, hlists⟩ := hgot
  exact .pure ⟨rfl, σ₃, d', h', h₃, hlists⟩

theorem deleteByRowid_accounts (h : Accounts base σ H s) (hroute : Route H c.rowid depth root leaf)
    (hp : H leaf = some d) (hleaf : LeafAt d (pre ++ c :: post) lo next prev) (hstored : c.Stored H)
    (hlong : needsOverflow c.payload = true) (hapart : leaf ∉ c.chain) :
    Yields (deleteByRowid root c.rowid) s fun r s' => r = (true, root) ∧
      ∃ σ' d', LeafAt d' (pre ++ post) lo next prev ∧
        Accounts base σ' (Heap.without (Function.update H leaf (some d')) c.chain) s' ∧
        σ'.now.lists.Perm (c.chain ++ σ.now.lists) := by
  obtain ⟨ps, hnodup, hlen, hps⟩ := hroute.pages hp hleaf.laid.type
  have hdepth := h.length_le hnodup fun q hq => (hps q hq).1
  rw [deleteByRowid]
  refine depthLimit_yields.bind fun fuel s₁ hgot => ?_
  obtain ⟨hfuel, hs⟩ := hgot
  subst hs
  have hdelete := deleteFromPage_descends Accounts.serves hroute h (show depth < fuel by omega)
    fun fuel' s' h' => deleteFromPage_accounts h' hp hleaf hstored hlong hapart fuel'
  refine hdelete.bind fun b s₂ hgot => ?_
  obtain ⟨hb, hrest⟩ := hgot
  rw [hb]
  exact .pure ⟨rfl, hrest⟩

end Delete

section Stores

variable [Lz4Flex] {base base' : Nat} {σ σ' : Pager.Space} {s s' : Pager} {first : Nat} {ps : List Nat}
  {payload : List UInt8} {rowid : Int64}

-- The chain of a payload: as many pages as the payload needs, all new, and nothing else has changed.
structure FreshChain (payload : List UInt8) (first : Nat) (ps : List Nat) (σ : Pager.Space) (s : Pager)
    (σ' : Pager.Space) (s' : Pager) : Prop where
  head : ps.head? = some first
  count : ps.length = overflowPages payload
  nodup : ps.Nodup
  fresh : ∀ p ∈ ps, p ∉ σ.now.allocated
  allocated : σ'.now.allocated = σ.now.allocated ∪ ps.toFinset
  same : ∀ p, p ∉ ps → heapOf σ' s' p = heapOf σ s p

-- Both readers get the payload from a stub that names the chain.
def Readable (rowid : Int64) (payload : List UInt8) (first : Nat) (s : Pager) : Prop :=
  ∀ (data : PageData) (off : Nat), off + 20 ≤ PAGE_SIZE →
    data.slice off 20 = makeOverflowCell rowid payload.length first →
    (∃ s', readCellPayload (data.u32 off) (off + 12) data s = .ok payload s') ∧
      ∃ s', Cursor.readCellPayload (data.u32 off) (off + 12) data s = .ok payload s'

def GivenBack (base : Nat) (c : Cell) (σ : Pager.Space) (s : Pager) : Prop :=
  ∀ root leaf depth d pre post lo next prev, Route (heapOf σ s) c.rowid depth root leaf →
    heapOf σ s leaf = some d → LeafAt d (pre ++ c :: post) lo next prev → leaf ∉ c.chain →
    ∃ s' σ', deleteByRowid root c.rowid s = .ok (true, root) s' ∧ Pager.SpaceInv base (s', σ') ∧
      σ'.now.allocated = σ.now.allocated \ c.chain.toFinset ∧ σ'.now.lists.Perm (c.chain ++ σ.now.lists)

theorem readable_of_stored {c : Cell} (h : Accounts base σ (heapOf σ s) s) (hstored : c.Stored (heapOf σ s))
    (hlong : needsOverflow c.payload = true) : Readable c.rowid c.payload (c.chain.headD 0) s := by
  intro data off hfit hstub
  have hbytes : c.bytes = makeOverflowCell c.rowid c.payload.length (c.chain.headD 0) := by
    rw [Cell.bytes, if_pos hlong]
  have hlen : c.bytes.length = 20 := by
    rw [c.length_bytes, cellLen, if_pos hlong]
  rw [← hbytes] at hstub
  have hhead : data.u32 off = cellHead c.bytes := by
    rw [cellHead, ← hstub, Buf.u32]
    rfl
  obtain ⟨bytes, s', hrun, rfl, -⟩ := readCellPayload_serves Accounts.serves h hstored
    (by rw [hlen]; exact hfit) (by rw [hlen]; exact hstub)
  rw [hhead]
  exact ⟨⟨s', hrun⟩, s', readCellPayload_ok hrun⟩

theorem givenBack_of_stored {c : Cell} (h : Accounts base σ (heapOf σ s) s) (hstored : c.Stored (heapOf σ s))
    (hlong : needsOverflow c.payload = true) : GivenBack base c σ s := by
  intro root leaf depth d pre post lo next prev hroute hp hleaf hapart
  obtain ⟨r, s', hrun, rfl, σ', d', -, h', hlists⟩ :=
    deleteByRowid_accounts h hroute hp hleaf hstored hlong hapart
  refine ⟨s', σ', hrun, h'.space, ?_, hlists⟩
  ext p
  rw [h'.owns_iff, Finset.mem_sdiff, h.owns_iff, List.mem_toFinset, Heap.without]
  by_cases hmem : p ∈ c.chain
  · simp [hmem]
  · by_cases hpl : p = leaf
    · rw [if_neg hmem, hpl, Function.update_self]
      simp [hp, hapart]
    · rw [if_neg hmem, Function.update_of_ne hpl]
      simp [hmem]

-- A payload goes to a chain of new pages, from which it can be read and which can be given back as long as
-- the pages hold what was written, unless the pager has no room for the chain.
theorem writeOverflowChain_stores (h : Pager.SpaceInv base (s, σ))
    (hlong : MAX_INLINE_PAYLOAD < payload.length) :
    (∃ s', writeOverflowChain payload s = .error (.Err .DatabaseFull) s' ∧
      MAX_PAGES < s.header.totalPages + overflowPages payload) ∨
    ∃ first s' σ' ps, writeOverflowChain payload s = .ok first s' ∧ Pager.SpaceInv base (s', σ') ∧
      FreshChain payload first ps σ s σ' s' ∧
      ∀ base₂ σ₂ s₂, Pager.SpaceInv base₂ (s₂, σ₂) → (∀ p ∈ ps, heapOf σ₂ s₂ p = heapOf σ' s' p) →
        ∀ rowid, Readable rowid payload first s₂ ∧ GivenBack base₂ ⟨rowid, payload, ps⟩ σ₂ s₂ := by
  rcases writeOverflowChain_accounts (accounts_heapOf h) (ne_nil_of_long hlong) with hdone | hfull
  · obtain ⟨first, s', hrun, H', σ', ps, hlinks, hnodup, hhead, hfresh, hsame, hmax, -, h'⟩ := hdone
    have hcount : ps.length = overflowPages payload := by rw [hlinks.length_eq, length_chunks]
    have hheap : H' = heapOf σ' s' := h'.heap_eq
    rw [hheap] at hlinks hsame h'
    refine .inr ⟨first, s', σ', ps, hrun, h'.space, ⟨hhead, hcount, hnodup, fun p hp => ?_, ?_, hsame⟩, ?_⟩
    · rw [(accounts_heapOf h).owns_iff, hfresh p hp]
      exact fun hne => hne rfl
    · ext p
      rw [h'.owns_iff, Finset.mem_union, (accounts_heapOf h).owns_iff, List.mem_toFinset]
      by_cases hp : p ∈ ps
      · obtain ⟨d, hd⟩ := hlinks.owned p hp
        simp [hp, hd]
      · rw [hsame p hp]
        simp [hp]
    · intro base₂ σ₂ s₂ h₂ hkept rowid
      have hle := h'.length_le hnodup hlinks.owned
      have hshort : payload.length ≤ U32_MAX := by
        have hmaxPages : MAX_PAGES = 1048576 := rfl
        have hu32 : U32_MAX = 4294967295 := rfl
        have hdata : OVERFLOW_DATA_SIZE = 4092 := rfl
        rw [hcount, overflowPages, hdata] at hle
        omega
      have hfirst : ps.headD 0 = first := by rw [List.headD_eq_head?_getD, hhead, Option.getD_some]
      have hover : needsOverflow payload = true := by simpa [needsOverflow] using hlong
      have hstored : Cell.Stored (heapOf σ₂ s₂) ⟨rowid, payload, ps⟩ := ⟨hshort, by
        simp only [hover, if_true, hfirst]
        exact ⟨hlinks.frame hkept, hnodup⟩⟩
      have hread := readable_of_stored (accounts_heapOf h₂) hstored hover
      simp only [hfirst] at hread
      exact ⟨hread, givenBack_of_stored (accounts_heapOf h₂) hstored hover⟩
  · obtain ⟨e, s', hrun, rfl, hroom⟩ := hfull
    exact .inl ⟨s', hrun, hroom⟩

theorem overflowPages_le (h : Pager.SpaceInv base (s, σ)) (hne : payload ≠ [])
    (hrun : writeOverflowChain payload s = .ok first s') : overflowPages payload ≤ MAX_PAGES := by
  obtain ⟨H', σ', ps, hlinks, hnodup, -, -, -, hmax, -, h'⟩ :=
    (writeOverflowChain_accounts (accounts_heapOf h) hne).ok hrun
  have hle := h'.length_le hnodup hlinks.owned
  rw [hlinks.length_eq, length_chunks] at hle
  omega

end Stores

section Examples

attribute [local instance] Lz4Flex.incompressible

-- Two chunks, the second of them short.
theorem writeOverflowChain_stores_two :
    (∃ s', writeOverflowChain (List.replicate 5000 7) (Pager.openMemory Buf.zero) = .error
    (.Err .DatabaseFull) s' ∧
      MAX_PAGES < (Pager.openMemory Buf.zero).header.totalPages + overflowPages (List.replicate 5000 7)) ∨
    ∃ first s' σ' ps, writeOverflowChain (List.replicate 5000 7) (Pager.openMemory Buf.zero) = .ok first s' ∧
      Pager.SpaceInv 0 (s', σ') ∧ FreshChain (List.replicate 5000 7) first ps
        (Pager.Space.start Pager.createdLedger) (Pager.openMemory Buf.zero) σ' s' ∧
      ∀ base₂ σ₂ s₂, Pager.SpaceInv base₂ (s₂, σ₂) → (∀ p ∈ ps, heapOf σ₂ s₂ p = heapOf σ' s' p) →
        ∀ rowid, Readable rowid (List.replicate 5000 7) first s₂ ∧
          GivenBack base₂ ⟨rowid, List.replicate 5000 7, ps⟩ σ₂ s₂ :=
  writeOverflowChain_stores (Pager.ready_openMemory Buf.zero).space (by rw [List.length_replicate]; decide)

-- One byte more than all the pages that a pager can have would hold.
theorem writeOverflowChain_full :
    Pager.SpaceInv 0 (Pager.openMemory Buf.zero, Pager.Space.start Pager.createdLedger) ∧
      MAX_INLINE_PAYLOAD < (List.replicate 4290772993 (0 : UInt8)).length ∧
      ¬∃ first s', writeOverflowChain (List.replicate 4290772993 0) (Pager.openMemory Buf.zero) =
        .ok first s' := by
  have hspace := (Pager.ready_openMemory Buf.zero).space
  have hlong : MAX_INLINE_PAYLOAD < (List.replicate 4290772993 (0 : UInt8)).length := by
    rw [List.length_replicate]
    decide
  refine ⟨hspace, hlong, fun ⟨first, s', hrun⟩ => ?_⟩
  have hle := overflowPages_le hspace (ne_nil_of_long hlong) hrun
  rw [overflowPages, List.length_replicate] at hle
  exact absurd hle (by decide)

end Examples

end BTree

end Kkdb
