import Kkdb.BTree.Overflow

namespace Kkdb

open Lib

namespace BTree

-- A row of a leaf: the payload, and the pages of its overflow chain if it has one.
structure Cell where
  rowid : Int64
  payload : List UInt8
  chain : List Nat
  deriving DecidableEq

namespace Cell

def bytes (c : Cell) : List UInt8 :=
  if needsOverflow c.payload then makeOverflowCell c.rowid c.payload.length (c.chain.headD 0)
  else makeLeafCell c.rowid c.payload

structure Stored (H : Heap) (c : Cell) : Prop where
  short : c.payload.length ≤ U32_MAX
  chain : if needsOverflow c.payload = true then
      Links H (c.chain.headD 0) c.chain (chunks c.payload) ∧ c.chain.Nodup
    else c.chain = []

variable {H H' : Heap} {c : Cell}

theorem Stored.frame (h : Stored H c) (hsame : ∀ p ∈ c.chain, H' p = H p) : Stored H' c where
  short := h.short
  chain := by
    have hchain := h.chain
    split_ifs at hchain ⊢ with hover
    · exact ⟨hchain.1.frame hsame, hchain.2⟩
    · exact hchain

theorem Stored.nodup (h : Stored H c) : c.chain.Nodup := by
  have hchain := h.chain
  split_ifs at hchain
  · exact hchain.2
  · rw [hchain]
    exact List.nodup_nil

theorem Stored.owned (h : Stored H c) : ∀ p ∈ c.chain, ∃ d, H p = some d := by
  have hchain := h.chain
  split_ifs at hchain
  · exact hchain.1.owned
  · intro p hp
    rw [hchain] at hp
    cases hp

@[simp] theorem cellKey_bytes (c : Cell) : cellKey c.bytes = c.rowid := by
  unfold bytes
  split_ifs
  · exact cellKey_makeOverflowCell ..
  · exact cellKey_makeLeafCell ..

theorem length_bytes (c : Cell) : c.bytes.length = cellLen c.payload := by
  unfold bytes cellLen
  split_ifs
  · exact length_makeOverflowCell ..
  · exact length_makeLeafCell ..

theorem long_bytes (c : Cell) : 12 ≤ c.bytes.length := by
  rw [length_bytes, cellLen]
  split_ifs <;> omega

theorem inline_small (h : needsOverflow c.payload = false) : c.payload.length ≤ 2016 := by
  have hmax : MAX_INLINE_PAYLOAD = 2016 := rfl
  have := of_decide_eq_false h
  omega

theorem cellHead_bytes (c : Cell) :
    cellHead c.bytes = if needsOverflow c.payload then OVERFLOW_FLAG else c.payload.length := by
  unfold bytes
  cases h : needsOverflow c.payload with
  | true => exact cellHead_append (by decide)
  | false =>
      have := inline_small h
      exact cellHead_append (by omega)

theorem flag_le_cellHead (c : Cell) : OVERFLOW_FLAG ≤ cellHead c.bytes ↔ needsOverflow c.payload = true := by
  have hflag : OVERFLOW_FLAG = 2147483648 := rfl
  rw [cellHead_bytes]
  cases h : needsOverflow c.payload with
  | true => simp
  | false =>
      have := inline_small h
      simp only [Bool.false_eq_true, if_false, iff_false]
      omega

theorem cellSize_bytes (c : Cell) : cellSize c.bytes = c.bytes.length := by
  rw [cellSize, length_bytes, cellLen]
  cases h : needsOverflow c.payload with
  | true => rw [if_pos ((flag_le_cellHead c).mpr h)]; rfl
  | false =>
      rw [if_neg (by rw [flag_le_cellHead, h]; exact Bool.false_ne_true), cellHead_bytes, h]
      rfl

theorem stub_bytes (h : needsOverflow c.payload = true) :
    c.bytes.drop 12 = leBytes 4 c.payload.length ++ leBytes 4 (c.chain.headD 0) := by
  rw [bytes, if_pos h, makeOverflowCell, ← List.append_assoc]
  exact List.drop_left' (by simp)

theorem overflowFirst_bytes (c : Cell) (hsmall : c.chain.headD 0 < 2 ^ 32) :
    overflowFirst c.bytes = if needsOverflow c.payload then some (c.chain.headD 0) else none := by
  unfold overflowFirst
  cases h : needsOverflow c.payload with
  | true =>
      rw [if_pos ((flag_le_cellHead c).mpr h), if_pos rfl, show 16 = 12 + 4 from rfl, ← List.drop_drop,
        stub_bytes h, List.drop_left' (by simp), List.take_of_length_le (by simp),
        leNat_leBytes_of_lt (by simpa using hsmall)]
  | false =>
      rw [if_neg (by rw [flag_le_cellHead, h]; exact Bool.false_ne_true), if_neg Bool.false_ne_true]

theorem inline_bytes (h : needsOverflow c.payload = false) : c.bytes.drop 12 = c.payload := by
  rw [bytes, if_neg (by rw [h]; exact Bool.false_ne_true), makeLeafCell, ← List.append_assoc]
  exact List.drop_left' (by simp)

end Cell

section Payload

variable [Lz4Flex] {I : Pager → Prop} {H : Heap} {total off : Nat} {s : Pager} {d : PageData} {c : Cell}

theorem readCellPayload_serves (hserves : Serves I H) (hI : I s) (hstored : c.Stored H)
    (hfit : off + c.bytes.length ≤ PAGE_SIZE) (hslice : d.slice off c.bytes.length = c.bytes) :
    Yields (readCellPayload (cellHead c.bytes) (off + 12) d) s fun payload s' =>
      payload = c.payload ∧ I s' := by
  have hflag : OVERFLOW_FLAG = 2147483648 := rfl
  have hrest : ∀ a l, a + l ≤ c.bytes.length → d.slice (off + a) l = (c.bytes.drop a).take l := by
    intro a l hal
    rw [← hslice, Buf.drop_take_slice _ _ _ _ _ (by rw [hslice] at *; exact hal)]
  unfold readCellPayload
  have hlen := c.length_bytes
  rw [Cell.cellHead_bytes]
  cases hover : needsOverflow c.payload with
  | false =>
      have hsmall := Cell.inline_small hover
      rw [cellLen, hover] at hlen
      simp only [Bool.false_eq_true, if_false] at hlen ⊢
      rw [if_pos (by omega), if_neg (by omega), hrest 12 _ (by omega), Cell.inline_bytes hover,
        List.take_of_length_le le_rfl]
      exact .pure ⟨rfl, hI⟩
  | true =>
      have hchain := hstored.chain
      rw [if_pos hover] at hchain
      have hshort := hstored.short
      have hmax : U32_MAX = 4294967295 := rfl
      rw [cellLen, hover] at hlen
      simp only [if_true] at hlen ⊢
      rw [if_neg (by omega), if_neg (by omega), if_neg (by omega)]
      have hfirst : c.chain.headD 0 < 2 ^ 32 := by
        cases hc : c.chain with
        | nil => decide
        | cons p ps =>
            obtain ⟨d', hd'⟩ := hstored.owned p (by rw [hc]; exact List.mem_cons_self)
            exact hserves.small _ _ _ hd' hI
      have htotal : d.u32 (off + 12) = c.payload.length := by
        rw [Buf.u32, hrest 12 4 (by omega), Cell.stub_bytes hover, List.take_left' (by simp),
          leNat_leBytes_of_lt (by omega)]
      have hpage : d.u32 (off + 12 + 4) = c.chain.headD 0 := by
        rw [Buf.u32, show off + 12 + 4 = off + 16 from rfl, hrest 16 4 (by omega), show 16 = 12 + 4 from rfl,
          ← List.drop_drop, Cell.stub_bytes hover, List.drop_left' (by simp),
          List.take_of_length_le (by simp), leNat_leBytes_of_lt (by simpa using hfirst)]
      rw [htotal, hpage, Nat.sub_self, show d.slice (off + 12 + 8) 0 = [] from rfl]
      have hflat := flatten_chunks c.payload
      refine (readChain_serves hserves hI hchain.1 (chunked_chunks c.payload) _ [] _ (by rw [hflat]; simp)
        (by rw [hflat])).mono fun payload s' hq => ?_
      rw [hflat] at hq
      exact hq

theorem readCellPayload_owns (hO : Owns H total s) (hstored : c.Stored H)
    (hfit : off + c.bytes.length ≤ PAGE_SIZE) (hslice : d.slice off c.bytes.length = c.bytes) :
    Yields (readCellPayload (cellHead c.bytes) (off + 12) d) s fun payload s' =>
      payload = c.payload ∧ Owns H total s' :=
  readCellPayload_serves Owns.serves hO hstored hfit hslice

end Payload

def Ascending (cells : List Cell) : Prop := (cells.map fun c => c.rowid.toInt).Pairwise (· < ·)

theorem ascending_append {pre post : List Cell} {c : Cell} :
    Ascending (pre ++ c :: post) ↔ Ascending pre ∧ Ascending post ∧
      (∀ x ∈ pre, x.rowid.toInt < c.rowid.toInt) ∧ (∀ x ∈ post, c.rowid.toInt < x.rowid.toInt) ∧
      ∀ x ∈ pre, ∀ y ∈ post, x.rowid.toInt < y.rowid.toInt := by
  simp only [Ascending, List.map_append, List.map_cons, List.pairwise_append, List.pairwise_cons,
    List.mem_cons, List.mem_map, forall_exists_index, and_imp, forall_apply_eq_imp_iff₂, forall_eq_or_imp]
  constructor
  · rintro ⟨h1, ⟨h2, h3⟩, h4⟩
    exact ⟨h1, h3, fun x hx => (h4 x hx).1, h2, fun x hx y hy => (h4 x hx).2 y hy⟩
  · rintro ⟨h1, h3, h5, h2, h4⟩
    exact ⟨h1, ⟨h2, h3⟩, fun x hx => ⟨h5 x hx, fun y hy => h4 x hx y hy⟩⟩

theorem Ascending.sublist {cells cells' : List Cell} (h : Ascending cells) (hsub : cells'.Sublist cells) :
    Ascending cells' := List.Pairwise.sublist (hsub.map _) h

theorem Ascending.insert {pre post : List Cell} {c : Cell} (h : Ascending (pre ++ post))
    (hpre : ∀ x ∈ pre, x.rowid.toInt < c.rowid.toInt) (hpost : ∀ x ∈ post, c.rowid.toInt < x.rowid.toInt) :
    Ascending (pre ++ c :: post) := by
  rw [Ascending, List.map_append, List.pairwise_append] at h
  refine ascending_append.mpr ⟨h.1, h.2.1, hpre, hpost, fun x hx y hy => ?_⟩
  exact h.2.2 _ (List.mem_map_of_mem hx) _ (List.mem_map_of_mem hy)

theorem findIdx_cells {pre post : List Cell} {rowid : Int64}
    (hpre : ∀ x ∈ pre, x.rowid.toInt < rowid.toInt) (hpost : ∀ x ∈ post, rowid.toInt < x.rowid.toInt) :
    ((pre ++ post).map fun c : Cell => (c.rowid, c.bytes)).findIdx (fun e => decide (rowid < e.1)) =
      pre.length := by
  have hlen : (pre.map fun c : Cell => (c.rowid, c.bytes)).length = pre.length := List.length_map _
  rw [List.map_append, ← hlen]
  refine findIdx_append_of_split (fun e he => ?_) fun e he => ?_
  · obtain ⟨x, hx, rfl⟩ := List.mem_map.mp he
    exact decide_eq_false fun hlt => Int.lt_asymm (Int64.lt_iff_toInt_lt.mp hlt) (hpre x hx)
  · obtain ⟨x, hx, rfl⟩ := List.mem_map.mp he
    exact decide_eq_true (Int64.lt_iff_toInt_lt.mpr (hpost x hx))

theorem Ascending.split {cells : List Cell} (h : Ascending cells) (rowid : Int64) :
    (∃ pre post, cells = pre ++ post ∧ (∀ x ∈ pre, x.rowid.toInt < rowid.toInt) ∧
      ∀ x ∈ post, rowid.toInt < x.rowid.toInt) ∨
    ∃ pre c post, cells = pre ++ c :: post ∧ c.rowid = rowid := by
  induction cells with
  | nil => exact .inl ⟨[], [], rfl, fun x hx => absurd hx List.not_mem_nil, fun x hx =>
        absurd hx List.not_mem_nil⟩
  | cons c cells ih =>
      have h' := h
      rw [Ascending, List.map_cons, List.pairwise_cons] at h'
      rcases Int.lt_trichotomy c.rowid.toInt rowid.toInt with hlt | heq | hgt
      · rcases ih h'.2 with ⟨pre, post, rfl, hpre, hpost⟩ | ⟨pre, x, post, rfl, hx⟩
        · refine .inl ⟨c :: pre, post, rfl, fun x hx => ?_, hpost⟩
          rcases List.mem_cons.mp hx with rfl | hx
          · exact hlt
          · exact hpre x hx
        · exact .inr ⟨c :: pre, x, post, rfl, hx⟩
      · exact .inr ⟨[], c, cells, rfl, Int64.toInt_inj.mp heq⟩
      · refine .inl ⟨[], c :: cells, rfl, fun x hx => absurd hx List.not_mem_nil, fun x hx => ?_⟩
        rcases List.mem_cons.mp hx with rfl | hx
        · exact hgt
        · exact Int.lt_trans hgt (h'.1 _ (List.mem_map_of_mem hx))

structure LeafAt (d : PageData) (cells : List Cell) (lo next prev : Nat) : Prop where
  laid : Laid LEAF_TABLE LEAF_HEADER_SIZE d (cells.map Cell.bytes) lo
  next : nextLeaf d = next
  prev : prevLeaf d = prev
  sorted : Ascending cells

section Pages

variable {d : PageData} {cells pre post : List Cell} {c : Cell} {lo next prev : Nat} {rowid : Int64}

theorem below_bytes (h : ∀ x ∈ pre, x.rowid.toInt < rowid.toInt) : Below rowid (pre.map Cell.bytes) := by
  intro b hb
  obtain ⟨x, hx, rfl⟩ := List.mem_map.mp hb
  rw [Cell.cellKey_bytes]
  exact h x hx

theorem above_bytes (h : ∀ x ∈ post, rowid.toInt < x.rowid.toInt) : Above rowid (post.map Cell.bytes) := by
  intro b hb
  obtain ⟨x, hx, rfl⟩ := List.mem_map.mp hb
  rw [Cell.cellKey_bytes]
  exact h x hx

theorem LeafAt.count (h : LeafAt d cells lo next prev) : cellCount d = cells.length := by
  rw [h.laid.count, List.length_map]

theorem LeafAt.room (h : LeafAt d cells lo next prev) :
    available LEAF_HEADER_SIZE d = lo - (LEAF_HEADER_SIZE + 2 * cells.length) := by
  rw [h.laid.available, List.length_map]

theorem links_of_sameLinks {d' : PageData} (h : SameLinks LEAF_HEADER_SIZE d d') :
    nextLeaf d' = nextLeaf d ∧ prevLeaf d' = prevLeaf d := by
  have hhdr : LEAF_HEADER_SIZE = 14 := rfl
  exact ⟨h.u32 (by omega) (by omega), h.u32 (by omega) (by omega)⟩

theorem LeafAt.setNext (h : LeafAt d cells lo next prev) {n : Nat} (hn : n < 2 ^ 32) :
    LeafAt (d.write 6 (leBytes 4 n)) cells lo n prev where
  laid := h.laid.writeLink 6 (leBytes 4 n) (by omega) (by simp [LEAF_HEADER_SIZE])
  next := Buf.u32_write_same _ (by decide) hn
  prev := by
    rw [prevLeaf, Buf.u32_write_of_disjoint _ (.inr (by simp))]
    exact h.prev
  sorted := h.sorted

theorem LeafAt.setPrev (h : LeafAt d cells lo next prev) {n : Nat} (hn : n < 2 ^ 32) :
    LeafAt (d.write 10 (leBytes 4 n)) cells lo next n where
  laid := h.laid.writeLink 10 (leBytes 4 n) (by omega) (by simp [LEAF_HEADER_SIZE])
  next := by
    rw [nextLeaf, Buf.u32_write_of_disjoint _ (.inl (by omega))]
    exact h.next
  prev := Buf.u32_write_same _ (by decide) hn
  sorted := h.sorted

theorem LeafAt.place (h : LeafAt d (pre ++ post) lo next prev)
    (hpre : ∀ x ∈ pre, x.rowid.toInt < c.rowid.toInt) (hpost : ∀ x ∈ post, c.rowid.toInt < x.rowid.toInt)
    (hroom : LEAF_HEADER_SIZE + 2 * ((pre ++ post).length + 1) + c.bytes.length ≤ lo) :
    ∃ d', leafInsertIndex d c.rowid = .ok pre.length ∧
      placeCell "leaf" LEAF_HEADER_SIZE c.bytes pre.length d = .ok d' ∧
      LeafAt d' (pre ++ c :: post) (lo - c.bytes.length) next prev := by
  have hlaid := h.laid
  rw [List.map_append] at hlaid
  obtain ⟨d', hplace, hlaid', hlinks⟩ := hlaid.place "leaf" c.long_bytes (by
    rw [← List.map_append, List.length_map]
    exact hroom)
  rw [List.length_map] at hplace
  obtain ⟨hn, hp⟩ := links_of_sameLinks hlinks
  have hindex := leafInsertIndex_miss hlaid (below_bytes hpre) (above_bytes hpost)
  rw [List.length_map] at hindex
  refine ⟨d', hindex, hplace, ?_, by rw [hn, h.next], by rw [hp, h.prev], h.sorted.insert hpre hpost⟩
  rw [List.map_append, List.map_cons]
  exact hlaid'

theorem LeafAt.collect (h : LeafAt d cells lo next prev) :
    leafCells d = .ok (cells.map fun c => (c.rowid, c.bytes)) := by
  rw [leafCells_laid h.laid]
  · rw [List.map_map]
    refine congrArg Except.ok (List.map_congr_left fun c _ => ?_)
    simp
  · intro b hb
    obtain ⟨c, -, rfl⟩ := List.mem_map.mp hb
    exact c.cellSize_bytes

theorem leafAt_fresh (d : PageData) : LeafAt (writeHeader LEAF_TABLE 0 d) [] PAGE_SIZE 0 0 := by
  obtain ⟨hlaid, hn, hp⟩ := laid_writeHeader_leaf d
  exact ⟨hlaid, hn, hp, List.Pairwise.nil⟩

end Pages

section Readers

variable {d : PageData} {cells pre post : List Cell} {c : Cell} {lo next prev i : Nat} {rowid : Int64}

theorem LeafAt.cell (h : LeafAt d cells lo next prev) (validate : Option Nat) (hget : cells[i]? = some c)
    (hv : ∀ needed, validate = some needed → needed ≤ 12) :
    ∃ off, cellOffset LEAF_HEADER_SIZE validate d i = .ok off ∧ off + c.bytes.length ≤ PAGE_SIZE ∧
      d.slice off c.bytes.length = c.bytes ∧ readU32 d off = .ok (cellHead c.bytes) ∧
      readRowid d (off + 4) = .ok c.rowid := by
  have hcell : (cells.map Cell.bytes)[i]? = some c.bytes := by
    rw [List.getElem?_map, hget]
    rfl
  obtain ⟨off, hoff, hfit, hslice, hhead, hkey⟩ := h.laid.key validate hcell hv
  rw [Cell.cellKey_bytes] at hkey
  exact ⟨off, hoff, hfit, hslice, hhead, hkey⟩

theorem LeafAt.search_absent (h : LeafAt d (pre ++ post) lo next prev)
    (hpre : ∀ x ∈ pre, x.rowid.toInt < rowid.toInt) (hpost : ∀ x ∈ post, rowid.toInt < x.rowid.toInt) :
    bisect (probeRowid (some 12) d rowid) (cellCount d) 0 (cellCount d) = .ok (false, pre.length) := by
  have hlaid := h.laid
  rw [List.map_append] at hlaid
  rw [search_miss hlaid (by simp) (below_bytes hpre) (above_bytes hpost), List.length_map]

theorem LeafAt.search_present (h : LeafAt d (pre ++ c :: post) lo next prev) :
    bisect (probeRowid (some 12) d c.rowid) (cellCount d) 0 (cellCount d) = .ok (true, pre.length) := by
  have hsorted := ascending_append.mp h.sorted
  have hlaid := h.laid
  rw [List.map_append, List.map_cons] at hlaid
  rw [search_hit hlaid (by simp) (below_bytes hsorted.2.2.1) c.cellKey_bytes
    (above_bytes hsorted.2.2.2.1), List.length_map]

theorem LeafAt.findCell_absent (h : LeafAt d (pre ++ post) lo next prev)
    (hpre : ∀ x ∈ pre, x.rowid.toInt < rowid.toInt) (hpost : ∀ x ∈ post, rowid.toInt < x.rowid.toInt) :
    findCell d rowid = .ok none := by
  rw [findCell, h.search_absent hpre hpost]

theorem LeafAt.findCell_present (h : LeafAt d (pre ++ c :: post) lo next prev) :
    ∃ off, findCell d c.rowid = .ok (some (off, cellHead c.bytes)) ∧ off + c.bytes.length ≤ PAGE_SIZE ∧
      d.slice off c.bytes.length = c.bytes := by
  have hget : (pre ++ c :: post)[pre.length]? = some c := by simp
  obtain ⟨off, hoff, hfit, hslice, hhead, -⟩ := h.cell (some 12) hget (by simp)
  refine ⟨off, ?_, hfit, hslice⟩
  rw [findCell, h.search_present]
  simp only [hoff, hhead, bind, Except.bind]
  rfl

theorem LeafAt.delete_absent (h : LeafAt d (pre ++ post) lo next prev)
    (hpre : ∀ x ∈ pre, x.rowid.toInt < rowid.toInt) (hpost : ∀ x ∈ post, rowid.toInt < x.rowid.toInt) :
    deleteFromLeaf rowid d = .ok (none, d) := by
  rw [deleteFromLeaf, h.search_absent hpre hpost]

theorem LeafAt.delete_present (h : LeafAt d (pre ++ c :: post) lo next prev)
    (hsmall : c.chain.headD 0 < 2 ^ 32) :
    ∃ d', deleteFromLeaf c.rowid d =
        .ok (some (if needsOverflow c.payload then some (c.chain.headD 0) else none), d') ∧
      LeafAt d' (pre ++ post) lo next prev := by
  have hlaid := h.laid
  rw [List.map_append, List.map_cons] at hlaid
  obtain ⟨d', hremove, hlaid', hlinks⟩ := hlaid.remove fun hflag => by
    rw [c.length_bytes, cellLen, if_pos ((Cell.flag_le_cellHead c).mp hflag)]
  rw [List.length_map, Cell.overflowFirst_bytes c hsmall] at hremove
  obtain ⟨hn, hp⟩ := links_of_sameLinks hlinks
  refine ⟨d', ?_, ?_, by rw [hn, h.next], by rw [hp, h.prev],
    h.sorted.sublist ((List.sublist_cons_self c post).append_left pre)⟩
  · rw [deleteFromLeaf, h.search_present]
    simp only [hremove]
    rfl
  · rw [List.map_append]
    exact hlaid'

end Readers

def content (cells : List Cell) : Nat := (cells.map fun c => c.bytes.length).sum

def FitsLeaf (cells : List Cell) : Prop :=
  LEAF_HEADER_SIZE + 2 * cells.length + content cells ≤ PAGE_SIZE

theorem content_append (cells cells' : List Cell) :
    content (cells ++ cells') = content cells + content cells' := by
  rw [content, List.map_append, List.sum_append, content, content]

theorem content_singleton (c : Cell) : content [c] = c.bytes.length := List.sum_singleton

section Calls

variable [Lz4Flex] {H : Heap} {total page lo next prev : Nat} {s : Pager} {d : PageData}
  {cells pre post done : List Cell} {c : Cell} {rowid : Int64}

theorem insertCellIntoLeaf_owns (hO : Owns H total s) (hp : H page = some d)
    (h : LeafAt d (pre ++ post) lo next prev) (hpre : ∀ x ∈ pre, x.rowid.toInt < c.rowid.toInt)
    (hpost : ∀ x ∈ post, c.rowid.toInt < x.rowid.toInt)
    (hroom : LEAF_HEADER_SIZE + 2 * ((pre ++ post).length + 1) + c.bytes.length ≤ lo) :
    Yields (insertCellIntoLeaf page c.rowid c.bytes) s fun _ s' => ∃ d',
      LeafAt d' (pre ++ c :: post) (lo - c.bytes.length) next prev ∧
        Owns (Function.update H page (some d')) total s' := by
  obtain ⟨d', hindex, hplace, h'⟩ := h.place hpre hpost hroom
  refine (modifyPage_owns () d' hO hp ?_).mono fun _ s' ⟨_, hO'⟩ => ⟨d', h', hO'⟩
  simp only [hindex, hplace]
  rfl

theorem insertCellIntoLeaf_fails (hO : Owns H total s) (hp : H page = some d)
    (h : LeafAt d (pre ++ c :: post) lo next prev) (cell : List UInt8) :
    Raises (insertCellIntoLeaf page c.rowid cell) s (duplicateRowid c.rowid) (Owns H total) := by
  have hsorted := ascending_append.mp h.sorted
  have hlaid := h.laid
  rw [List.map_append, List.map_cons] at hlaid
  refine modifyPage_fails hO hp ?_
  simp only [leafInsertIndex_hit hlaid (below_bytes hsorted.2.2.1) c.cellKey_bytes
    (above_bytes hsorted.2.2.2.1)]

theorem fillLeaf_owns (rest : List Cell) (hO : Owns H total s) (hp : H page = some d)
    (h : LeafAt d done (PAGE_SIZE - content done) next prev) (hsorted : Ascending (done ++ rest))
    (hfit : FitsLeaf (done ++ rest)) :
    Yields (fillLeaf page (rest.map fun c => (c.rowid, c.bytes))) s fun _ s' => ∃ d',
      LeafAt d' (done ++ rest) (PAGE_SIZE - content (done ++ rest)) next prev ∧
        Owns (Function.update H page (some d')) total s' := by
  induction rest generalizing H d done s with
  | nil =>
      rw [List.append_nil]
      refine .pure ⟨d, h, ?_⟩
      rw [← hp, Function.update_eq_self]
      exact hO
  | cons c rest ih =>
      have hbefore : ∀ x ∈ done, x.rowid.toInt < c.rowid.toInt := (ascending_append.mp hsorted).2.2.1
      rw [show done ++ c :: rest = (done ++ [c]) ++ rest by simp] at hsorted hfit ⊢
      have hlen : content (done ++ [c]) = content done + c.bytes.length := by
        rw [content_append, content_singleton]
      have hsize := hfit
      rw [FitsLeaf, content_append, hlen, List.length_append, List.length_append,
        List.length_singleton] at hsize
      rw [← List.append_nil done] at h
      refine (insertCellIntoLeaf_owns hO hp h hbefore (fun x hx => absurd hx List.not_mem_nil) (by
        rw [List.append_nil]
        omega)).bind fun _ s' ⟨d', h', hO'⟩ => ?_
      rw [List.append_nil, Nat.sub_sub, ← hlen] at h'
      refine (ih hO' (Function.update_self _ _ _) h' hsorted hfit).mono fun _ s'' ⟨d'', h'', hO''⟩ => ?_
      rw [Function.update_idem] at hO''
      exact ⟨d'', h'', hO''⟩

theorem initLeafPage_owns (hO : Owns H total s) (hp : H page = some d) :
    Yields (initLeafPage page) s fun _ s' => ∃ d', LeafAt d' [] PAGE_SIZE 0 0 ∧
      Owns (Function.update H page (some d')) total s' :=
  (writePage_owns _ hO hp).mono fun _ _ hO' => ⟨_, leafAt_fresh d, hO'⟩

theorem scanEntry_owns {validate : Option Nat} {i : Nat} {row : Row} (hO : Owns H total s)
    (h : LeafAt d cells lo next prev) (hget : cells[i]? = some c) (hstored : c.Stored H)
    (hv : ∀ needed, validate = some needed → needed ≤ 12) (hrow : deserializeRow c.payload = .ok row) :
    Yields (scanEntry validate d i) s fun e s' => e = (c.rowid, row) ∧ Owns H total s' := by
  obtain ⟨off, hoff, hfit, hslice, hhead, hkey⟩ := h.cell validate hget hv
  rw [scanEntry]
  simp only [hoff, hhead, hkey, ofRes, pure_bind]
  refine (readCellPayload_owns hO hstored hfit hslice).bind fun payload s' ⟨hpayload, hO'⟩ => ?_
  rw [hpayload, hrow]
  exact .pure ⟨rfl, hO'⟩

theorem scanRow_owns {validate : Option Nat} {i : Nat} {row : Row} (hO : Owns H total s)
    (h : LeafAt d cells lo next prev) (hget : cells[i]? = some c) (hstored : c.Stored H)
    (hv : ∀ needed, validate = some needed → needed ≤ 12) (hrow : deserializeRow c.payload = .ok row) :
    Yields (scanRow validate d i) s fun e s' => e = row ∧ Owns H total s' := by
  obtain ⟨off, hoff, hfit, hslice, hhead, -⟩ := h.cell validate hget hv
  rw [scanRow]
  simp only [hoff, hhead, ofRes, pure_bind]
  refine (readCellPayload_owns hO hstored hfit hslice).bind fun payload s' ⟨hpayload, hO'⟩ => ?_
  rw [hpayload, hrow]
  exact .pure ⟨rfl, hO'⟩

-- A leaf in two. The leaf behind it, if there is one, is told of its new neighbour.
structure SplitAt (H : Heap) (page next prev : Nat) (cells : List Cell) (mid : Nat) (r : InsertResult)
    (H' : Heap) : Prop where
  halves : ∃ c n dl dr, cells[mid]? = some c ∧ r = .Split c.rowid n ∧ H n = none ∧ n < 2 ^ 32 ∧
    H' page = some dl ∧ LeafAt dl (cells.take mid) (PAGE_SIZE - content (cells.take mid)) n prev ∧
    H' n = some dr ∧ LeafAt dr (cells.drop mid) (PAGE_SIZE - content (cells.drop mid)) next page ∧
    (next ≠ 0 → H' next = (H next).map fun dn => dn.write 10 (leBytes 4 n)) ∧
    ∀ q, q ≠ page → q ≠ n → (next ≠ 0 → q ≠ next) → H' q = H q

theorem splitLeaf_owns (hO : Owns H total s) (hp : H page = some d)
    (h : LeafAt d (pre ++ post) lo next prev) (hpre : ∀ x ∈ pre, x.rowid.toInt < c.rowid.toInt)
    (hpost : ∀ x ∈ post, c.rowid.toInt < x.rowid.toInt)
    (hleft : FitsLeaf ((pre ++ c :: post).take (splitAt pre.length (pre ++ c :: post).length)))
    (hright : FitsLeaf ((pre ++ c :: post).drop (splitAt pre.length (pre ++ c :: post).length)))
    (hnext : next ≠ 0 → next ≠ page ∧ ∃ dn, H next = some dn) (hroom : total < MAX_PAGES) :
    Yields (splitLeaf page c.rowid c.bytes) s fun r s' => ∃ H' total',
      SplitAt H page next prev (pre ++ c :: post) (splitAt pre.length (pre ++ c :: post).length) r H' ∧
      total ≤ total' ∧ total' ≤ total + 1 ∧ Owns H' total' s' := by
  have hsorted := h.sorted.insert hpre hpost
  have hpos := findIdx_cells hpre hpost
  have hnext32 : next < 2 ^ 32 := by rw [← h.next]; exact Buf.u32_lt _ _
  have hprev32 : prev < 2 ^ 32 := by rw [← h.prev]; exact Buf.u32_lt _ _
  have hpage32 := hO.small hp
  rw [splitLeaf, getNextLeaf, getPrevLeaf]
  simp only [bind_assoc, pure_bind]
  refine (getPage_owns hO hp).bind fun pg s₁ ⟨hdata, hO₁⟩ => ?_
  refine (getPage_owns hO₁ hp).bind fun pg' s₂ ⟨hdata', hO₂⟩ => ?_
  refine (getPage_owns hO₂ hp).bind fun pg'' s₃ ⟨hdata'', hO₃⟩ => ?_
  rw [hdata, hdata', hdata'', h.collect, h.next, h.prev]
  simp only [ofRes, pure_bind, hpos]
  have hinsert : ((pre ++ post).map fun c : Cell => (c.rowid, c.bytes)).insertIdx pre.length
      (c.rowid, c.bytes) = (pre ++ c :: post).map fun c : Cell => (c.rowid, c.bytes) := by
    have hlen : (pre.map fun c : Cell => (c.rowid, c.bytes)).length = pre.length := List.length_map _
    rw [List.map_append, ← hlen, insertIdx_append_length]
    simp
  rw [hinsert, List.length_map]
  generalize hcells : pre ++ c :: post = cells at *
  obtain ⟨mid, hmid⟩ : ∃ mid, mid = splitAt pre.length cells.length := ⟨_, rfl⟩
  rw [← hmid] at hleft hright ⊢
  have hlt : mid < cells.length := by
    have : 0 < cells.length := by
      rw [← hcells, List.length_append, List.length_cons]
      omega
    rw [hmid, splitAt]
    split_ifs <;> omega
  obtain ⟨x, hget⟩ : ∃ x, cells[mid]? = some x := ⟨_, List.getElem?_eq_getElem hlt⟩
  rw [List.getElem?_map, hget, Option.map_some]
  simp only
  refine (initLeafPage_owns hO₃ hp).bind fun _ s₄ ⟨d₁, h₁, hO₄⟩ => ?_
  rw [← List.map_take, ← List.map_drop]
  refine (fillLeaf_owns (cells.take mid) hO₄ (Function.update_self _ _ _) h₁
    (hsorted.sublist (List.take_sublist _ _)) hleft).bind fun _ s₅ ⟨dl, hl, hO₅⟩ => ?_
  rw [Function.update_idem] at hO₅
  rw [List.nil_append] at hl
  refine (allocatePage_owns hO₅ hroom).bind fun n s₆ ⟨hfree, d₂, total', hge, hle, hO₆⟩ => ?_
  have hn : n ≠ page := by
    rintro rfl
    rw [Function.update_self] at hfree
    cases hfree
  rw [Function.update_of_ne hn] at hfree
  have hn32 : n < 2 ^ 32 := hO₆.small (Function.update_self _ _ _)
  refine (initLeafPage_owns hO₆ (Function.update_self _ _ _)).bind fun _ s₇ ⟨d₃, h₃, hO₇⟩ => ?_
  rw [Function.update_idem] at hO₇
  refine (fillLeaf_owns (cells.drop mid) hO₇ (Function.update_self _ _ _) h₃
    (hsorted.sublist (List.drop_sublist _ _)) hright).bind fun _ s₈ ⟨dr, hr, hO₈⟩ => ?_
  rw [Function.update_idem] at hO₈
  rw [List.nil_append] at hr
  -- the links of the two halves
  have hpl : Function.update (Function.update H page (some dl)) n (some dr) page = some dl := by
    rw [Function.update_of_ne (Ne.symm hn), Function.update_self]
  refine (writePage_owns _ hO₈ hpl).bind fun _ s₉ hO₉ => ?_
  refine (writePage_owns _ hO₉ (Function.update_self _ _ _)).bind fun _ s₁₀ hO₁₀ => ?_
  rw [Function.update_idem] at hO₁₀
  have hpr : ∀ d, Function.update (Function.update (Function.update H page (some dl)) n (some dr)) page
      (some d) n = some dr := fun d => by
    rw [Function.update_of_ne hn, Function.update_self]
  refine (writePage_owns _ hO₁₀ (hpr _)).bind fun _ s₁₁ hO₁₁ => ?_
  refine (writePage_owns _ hO₁₁ (Function.update_self _ _ _)).bind fun _ s₁₂ hO₁₂ => ?_
  rw [Function.update_idem] at hO₁₂
  have hl' := (hl.setNext hn32).setPrev hprev32
  have hr' := (hr.setNext hnext32).setPrev hpage32
  by_cases hz : next = 0
  · rw [if_neg (fun hne => hne hz)]
    refine .pure ⟨_, total', ⟨x, n, _, _, hget, rfl, hfree, hn32, ?_, hl', Function.update_self _ _ _, hr',
      fun hne => absurd hz hne, fun q hqp hqn _ => ?_⟩, hge, hle, hO₁₂⟩
    · rw [Function.update_of_ne (Ne.symm hn), Function.update_self]
    · rw [Function.update_of_ne hqn, Function.update_of_ne hqp, Function.update_of_ne hqn,
        Function.update_of_ne hqp]
  · obtain ⟨hnp, dn, hdn⟩ := hnext hz
    have hnn : next ≠ n := by
      rintro rfl
      rw [hdn] at hfree
      cases hfree
    rw [if_pos hz]
    have hdn' : ∀ a b c, Function.update (Function.update (Function.update (Function.update H page
        (some dl)) n a) page b) n c next = some dn := fun a b c => by
      rw [Function.update_of_ne hnn, Function.update_of_ne hnp, Function.update_of_ne hnn,
        Function.update_of_ne hnp, hdn]
    refine (writePage_owns _ hO₁₂ (hdn' _ _ _)).bind fun _ s₁₃ hO₁₃ => ?_
    refine .pure ⟨_, total', ⟨x, n, _, _, hget, rfl, hfree, hn32, ?_, hl', ?_, hr', fun _ => ?_,
      fun q hqp hqn hqnext => ?_⟩, hge, hle, hO₁₃⟩
    · rw [Function.update_of_ne (Ne.symm hnp), Function.update_of_ne (Ne.symm hn), Function.update_self]
    · rw [Function.update_of_ne (Ne.symm hnn), Function.update_self]
    · rw [Function.update_self, hdn]
      rfl
    · rw [Function.update_of_ne (hqnext hz), Function.update_of_ne hqn, Function.update_of_ne hqp,
        Function.update_of_ne hqn, Function.update_of_ne hqp]

end Calls

end BTree

end Kkdb
