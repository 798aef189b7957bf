import Kkdb.BTree.Heap
import Kkdb.BTree.Page

namespace Kkdb

open Lib

namespace BTree

section Read

-- An interior page. Its cells are all of one length and none is ever removed, so they fill the
-- area above `lo`.
structure InteriorAt (d : PageData) (entries : List (Nat × Int64)) (right : Nat) : Prop where
  laid : Laid INTERIOR_TABLE INTERIOR_HEADER_SIZE d (entries.map fun e => makeInteriorCell e.1 e.2)
    (PAGE_SIZE - 12 * entries.length)
  link : rightChild d = right
  small : ∀ e ∈ entries, e.1 < 2 ^ 32
  small_right : right < 2 ^ 32

variable {right i : Nat} {d : PageData} {entries pre post : List (Nat × Int64)} {rowid : Int64}

theorem InteriorAt.cell {e : Nat × Int64} (h : InteriorAt d entries right) (validate : Option Nat)
    (hget : entries[i]? = some e) (hv : ∀ needed, validate = some needed → needed ≤ 12) :
    ∃ off, cellOffset INTERIOR_HEADER_SIZE validate d i = .ok off ∧ readU32 d off = .ok e.1 ∧
      readRowid d (off + 4) = .ok e.2 := by
  have hcell : (entries.map fun e => makeInteriorCell e.1 e.2)[i]? = some (makeInteriorCell e.1 e.2) := by
    rw [List.getElem?_map, hget]
    rfl
  obtain ⟨off, hoff, -, -, hhead, hkey⟩ := h.laid.key validate hcell hv
  rw [cellKey_makeInteriorCell] at hkey
  rw [makeInteriorCell, cellHead_append (h.small e (List.mem_of_getElem? hget))] at hhead
  exact ⟨off, hoff, hhead, hkey⟩

theorem InteriorAt.count (h : InteriorAt d entries right) : cellCount d = entries.length := by
  rw [h.laid.count, List.length_map]

theorem InteriorAt.fits (h : InteriorAt d entries right) :
    INTERIOR_HEADER_SIZE + 14 * entries.length ≤ PAGE_SIZE := by
  have harray := h.laid.array
  have hlo := h.laid.lo_le
  have hpage : PAGE_SIZE = 4096 := rfl
  have hhdr : INTERIOR_HEADER_SIZE = 10 := rfl
  rw [List.length_map] at harray
  omega

theorem InteriorAt.available (h : InteriorAt d entries right) :
    BTree.available INTERIOR_HEADER_SIZE d =
      PAGE_SIZE - 12 * entries.length - (INTERIOR_HEADER_SIZE + 2 * entries.length) := by
  rw [h.laid.available, List.length_map]

theorem InteriorAt.cells (h : InteriorAt d entries right) : interiorCells d = .ok entries := by
  rw [interiorCells, h.count]
  refine mapM_range_ok fun i e he => ?_
  obtain ⟨off, hoff, hchild, hkey⟩ := h.cell (some 12) he (by simp)
  simp only [interiorCell, hoff, hchild, hkey, bind, Except.bind]
  rfl

theorem InteriorAt.search (h : InteriorAt d (pre ++ post) right) {validate : Option Nat}
    (hv : ∀ needed, validate = some needed → needed ≤ 12)
    (hpre : ∀ e ∈ pre, e.2.toInt ≤ rowid.toInt) (hpost : ∀ e ∈ post, rowid.toInt < e.2.toInt) :
    bisect (probeKey validate d rowid) (cellCount d) 0 (cellCount d) = .ok (false, pre.length) := by
  have hlaid := h.laid
  rw [List.map_append] at hlaid
  have hsearch : bisect (probeKey validate d rowid) (cellCount d) 0 (cellCount d) =
      .ok (false, (pre.map fun e => makeInteriorCell e.1 e.2).length) := search_key hlaid hv
    (fun c hc => by
      obtain ⟨e, he, rfl⟩ := List.mem_map.mp hc
      rw [cellKey_makeInteriorCell]
      exact hpre e he)
    (fun c hc => by
      obtain ⟨e, he, rfl⟩ := List.mem_map.mp hc
      rw [cellKey_makeInteriorCell]
      exact hpost e he)
  rw [List.length_map] at hsearch
  exact hsearch

-- The child that the search goes to: that of the first key above the rowid, or the right one.
theorem InteriorAt.childFor (h : InteriorAt d (pre ++ post) right)
    (hpre : ∀ e ∈ pre, e.2.toInt ≤ rowid.toInt) (hpost : ∀ e ∈ post, rowid.toInt < e.2.toInt) :
    BTree.childFor d rowid = .ok ((post.head?.map Prod.fst).getD right) := by
  have hcount := h.count
  rw [List.length_append] at hcount
  rw [BTree.childFor, h.search (by simp) hpre hpost]
  cases post with
  | nil =>
      have hright : rightChild d = right := h.link
      by_cases hzero : cellCount d = 0
      · rw [if_pos hzero, hright]
        rfl
      · rw [if_neg hzero]
        simp only [hcount, List.length_nil, Nat.add_zero, Nat.lt_irrefl, if_false, hright]
        rfl
  | cons e post =>
      rw [List.length_cons] at hcount
      have hget : (pre ++ e :: post)[pre.length]? = some e := by simp
      obtain ⟨off, hoff, hchild, -⟩ := h.cell (some 4) hget (by simp)
      have hlt : pre.length < cellCount d := by omega
      rw [if_neg (by omega)]
      simp only [hlt, if_true, hoff, hchild, bind, Except.bind]
      rfl

theorem InteriorAt.childPages (h : InteriorAt d entries right) :
    BTree.childPages d = .ok (entries.map Prod.fst ++ [right]) := by
  have hfits := h.fits
  have hpage : PAGE_SIZE = 4096 := rfl
  have hhdr : INTERIOR_HEADER_SIZE = 10 := rfl
  have hmax : MAX_INTERIOR_CHILDREN = 293 := rfl
  have hright : rightChild d = right := h.link
  have hleft : (List.range (entries.map Prod.fst).length).mapM (fun i => do
      let off ← cellOffset INTERIOR_HEADER_SIZE (some 4) d i
      readU32 d off) = .ok (entries.map Prod.fst) := by
    refine mapM_range_ok fun i c hc => ?_
    rw [List.getElem?_map, Option.map_eq_some_iff] at hc
    obtain ⟨e, he, rfl⟩ := hc
    obtain ⟨off, hoff, hchild, -⟩ := h.cell (some 4) he (by simp)
    simp only [hoff, hchild, bind, Except.bind]
  rw [List.length_map] at hleft
  rw [BTree.childPages, h.count, Nat.min_eq_left (by omega), hleft, hright]
  simp only [bind, Except.bind]
  rw [if_neg (by omega)]
  rfl

end Read

section Write

variable {right newPage child : Nat} {d : PageData} {entries pre post : List (Nat × Int64)}
  {key : Int64}

theorem InteriorAt.place (key : Int64) (h : InteriorAt d (pre ++ post) right) (hchild : child < 2 ^ 32)
    (hroom : INTERIOR_HEADER_SIZE + 14 * ((pre ++ post).length + 1) ≤ PAGE_SIZE) :
    ∃ d', placeCell "interior" INTERIOR_HEADER_SIZE (makeInteriorCell child key) pre.length d = .ok d' ∧
      InteriorAt d' (pre ++ (child, key) :: post) right := by
  have hlaid := h.laid
  have hpage : PAGE_SIZE = 4096 := rfl
  have hhdr : INTERIOR_HEADER_SIZE = 10 := rfl
  rw [List.map_append] at hlaid
  obtain ⟨d', hrun, hlaid', hlinks⟩ := hlaid.place "interior"
    (show 12 ≤ (makeInteriorCell child key).length by simp) (by
      rw [← List.map_append, List.length_map, length_makeInteriorCell]
      omega)
  rw [List.length_map] at hrun
  refine ⟨d', hrun, ⟨?_, ?_, ?_, h.small_right⟩⟩
  · rw [List.map_append, List.map_cons]
    have hlo : PAGE_SIZE - 12 * (pre ++ post).length - (makeInteriorCell child key).length =
        PAGE_SIZE - 12 * (pre ++ (child, key) :: post).length := by
      rw [length_makeInteriorCell]
      simp only [List.length_append, List.length_cons]
      omega
    rw [← hlo]
    exact hlaid'
  · rw [rightChild, hlinks.u32 (by omega) (by omega)]
    exact h.link
  · intro e he
    rcases List.mem_append.mp he with he | he
    · exact h.small e (List.mem_append_left _ he)
    · rcases List.mem_cons.mp he with rfl | he
      · exact hchild
      · exact h.small e (List.mem_append_right _ he)

theorem InteriorAt.dividerIndex (front : List (Nat × Int64)) {mid : List (Nat × Int64)}
    (h : InteriorAt d entries right)
    (hentries : entries = front ++ (mid ++ (child, key) :: post)) (hmid : ∀ e ∈ mid, e.2 ≠ key) :
    BTree.dividerIndex d key (mid ++ (child, key) :: post).length front.length =
      .ok (some (front.length + mid.length)) := by
  induction mid generalizing front with
  | nil =>
      have hget : entries[front.length]? = some (child, key) := by rw [hentries]; simp
      obtain ⟨off, hoff, -, hkey⟩ := h.cell (some 12) hget (by simp)
      rw [List.nil_append, List.length_cons]
      simp only [BTree.dividerIndex, hoff, hkey, bind, Except.bind, if_true]
      rfl
  | cons e mid ih =>
      have hget : entries[front.length]? = some e := by rw [hentries]; simp
      obtain ⟨off, hoff, -, hkey⟩ := h.cell (some 12) hget (by simp)
      have hne : e.2 ≠ key := hmid e List.mem_cons_self
      have hrest := ih (front ++ [e]) (by rw [hentries]; simp)
        (fun e' he' => hmid e' (List.mem_cons_of_mem _ he'))
      have hfront : (front ++ [e]).length = front.length + 1 := by simp
      rw [hfront] at hrest
      rw [List.cons_append, List.length_cons]
      simp only [BTree.dividerIndex, hoff, hkey, bind, Except.bind, hne, if_false, hrest]
      rw [List.length_cons, Nat.add_right_comm, Nat.add_assoc]

theorem InteriorAt.replaceChild (h : InteriorAt d (pre ++ (child, key) :: post) right)
    (hpre : ∀ e ∈ pre, e.2 ≠ key) (hnew : newPage < 2 ^ 32) :
    ∃ d', BTree.replaceChild key newPage d = .ok d' ∧
      InteriorAt d' (relink pre.length newPage right (pre ++ (child, key) :: post)).1
        (relink pre.length newPage right (pre ++ (child, key) :: post)).2 := by
  have hhdr : INTERIOR_HEADER_SIZE = 10 := rfl
  have hindex := h.dividerIndex [] rfl hpre
  rw [← h.count, List.length_nil, Nat.zero_add] at hindex
  cases post with
  | nil =>
      have hget : (pre ++ [(child, key)])[pre.length + 1]? = none := by simp
      have hlast : ¬pre.length + 1 < cellCount d := by
        rw [h.count]
        simp
      refine ⟨d.write 6 (leBytes 4 newPage), ?_, ?_⟩
      · simp only [BTree.replaceChild, hindex, bind, Except.bind, hlast, if_false]
        rfl
      · rw [relink, hget]
        exact ⟨h.laid.writeLink 6 (leBytes 4 newPage) (by omega) (by simp [hhdr]),
          Buf.u32_write_same _ (by decide) (by simpa using hnew), h.small, hnew⟩
  | cons e post =>
      have hget : (pre ++ (child, key) :: e :: post)[pre.length + 1]? = some e := by
        rw [List.getElem?_append_right (by omega)]
        simp
      have hmore : pre.length + 1 < cellCount d := by
        rw [h.count]
        simp
      have hlaid := h.laid
      rw [show pre ++ (child, key) :: e :: post = (pre ++ [(child, key)]) ++ e :: post by simp,
        List.map_append, List.map_cons] at hlaid
      obtain ⟨off, hoff, hfit, hpatch, hlinks⟩ := hlaid.patchHead (length_leBytes 4 newPage)
      have hset : (pre ++ (child, key) :: e :: post).set (pre.length + 1) (newPage, e.2) =
          (pre ++ [(child, key)]) ++ (newPage, e.2) :: post := by
        rw [List.set_append_right _ _ (by omega)]
        simp
      rw [List.length_map, List.length_append, List.length_singleton] at hoff
      refine ⟨d.write off (leBytes 4 newPage), ?_, ?_⟩
      · simp only [BTree.replaceChild, hindex, bind, Except.bind, hmore, if_true, hoff]
        rw [if_neg (by omega)]
        rfl
      · rw [relink, hget]
        simp only [hset]
        refine ⟨?_, ?_, ?_, h.small_right⟩
        · rw [List.map_append, List.map_cons]
          have hcell : leBytes 4 newPage ++ (makeInteriorCell e.1 e.2).drop 4 =
              makeInteriorCell newPage e.2 := by
            rw [makeInteriorCell, List.drop_left' (length_leBytes 4 e.1)]
            rfl
          rw [hcell] at hpatch
          simpa using hpatch
        · rw [rightChild, hlinks.u32 (by omega) (by omega)]
          exact h.link
        · intro e' he'
          rcases List.mem_append.mp he' with he' | he'
          · exact h.small e' (by simp only [List.mem_append, List.mem_cons] at he' ⊢; tauto)
          · rcases List.mem_cons.mp he' with rfl | he'
            · exact hnew
            · exact h.small e' (by simp only [List.mem_append, List.mem_cons]; tauto)

end Write

section Items

variable {right newPage child : Nat} {hi : Int} {entries pre post : List (Nat × Int64)} {key : Int64}

-- The children of an interior page, each with the bound its rowids stay below. The bound of the
-- right child is that of the page.
def items (entries : List (Nat × Int64)) (right : Nat) (hi : Int) : List (Nat × Int) :=
  entries.map (fun e => (e.1, e.2.toInt)) ++ [(right, hi)]

theorem items_append (pre post : List (Nat × Int64)) (right : Nat) (hi : Int) :
    items (pre ++ post) right hi = pre.map (fun e => (e.1, e.2.toInt)) ++ items post right hi := by
  rw [items, items, List.map_append, List.append_assoc]

theorem items_relink {bound : Int} {rest : List (Nat × Int)}
    (h : items post right hi = (child, bound) :: rest) :
    items (relink pre.length newPage right (pre ++ (child, key) :: post)).1
        (relink pre.length newPage right (pre ++ (child, key) :: post)).2 hi =
      pre.map (fun e => (e.1, e.2.toInt)) ++ (child, key.toInt) :: (newPage, bound) :: rest := by
  cases post with
  | nil =>
      have hget : (pre ++ [(child, key)])[pre.length + 1]? = none := by simp
      rw [relink, hget, items_append]
      rw [items, List.map_nil, List.nil_append, List.cons.injEq, Prod.mk.injEq] at h
      obtain ⟨⟨-, rfl⟩, rfl⟩ := h
      rfl
  | cons e post =>
      have hget : (pre ++ (child, key) :: e :: post)[pre.length + 1]? = some e := by
        rw [List.getElem?_append_right (by omega)]
        simp
      have hset : (pre ++ (child, key) :: e :: post).set (pre.length + 1) (newPage, e.2) =
          pre ++ (child, key) :: (newPage, e.2) :: post := by
        rw [List.set_append_right _ _ (by omega)]
        simp
      rw [relink, hget]
      simp only [hset]
      rw [items_append]
      rw [items, List.map_cons, List.cons_append, List.cons.injEq, Prod.mk.injEq] at h
      obtain ⟨⟨-, rfl⟩, rfl⟩ := h
      rfl

theorem length_relink (right newPage child : Nat) (pre post : List (Nat × Int64)) (key : Int64) :
    (relink pre.length newPage right (pre ++ (child, key) :: post)).1.length =
      (pre ++ post).length + 1 := by
  unfold relink
  split
  · simp only [List.length_set, List.length_append, List.length_cons]
    omega
  · simp only [List.length_append, List.length_cons]
    omega

theorem items_take {mid : Nat} (hget : entries[mid]? = some (child, key)) :
    items (entries.take mid) child key.toInt = (items entries right hi).take (mid + 1) := by
  obtain ⟨hlt, heq⟩ := List.getElem?_eq_some_iff.mp hget
  rw [items, items, List.take_append_of_le_length (by rw [List.length_map]; omega), ← List.map_take,
    List.take_succ_eq_append_getElem hlt, heq, List.map_append]
  rfl

theorem items_drop {mid : Nat} (hlt : mid < entries.length) :
    items (entries.drop (mid + 1)) right hi = (items entries right hi).drop (mid + 1) := by
  rw [items, items, List.drop_append_of_le_length (by rw [List.length_map]; omega), List.map_drop]

theorem keys_relink (right newPage child : Nat) (pre post : List (Nat × Int64)) (key : Int64) :
    (relink pre.length newPage right (pre ++ (child, key) :: post)).1.map Prod.snd =
      (pre ++ (child, key) :: post).map Prod.snd := by
  unfold relink
  split
  · rename_i c k hget
    obtain ⟨hlt, heq⟩ := List.getElem?_eq_some_iff.mp hget
    have hlt' : pre.length + 1 < ((pre ++ (child, key) :: post).map Prod.snd).length := by
      simpa using hlt
    have hself : ((pre ++ (child, key) :: post).map Prod.snd).set (pre.length + 1)
        ((pre ++ (child, key) :: post).map Prod.snd)[pre.length + 1] =
        (pre ++ (child, key) :: post).map Prod.snd := List.set_getElem_self hlt'
    rw [List.getElem_map, heq] at hself
    simp only [List.map_set]
    exact hself
  · rfl

theorem small_relink (hsmall : ∀ e ∈ pre ++ (child, key) :: post, e.1 < 2 ^ 32) (hright : right < 2 ^ 32)
    (hnew : newPage < 2 ^ 32) :
    (∀ e ∈ (relink pre.length newPage right (pre ++ (child, key) :: post)).1, e.1 < 2 ^ 32) ∧
      (relink pre.length newPage right (pre ++ (child, key) :: post)).2 < 2 ^ 32 := by
  unfold relink
  split
  · refine ⟨fun e he => ?_, hright⟩
    rcases List.mem_or_eq_of_mem_set he with he | rfl
    · exact hsmall e he
    · exact hnew
  · exact ⟨hsmall, hnew⟩

end Items

def Increasing (entries : List (Nat × Int64)) : Prop :=
  (entries.map fun e => e.2.toInt).Pairwise (· < ·)

theorem Increasing.of_keys {cells cells' : List (Nat × Int64)} (h : Increasing cells)
    (hkeys : cells'.map Prod.snd = cells.map Prod.snd) : Increasing cells' := by
  have hmap : ∀ l : List (Nat × Int64), l.map (fun e => e.2.toInt) = (l.map Prod.snd).map Int64.toInt :=
    fun l => by rw [List.map_map]; rfl
  rw [Increasing, hmap, hkeys, ← hmap]
  exact h

theorem Increasing.sublist {cells cells' : List (Nat × Int64)} (h : Increasing cells)
    (hsub : cells'.Sublist cells) : Increasing cells' :=
  List.Pairwise.sublist (hsub.map _) h

section Calls

variable [Lz4Flex] {H : Heap} {total page right newPage child : Nat} {s : Pager} {d : PageData}
  {entries pre post done : List (Nat × Int64)} {key rowid : Int64}

theorem initInteriorPage_owns (hO : Owns H total s) (hp : H page = some d) (hright : right < 2 ^ 32) :
    Yields (initInteriorPage page right) s fun _ s' => ∃ d', InteriorAt d' [] right ∧
      Owns (Function.update H page (some d')) total s' := by
  obtain ⟨hlaid, hlink⟩ := laid_writeHeader_interior d hright
  exact (writePage_owns _ hO hp).mono fun _ s' hO' =>
    ⟨_, ⟨hlaid, hlink, fun e he => absurd he List.not_mem_nil, hright⟩, hO'⟩

theorem insertInteriorCell_owns (hO : Owns H total s) (hp : H page = some d)
    (h : InteriorAt d (pre ++ post) right) (hpre : ∀ e ∈ pre, e.2.toInt ≤ key.toInt)
    (hpost : ∀ e ∈ post, key.toInt < e.2.toInt) (hchild : child < 2 ^ 32)
    (hroom : INTERIOR_HEADER_SIZE + 14 * ((pre ++ post).length + 1) ≤ PAGE_SIZE) :
    Yields (insertInteriorCell page key child) s fun _ s' => ∃ d',
      InteriorAt d' (pre ++ (child, key) :: post) right ∧
        Owns (Function.update H page (some d')) total s' := by
  obtain ⟨d', hplace, h'⟩ := h.place key hchild hroom
  refine (modifyPage_owns () d' hO hp ?_).mono fun _ s' ⟨_, hO'⟩ => ⟨d', h', hO'⟩
  rw [h.search no_needed hpre hpost]
  simp only [hplace]
  rfl

theorem fillInterior_owns (rest : List (Nat × Int64)) (hO : Owns H total s) (hp : H page = some d)
    (h : InteriorAt d done right)
    (hsorted : Increasing (done ++ rest)) (hsmall : ∀ e ∈ rest, e.1 < 2 ^ 32)
    (hfit : INTERIOR_HEADER_SIZE + 14 * (done ++ rest).length ≤ PAGE_SIZE) :
    Yields (fillInterior page rest) s fun _ s' => ∃ d', InteriorAt d' (done ++ rest) right ∧
      Owns (Function.update H page (some d')) total s' := by
  induction rest generalizing done d H s with
  | nil =>
      refine .pure ⟨d, by rw [List.append_nil]; exact h, ?_⟩
      rw [← hp, Function.update_eq_self]
      exact hO
  | cons e rest ih =>
      obtain ⟨c, k⟩ := e
      have hbefore : ∀ e ∈ done, e.2.toInt ≤ k.toInt := by
        intro e he
        rw [Increasing, List.map_append, List.pairwise_append] at hsorted
        exact Int.le_of_lt (hsorted.2.2 _ (List.mem_map_of_mem he) _ List.mem_cons_self)
      rw [← List.append_nil done] at h
      refine (insertInteriorCell_owns hO hp h hbefore (fun e he => absurd he List.not_mem_nil)
        (hsmall _ List.mem_cons_self) ?_).bind fun _ s' ⟨d', h', hO'⟩ => ?_
      · simp only [List.length_append, List.length_cons, List.length_nil] at hfit ⊢
        omega
      · rw [show done ++ (c, k) :: rest = (done ++ [(c, k)]) ++ rest by simp] at hsorted hfit ⊢
        refine (ih hO' (Function.update_self _ _ _) h' hsorted
          (fun e he => hsmall e (List.mem_cons_of_mem _ he)) hfit).mono fun _ s'' ⟨d'', h'', hO''⟩ => ?_
        rw [Function.update_idem] at hO''
        exact ⟨d'', h'', hO''⟩

theorem replaceChildPointer_owns (hO : Owns H total s) (hp : H page = some d)
    (h : InteriorAt d (pre ++ (child, key) :: post) right) (hpre : ∀ e ∈ pre, e.2 ≠ key)
    (hnew : newPage < 2 ^ 32) :
    Yields (replaceChildPointer page key newPage) s fun _ s' => ∃ d',
      InteriorAt d' (relink pre.length newPage right (pre ++ (child, key) :: post)).1
        (relink pre.length newPage right (pre ++ (child, key) :: post)).2 ∧
        Owns (Function.update H page (some d')) total s' := by
  obtain ⟨d', hreplace, h'⟩ := h.replaceChild hpre hnew
  refine (modifyPage_owns () d' hO hp ?_).mono fun _ s' ⟨_, hO'⟩ => ⟨d', h', hO'⟩
  rw [hreplace]
  rfl

-- An interior page in two: the key of the cell at place `mid` goes up, its child becomes the
-- right child of the left half.
structure Halved (H : Heap) (page : Nat) (cells : List (Nat × Int64)) (final : Nat) (r : InsertResult)
    (total : Nat) (s : Pager) : Prop where
  halves : ∃ mid c k n dl dr total', 1 ≤ mid ∧ cells[mid]? = some (c, k) ∧ r = .Split k n ∧
    H n = none ∧ InteriorAt dl (cells.take mid) c ∧ InteriorAt dr (cells.drop (mid + 1)) final ∧
    total' ≤ total + 1 ∧ total ≤ total' ∧
    Owns (Function.update (Function.update H page (some dl)) n (some dr)) total' s

theorem splitInterior_owns (hO : Owns H total s) (hp : H page = some d)
    (h : InteriorAt d (pre ++ post) right) (hsorted : Increasing (pre ++ (child, key) :: post))
    (hfull : PAGE_SIZE < INTERIOR_HEADER_SIZE + 14 * ((pre ++ post).length + 1))
    (hchild : child < 2 ^ 32) (hnew : newPage < 2 ^ 32) (hroom : total < MAX_PAGES) :
    Yields (splitInterior page key child newPage) s fun r s' =>
      Halved H page (relink pre.length newPage right (pre ++ (child, key) :: post)).1
        (relink pre.length newPage right (pre ++ (child, key) :: post)).2 r total s' := by
  have hpage : PAGE_SIZE = 4096 := rfl
  have hhdr : INTERIOR_HEADER_SIZE = 10 := rfl
  have hfits := h.fits
  have hpos : (pre ++ post).findIdx (fun c => decide (key < c.2)) = pre.length := by
    rw [Increasing, List.map_append, List.pairwise_append, List.map_cons, List.pairwise_cons] at hsorted
    obtain ⟨-, ⟨hpost, -⟩, hpre⟩ := hsorted
    refine findIdx_append_of_split (fun e he => ?_) fun e he => ?_
    · have hlt : e.2.toInt < key.toInt := hpre _ (List.mem_map_of_mem he) _ List.mem_cons_self
      exact decide_eq_false fun hgt => by
        have := Int64.lt_iff_toInt_lt.mp hgt
        omega
    · exact decide_eq_true (Int64.lt_iff_toInt_lt.mpr (hpost _ (List.mem_map_of_mem he)))
  have hlen := length_relink right newPage child pre post key
  have hsorted' := hsorted.of_keys (keys_relink right newPage child pre post key)
  obtain ⟨hsmall, hfinal⟩ := small_relink (fun e he => by
      rcases List.mem_append.mp he with he | he
      · exact h.small e (List.mem_append_left _ he)
      · rcases List.mem_cons.mp he with rfl | he
        · exact hchild
        · exact h.small e (List.mem_append_right _ he)) h.small_right hnew
  rw [splitInterior]
  refine (getPage_owns hO hp).bind fun pg s₁ ⟨hdata, hO₁⟩ => ?_
  have hright : rightChild pg.data = right := by rw [hdata]; exact h.link
  rw [hdata, h.cells]
  rw [hdata] at hright
  simp only [ofRes, pure_bind, hpos, insertIdx_append_length, hright]
  generalize relink pre.length newPage right (pre ++ (child, key) :: post) = e at *
  obtain ⟨cells, final⟩ := e
  simp only at hlen hsorted' hsmall hfinal ⊢
  obtain ⟨mid, hmid⟩ : ∃ mid, mid = splitAt pre.length cells.length := ⟨_, rfl⟩
  have hmid' : 1 ≤ mid ∧ mid < cells.length := by
    rw [hmid, splitAt]
    split_ifs <;> omega
  obtain ⟨⟨c, k⟩, hget⟩ : ∃ e, cells[mid]? = some e := ⟨_, List.getElem?_eq_getElem hmid'.2⟩
  rw [← hmid, hget]
  have hc : c < 2 ^ 32 := hsmall _ (List.mem_of_getElem? hget)
  refine (initInteriorPage_owns hO₁ hp hc).bind fun _ s₂ ⟨d₁, h₁, hO₂⟩ => ?_
  refine (fillInterior_owns (cells.take mid) hO₂ (Function.update_self _ _ _) h₁
    (hsorted'.sublist (List.take_sublist _ _)) (fun e he => hsmall e (List.mem_of_mem_take he)) (by
      rw [List.nil_append, List.length_take]
      omega)).bind fun _ s₃ ⟨dl, hl, hO₃⟩ => ?_
  rw [Function.update_idem] at hO₃
  rw [List.nil_append] at hl
  refine (allocatePage_owns hO₃ hroom).bind fun n s₄ ⟨hnone, d₂, total', hle, hle', hO₄⟩ => ?_
  have hn : n ≠ page := by
    rintro rfl
    rw [Function.update_self] at hnone
    cases hnone
  rw [Function.update_of_ne hn] at hnone
  refine (initInteriorPage_owns hO₄ (Function.update_self _ _ _) hfinal).bind
    fun _ s₅ ⟨d₃, h₃, hO₅⟩ => ?_
  rw [Function.update_idem] at hO₅
  refine (fillInterior_owns (cells.drop (mid + 1)) hO₅ (Function.update_self _ _ _) h₃
    (hsorted'.sublist (List.drop_sublist _ _)) (fun e he => hsmall e (List.mem_of_mem_drop he)) (by
      rw [List.nil_append, List.length_drop]
      omega)).bind fun _ s₆ ⟨dr, hr, hO₆⟩ => ?_
  rw [Function.update_idem] at hO₆
  rw [List.nil_append] at hr
  exact .pure ⟨mid, c, k, n, dl, dr, total', hmid'.1, hget, rfl, hnone, hl, hr, hle', hle, hO₆⟩

theorem addChild_owns (hO : Owns H total s) (hp : H page = some d)
    (h : InteriorAt d (pre ++ post) right) (hsorted : Increasing (pre ++ (child, key) :: post))
    (hchild : child < 2 ^ 32) (hnew : newPage < 2 ^ 32) (hroom : total < MAX_PAGES) :
    Yields (addChild page key child newPage) s fun r s' =>
      (r = .Done ∧ ∃ d', InteriorAt d' (relink pre.length newPage right (pre ++ (child, key) :: post)).1
        (relink pre.length newPage right (pre ++ (child, key) :: post)).2 ∧
        Owns (Function.update H page (some d')) total s') ∨
      Halved H page (relink pre.length newPage right (pre ++ (child, key) :: post)).1
        (relink pre.length newPage right (pre ++ (child, key) :: post)).2 r total s' := by
  have hpage : PAGE_SIZE = 4096 := rfl
  have hhdr : INTERIOR_HEADER_SIZE = 10 := rfl
  have hkeys := hsorted
  rw [Increasing, List.map_append, List.pairwise_append, List.map_cons, List.pairwise_cons] at hkeys
  obtain ⟨-, ⟨hpost, -⟩, hpre⟩ := hkeys
  have hbefore : ∀ e ∈ pre, e.2.toInt < key.toInt := fun e he =>
    hpre _ (List.mem_map_of_mem he) _ List.mem_cons_self
  have hafter : ∀ e ∈ post, key.toInt < e.2.toInt := fun e he => hpost _ (List.mem_map_of_mem he)
  rw [addChild]
  refine (getPage_owns hO hp).bind fun pg s₁ ⟨hdata, hO₁⟩ => ?_
  rw [hdata, h.available]
  split_ifs with hroom'
  · refine (insertInteriorCell_owns hO₁ hp h (fun e he => Int.le_of_lt (hbefore e he)) hafter hchild
      (by omega)).bind fun _ s₂ ⟨d₁, h₁, hO₂⟩ => ?_
    refine (replaceChildPointer_owns hO₂ (Function.update_self _ _ _) h₁ (fun e he heq => ?_)
      hnew).bind fun _ s₃ ⟨d₂, h₂, hO₃⟩ => ?_
    · have := hbefore e he
      rw [heq] at this
      exact Int.lt_irrefl _ this
    · rw [Function.update_idem] at hO₃
      exact .pure (.inl ⟨rfl, d₂, h₂, hO₃⟩)
  · exact (splitInterior_owns hO₁ hp h hsorted (by omega) hchild hnew hroom).mono fun _ _ => .inr

end Calls

end BTree

end Kkdb
