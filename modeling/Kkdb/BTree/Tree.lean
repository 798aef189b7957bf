import Kkdb.BTree.Insert
import Kkdb.BTree.Scan

namespace Kkdb

open Lib

namespace BTree

def ROWIDS_FROM : Int := -2 ^ 63

def ROWIDS_TO : Int := 2 ^ 63

theorem rowid_range (rowid : Int64) : ROWIDS_FROM ≤ rowid.toInt ∧ rowid.toInt < ROWIDS_TO :=
  ⟨rowid.le_toInt, rowid.toInt_lt⟩

-- A table's tree: the index over the whole range of rowids and the row of its leaves.
structure Tree (H : Heap) (root : Nat) (leaves : List Leaf) : Prop where
  index : ∃ depth inner, Sub H depth root ROWIDS_FROM ROWIDS_TO leaves inner ∧
    (inner ++ pagesOf leaves).Nodup
  forest : Forest H leaves

section Tree

variable {H H' : Heap} {root : Nat} {leaves : List Leaf} {rowid : Int64}

theorem Tree.leafAt (h : Tree H root leaves) :
    ∀ l ∈ leaves, ∃ d lo next prev, H l.page = some d ∧ LeafAt d l.cells lo next prev :=
  fun _ hl => h.forest.chain.leaf hl

theorem Tree.ascending (h : Tree H root leaves) : Ascending (cellsOf leaves) := by
  obtain ⟨depth, inner, hsub, -⟩ := h.index
  refine hsub.ascending (by decide) fun l hl => ?_
  obtain ⟨d, lo, next, prev, -, hleaf⟩ := h.leafAt l hl
  exact hleaf.sorted

theorem Tree.frame (h : Tree H root leaves) (hsame : ∀ q, H q ≠ none → H' q = H q) : Tree H' root leaves where
  index := by
    obtain ⟨depth, inner, hsub, hnodup⟩ := h.index
    refine ⟨depth, inner, hsub.frame fun q hq => hsame q ?_, hnodup⟩
    obtain ⟨d, hd⟩ := hsub.owned q hq
    simp [hd]
  forest := h.forest.frame fun q hq => hsame q (by
    obtain ⟨d, hd⟩ := h.forest.owned hq
    simp [hd])

theorem Tree.root_owned (h : Tree H root leaves) : ∃ d, H root = some d := by
  obtain ⟨depth, inner, hsub, -⟩ := h.index
  cases depth with
  | zero =>
      obtain ⟨cells, rfl, -, -⟩ := hsub
      obtain ⟨d, -, -, -, hd, -⟩ := h.leafAt ⟨root, cells⟩ List.mem_cons_self
      exact ⟨d, hd⟩
  | succ depth =>
      obtain ⟨d, -, -, -, hd, -⟩ := hsub
      exact ⟨d, hd⟩

end Tree

theorem Ascending.eq_of_rowid {cells : List Cell} {c c' : Cell} (h : Ascending cells) (hc : c ∈ cells)
    (hc' : c' ∈ cells) (heq : c.rowid = c'.rowid) : c = c' := by
  obtain ⟨pre, post, rfl⟩ := List.append_of_mem hc
  obtain ⟨-, -, hpre, hpost, -⟩ := ascending_append.mp h
  rcases List.mem_append.mp hc' with hmem | hmem
  · have := hpre c' hmem
    rw [heq] at this
    omega
  · rcases List.mem_cons.mp hmem with rfl | hmem
    · rfl
    · have := hpost c' hmem
      rw [heq] at this
      omega

def Has (leaves : List Leaf) (rowid : Int64) : Prop := ∃ c ∈ cellsOf leaves, c.rowid = rowid

instance (leaves : List Leaf) (rowid : Int64) : Decidable (Has leaves rowid) :=
  inferInstanceAs (Decidable (∃ c ∈ cellsOf leaves, c.rowid = rowid))

section Locate

variable [Lz4Flex] {H : Heap} {root total : Nat} {leaves : List Leaf} {s : Pager}

theorem Tree.depth_lt {depth : Nat} {inner : List Nat} (hO : Owns H total s)
    (hsub : Sub H depth root ROWIDS_FROM ROWIDS_TO leaves inner) (hnodup : (inner ++ pagesOf leaves).Nodup) :
    depth < total + 1 := by
  have hlen := hO.length_le (List.nodup_append.mp hnodup).1 hsub.owned
  have hdepth := hsub.depth_le
  omega

theorem Tree.locate (hO : Owns H total s) (h : Tree H root leaves) (rowid : Int64) :
    (∃ depth xs p pre post ys, depth < total + 1 ∧ leaves = xs ++ ⟨p, pre ++ post⟩ :: ys ∧
      Route H rowid depth root p ∧ (∀ x ∈ pre, x.rowid.toInt < rowid.toInt) ∧
      (∀ x ∈ post, rowid.toInt < x.rowid.toInt) ∧ ¬Has leaves rowid) ∨
    ∃ depth xs p pre c post ys, depth < total + 1 ∧ leaves = xs ++ ⟨p, pre ++ c :: post⟩ :: ys ∧
      Route H rowid depth root p ∧ c.rowid = rowid := by
  obtain ⟨depth, inner, hsub, hnodup⟩ := h.index
  have hdepth := Tree.depth_lt hO hsub hnodup
  obtain ⟨hlo, hhi⟩ := rowid_range rowid
  obtain ⟨xs, ⟨p, cells⟩, ys, rfl, hroute, hxs, hys⟩ := hsub.route hlo hhi
  obtain ⟨d, lo, -, hleaf⟩ := h.forest.middle
  rcases hleaf.sorted.split rowid with ⟨pre, post, hcells, hpre, hpost⟩ | ⟨pre, c, post, hcells, hc⟩
  · simp only at hcells
    subst hcells
    refine .inl ⟨depth, xs, p, pre, post, ys, hdepth, rfl, hroute, hpre, hpost, ?_⟩
    rintro ⟨c, hc, rfl⟩
    rcases (mem_cellsOf_middle ..).mp hc with hmem | hmem | hmem
    · have := hxs c hmem
      omega
    · rcases List.mem_append.mp hmem with hmem | hmem
      · have := hpre c hmem
        omega
      · have := hpost c hmem
        omega
    · have := hys c hmem
      omega
  · simp only at hcells
    subst hcells
    exact .inr ⟨depth, xs, p, pre, c, post, ys, hdepth, rfl, hroute, hc⟩

theorem findByRowid_absent {rowid : Int64} (hO : Owns H total s) (h : Tree H root leaves)
    (habsent : ¬Has leaves rowid) :
    Yields (findByRowid root rowid) s fun r s' => r = none ∧ Owns H total s' := by
  rcases h.locate hO rowid with ⟨depth, xs, p, pre, post, ys, hdepth, rfl, hroute, hpre, hpost, -⟩ |
    ⟨depth, xs, p, pre, c, post, ys, hdepth, rfl, hroute, hc⟩
  · obtain ⟨d, lo, hd, hleaf⟩ := h.forest.middle
    have hfuel : depth < s.header.totalPages + 1 := by rw [hO.total]; exact hdepth
    exact find_descends hroute hO hfuel fun fuel s' hO' => find_absent hO' hd hleaf hpre hpost
  · exact absurd ⟨c, (mem_cellsOf_middle ..).mpr (.inr (.inl (by simp))), hc⟩ habsent

theorem findByRowid_present {c : Cell} (hO : Owns H total s) (h : Tree H root leaves)
    (hc : c ∈ cellsOf leaves) (hwhole : c.Whole) :
    Yields (findByRowid root c.rowid) s fun r s' => r = some (c.rowid, c.row) ∧ Owns H total s' := by
  rcases h.locate hO c.rowid with ⟨depth, xs, p, pre, post, ys, hdepth, rfl, hroute, hpre, hpost, hno⟩ |
    ⟨depth, xs, p, pre, c', post, ys, hdepth, rfl, hroute, hc'⟩
  · exact absurd ⟨c, hc, rfl⟩ hno
  · have hmem : c' ∈ cellsOf (xs ++ ⟨p, pre ++ c' :: post⟩ :: ys) :=
      (mem_cellsOf_middle ..).mpr (.inr (.inl (by simp)))
    obtain rfl := h.ascending.eq_of_rowid hmem hc hc'
    obtain ⟨d, lo, hd, hleaf⟩ := h.forest.middle
    have hfuel : depth < s.header.totalPages + 1 := by rw [hO.total]; exact hdepth
    exact find_descends hroute hO hfuel fun fuel s' hO' =>
      find_present hO' hd hleaf (h.forest.stored c' hmem) hwhole

end Locate

section Erase

variable {leaves xs ys : List Leaf} {rowid : Int64} {p : Nat} {pre post : List Cell} {c : Cell}

def Leaf.erase (rowid : Int64) (l : Leaf) : Leaf :=
  ⟨l.page, l.cells.filter fun c => decide (c.rowid ≠ rowid)⟩

theorem cellsOf_erase (rowid : Int64) (leaves : List Leaf) :
    cellsOf (leaves.map (Leaf.erase rowid)) = (cellsOf leaves).filter fun c => decide (c.rowid ≠ rowid) := by
  rw [cellsOf, cellsOf, List.filter_flatMap, List.flatMap_map]
  rfl

theorem erase_absent (h : ¬Has leaves rowid) : leaves.map (Leaf.erase rowid) = leaves := by
  have hsame : ∀ l ∈ leaves, Leaf.erase rowid l = id l := by
    intro l hl
    have hfilter : (l.cells.filter fun c => decide (c.rowid ≠ rowid)) = l.cells := by
      refine List.filter_eq_self.mpr fun c hc => decide_eq_true fun heq => h ⟨c, ?_, heq⟩
      exact List.mem_flatMap.mpr ⟨l, hl, hc⟩
    rw [Leaf.erase, hfilter]
    rfl
  rw [List.map_congr_left hsame, List.map_id]

theorem erase_present (h : Ascending (cellsOf (xs ++ ⟨p, pre ++ c :: post⟩ :: ys))) :
    (xs ++ ⟨p, pre ++ c :: post⟩ :: ys).map (Leaf.erase c.rowid) = xs ++ ⟨p, pre ++ post⟩ :: ys := by
  have hflat : cellsOf (xs ++ ⟨p, pre ++ c :: post⟩ :: ys) =
      (cellsOf xs ++ pre) ++ c :: (post ++ cellsOf ys) := by simp
  rw [hflat, ascending_append] at h
  obtain ⟨-, -, hbefore, hbehind, -⟩ := h
  have hxs : ¬Has xs c.rowid := by
    rintro ⟨x, hx, heq⟩
    have := hbefore x (List.mem_append_left _ hx)
    rw [heq] at this
    exact Int.lt_irrefl _ this
  have hys : ¬Has ys c.rowid := by
    rintro ⟨x, hx, heq⟩
    have := hbehind x (List.mem_append_right _ hx)
    rw [heq] at this
    exact Int.lt_irrefl _ this
  have hpre : (pre.filter fun x => decide (x.rowid ≠ c.rowid)) = pre := by
    refine List.filter_eq_self.mpr fun x hx => decide_eq_true fun heq => ?_
    have := hbefore x (List.mem_append_right _ hx)
    rw [heq] at this
    exact Int.lt_irrefl _ this
  have hpost : (post.filter fun x => decide (x.rowid ≠ c.rowid)) = post := by
    refine List.filter_eq_self.mpr fun x hx => decide_eq_true fun heq => ?_
    have := hbehind x (List.mem_append_left _ hx)
    rw [heq] at this
    exact Int.lt_irrefl _ this
  have hleaf : Leaf.erase c.rowid ⟨p, pre ++ c :: post⟩ = ⟨p, pre ++ post⟩ := by
    rw [Leaf.erase]
    simp only [List.filter_append, List.filter_cons, ne_eq, not_true_eq_false, decide_false]
    rw [hpre, hpost]
    rfl
  rw [List.map_append, List.map_cons, erase_absent hxs, erase_absent hys, hleaf]

end Erase

section Delete

variable [Lz4Flex] {H : Heap} {root total : Nat} {leaves : List Leaf} {s : Pager}

theorem deleteByRowid_owns (rowid : Int64) (hO : Owns H total s) (h : Tree H root leaves) :
    Yields (deleteByRowid root rowid) s fun r s' => ∃ H', r = (decide (Has leaves rowid), root) ∧
      Tree H' root (leaves.map (Leaf.erase rowid)) ∧ Owns H' total s' := by
  rcases h.locate hO rowid with ⟨depth, xs, p, pre, post, ys, hdepth, rfl, hroute, hpre, hpost, hno⟩ |
    ⟨depth, xs, p, pre, c, post, ys, hdepth, rfl, hroute, rfl⟩
  · obtain ⟨d, lo, hd, hleaf⟩ := h.forest.middle
    have hfuel : depth < s.header.totalPages + 1 := by rw [hO.total]; exact hdepth
    have hrun : Yields (deleteFromPage rowid (s.header.totalPages + 1) root) s fun b s' =>
        b = false ∧ Owns H total s' :=
      deleteFromPage_descends Owns.serves hroute hO hfuel fun fuel s' hO' =>
        deleteFromPage_absent hO' hd hleaf hpre hpost
    rw [erase_absent hno, decide_eq_false hno]
    obtain ⟨b, s', hok, rfl, hO'⟩ := hrun
    exact ⟨(false, root), s', bind_ok hok, H, rfl, h, hO'⟩
  · have hfuel : depth < s.header.totalPages + 1 := by rw [hO.total]; exact hdepth
    have hrun : Yields (deleteFromPage c.rowid (s.header.totalPages + 1) root) s fun b s' => b = true ∧ ∃ H',
        Forest H' (xs ++ ⟨p, pre ++ post⟩ :: ys) ∧ (∀ q, q ≠ p → q ∉ c.chain → H' q = H q) ∧
        Owns H' total s' :=
      deleteFromPage_descends Owns.serves hroute hO hfuel fun fuel s' hO' => deleteFromPage_present hO' h.forest
    have hmem : c ∈ cellsOf (xs ++ ⟨p, pre ++ c :: post⟩ :: ys) :=
      (mem_cellsOf_middle ..).mpr (.inr (.inl (by simp)))
    rw [erase_present h.ascending, decide_eq_true ⟨c, hmem, rfl⟩]
    obtain ⟨b, s', hok, rfl, H', hF', hsame, hO'⟩ := hrun
    refine ⟨(true, root), s', bind_ok hok, H', rfl, ⟨?_, hF'⟩, hO'⟩
    obtain ⟨depth', inner, hsub, hnodup⟩ := h.index
    obtain ⟨hinner, -, hdisj⟩ := List.nodup_append.mp hnodup
    refine ⟨depth', inner, ?_, List.nodup_append.mpr ⟨hinner, hF'.nodup, fun q hq q' hq' heq => ?_⟩⟩
    · have herased := hsub.map (f := Leaf.erase c.rowid) (fun _ => rfl) fun l x hx => List.mem_of_mem_filter hx
      rw [erase_present h.ascending] at herased
      refine herased.frame fun q hq => hsame q ?_ fun hqc => ?_
      · rintro rfl
        exact hdisj q hq q (List.mem_append_left _ (by simp)) rfl
      · exact hdisj q hq q (mem_pagesOf_chain hmem hqc) rfl
    · have hin : q' ∈ pagesOf (xs ++ ⟨p, pre ++ c :: post⟩ :: ys) :=
        (pagesOf_add xs ys p pre post c).mem_iff.mpr (List.mem_append_right _ hq')
      exact hdisj q hq q' hin heq

end Delete

section Insert

theorem depthLimit_yields {s : Pager} :
    Yields depthLimit s fun fuel s' => fuel = s.header.totalPages + 1 ∧ s = s' := ⟨_, _, rfl, rfl, rfl⟩

variable [Lz4Flex] {H : Heap} {root total : Nat} {leaves : List Leaf} {s : Pager} {rowid : Int64}
  {payload : List UInt8}

def view (s : Pager) (p : Nat) : PageData := (s.peek p).getD Buf.zero

theorem Owns.view (hO : Owns H total s) : ∀ p d, H p = some d → BTree.view s p = d := by
  intro p d hp
  obtain ⟨pg, s', hrun, hdata, -⟩ := getPage_owns hO hp
  rw [BTree.view, Pager.peek, hrun]
  exact hdata

theorem insertPayload_owns (hO : Owns H total s) (h : Tree H root leaves) (habsent : ¬Has leaves rowid)
    (hshort : payload.length ≤ U32_MAX)
    (hadmits : Admits (BTree.view s) total rowid payload (total + 1) 1 [] root) :
    Yields (insertPayload root rowid payload) s fun root' s' => ∃ (H' : Heap) (leaves' : List Leaf)
      (total' : Nat) (c : Cell), Tree H' root' leaves' ∧
        (∃ pre post, cellsOf leaves = pre ++ post ∧ cellsOf leaves' = pre ++ c :: post) ∧
        c.rowid = rowid ∧ c.payload = payload ∧ Owns H' total' s' := by
  obtain ⟨depth, inner, hsub, hnodup⟩ := h.index
  obtain ⟨hlo, hhi⟩ := rowid_range rowid
  have hF := h.forest
  rw [← List.append_nil leaves, ← List.nil_append (leaves ++ [])] at hF hnodup
  have hrun := insertIntoPage_owns hO hO.view hsub hF hnodup hlo hhi (fun c hc heq => habsent ⟨c, hc, heq⟩)
    hshort hadmits
  rw [← hO.total] at hrun
  unfold insertPayload
  refine depthLimit_yields.bind fun fuel s₀ hlimit => ?_
  obtain ⟨rfl, rfl⟩ := hlimit
  refine hrun.bind fun r s₁ hstep => ?_
  obtain ⟨c, H₁, leaves', inner', total₁, hrowid, hpayload, ⟨hspread, hcells⟩, hout, _, hO₁⟩ := hstep
  have hF' := hspread.forest
  have hnodup' := hspread.nodup
  rw [List.nil_append, List.append_nil] at hF' hnodup'
  cases r with
  | Done =>
      exact .pure ⟨H₁, leaves', total₁, c, ⟨⟨depth, inner', hout, hnodup'⟩, hF'⟩, hcells, hrowid, hpayload, hO₁⟩
  | Split k n =>
      obtain ⟨la, lb, ia, ib, rfl, rfl, hsubl, hsubr, hn, hlk, hkh, -, hmore⟩ := hout
      refine (allocatePage_owns hO₁ (by omega)).bind fun p s₂ hstep => ?_
      obtain ⟨hfree, d, total₂, _, _, hO₂⟩ := hstep
      refine (initInteriorPage_owns hO₂ (Function.update_self _ _ _) hn).bind fun _ s₃ hstep => ?_
      obtain ⟨d₁, hint₁, hO₃⟩ := hstep
      rw [Function.update_idem] at hO₃
      have hroot : root < 2 ^ 32 := by
        obtain ⟨d', hd'⟩ := h.root_owned
        exact hO.small hd'
      have hint₁' : InteriorAt d₁ ([] ++ []) n := hint₁
      refine (insertInteriorCell_owns hO₃ (Function.update_self _ _ _) hint₁' (fun e he => (by cases he))
        (fun e he => (by cases he)) hroot (by decide)).bind fun _ s₄ hstep => ?_
      obtain ⟨d₂, hint₂, hO₄⟩ := hstep
      rw [Function.update_idem] at hO₄
      have howned : ∀ q ∈ ia ++ ib, ∃ d, H₁ q = some d := fun q hq =>
        (List.mem_append.mp hq).elim (hsubl.owned q) (hsubr.owned q)
      have hnot : p ∉ ia ++ ib := fun hmem => by
        obtain ⟨d', hd'⟩ := howned p hmem
        rw [hfree] at hd'
        cases hd'
      have hsame : ∀ q ∈ ia ++ ib, Function.update H₁ p (some d₂) q = H₁ q := fun q hq =>
        Function.update_of_ne (ne_of_mem_of_not_mem hq hnot) _ _
      have hgrown : Spread H [] leaves [] inner (Function.update H₁ p (some d₂)) (la ++ lb) (p :: (ia ++ ib)) :=
        hspread.grow hfree howned (List.Perm.refl _)
      have hF'' := hgrown.forest
      have hnodup'' := hgrown.nodup
      rw [List.nil_append, List.append_nil] at hF'' hnodup''
      refine .pure ⟨_, la ++ lb, total₂, c, ⟨⟨depth + 1, p :: (ia ++ ib), ?_, hnodup''⟩, hF''⟩, hcells, hrowid,
        hpayload, hO₄⟩
      refine ⟨d₂, [(root, k)], n, ia ++ ib, Function.update_self _ _ _, hint₂, rfl, List.pairwise_singleton _ _,
        fun e he => ?_, ⟨la, lb, ia, ib, rfl, rfl, hsubl.frame fun q hq => hsame q (List.mem_append_left _ hq),
          ⟨lb, [], ib, [], by simp, by simp, hsubr.frame fun q hq => hsame q (List.mem_append_right _ hq),
            rfl, rfl⟩⟩⟩
      rw [List.mem_singleton.mp he]
      exact ⟨hlk, hkh⟩

theorem insertPayload_fails (hO : Owns H total s) (h : Tree H root leaves) (hhas : Has leaves rowid)
    (hshort : payload.length ≤ U32_MAX)
    (hadmits : Admits (BTree.view s) total rowid payload (total + 1) 1 [] root) :
    Raises (insertPayload root rowid payload) s (duplicateRowid rowid) fun s' => ∃ H' total',
      Tree H' root leaves ∧ Owns H' total' s' := by
  rcases h.locate hO rowid with ⟨depth, xs, p, pre, post, ys, hdepth, rfl, hroute, hpre, hpost, hno⟩ |
    ⟨depth, xs, p, pre, c, post, ys, hdepth, rfl, hroute, rfl⟩
  · exact absurd hhas hno
  · obtain ⟨d, lo, hd, hleaf⟩ := h.forest.middle
    simp only at hd hleaf
    have hrun : Raises (insertIntoPage c.rowid payload (s.header.totalPages + 1) root) s
        (duplicateRowid c.rowid) fun s' => ∃ H' total',
          Tree H' root (xs ++ ⟨p, pre ++ c :: post⟩ :: ys) ∧ Owns H' total' s' := by
      rw [hO.total]
      refine insertIntoPage_descends_fails hO hO.view hroute hshort hadmits
        fun fuel above keys s' hO' hadmits' => ?_
      obtain ⟨off, hfind, -⟩ := hleaf.findCell_present
      rw [Admits, Reaches, hO.view p d hd, hleaf.laid.type, if_neg leaf_ne_interior, AdmitsLeaf] at hadmits'
      have hspace : cellLen payload + 2 ≤ available LEAF_HEADER_SIZE d := by
        by_contra hlt
        rw [if_pos (by omega), hfind] at hadmits'
        exact Option.some_ne_none _ (Except.ok.inj hadmits'.1)
      rw [if_neg (by omega)] at hadmits'
      rw [insertIntoPage, if_neg (by omega)]
      refine (getPage_owns hO' hd).bind_raises fun pg s₁ hstep => ?_
      obtain ⟨hdata, hO₁⟩ := hstep
      rw [hdata, hleaf.laid.type, if_pos rfl]
      refine (insertIntoLeaf_fails hO₁ h.forest hd hshort hadmits' hspace).mono fun s₂ hfail => ?_
      obtain ⟨H', total', hsame, -, -, hO₂⟩ := hfail
      exact ⟨H', total', h.frame hsame, hO₂⟩
    exact hrun.bind

theorem insertPayload_long (root : Nat) (rowid : Int64) (s : Pager) (hlong : U32_MAX < payload.length) :
    Raises (insertPayload root rowid payload) s (.Err (.BTreeError ("payload too large: " ++
      toString payload.length ++ " bytes exceeds u32::MAX"))) fun s' => s' = s := by
  have hrun : Raises (insertIntoPage rowid payload (s.header.totalPages + 1) root) s (.Err (.BTreeError
      ("payload too large: " ++ toString payload.length ++ " bytes exceeds u32::MAX"))) fun s' => s' = s := by
    rw [insertIntoPage, if_pos hlong]
    exact ⟨s, rfl, rfl⟩
  exact hrun.bind

end Insert

section Scan

variable [Lz4Flex] {α : Type} {H : Heap} {root total : Nat} {leaves : List Leaf} {s : Pager}
  {entry : PageData → Nat → PagerM α} {f : Cell → α} {limit : Option Nat}

theorem reads_entry {c : Cell} {validate : Option Nat} (hstored : c.Stored H) (hwhole : c.Whole)
    (hv : ∀ needed, validate = some needed → needed ≤ 12) :
    Reads H total (scanEntry validate) (fun c => (c.rowid, c.row)) c :=
  fun _ _ _ _ _ _ _ h hget hO => scanEntry_owns hO h hget hstored hv hwhole

theorem reads_row {c : Cell} {validate : Option Nat} (hstored : c.Stored H) (hwhole : c.Whole)
    (hv : ∀ needed, validate = some needed → needed ≤ 12) : Reads H total (scanRow validate) Cell.row c :=
  fun _ _ _ _ _ _ _ h hget hO => scanRow_owns hO h hget hstored hv hwhole

theorem Owns.page_ne_zero (hO : Owns H total s) : ∀ q d, H q = some d → q ≠ 0 := by
  intro q d hq
  have := hO.range hq
  omega

theorem Tree.length_le (hO : Owns H total s) (h : Tree H root leaves) : leaves.length ≤ total := by
  have hnodup : (leafPages leaves).Nodup := (List.nodup_append.mp h.forest.nodup).1
  have hlen := hO.length_le hnodup fun q hq => h.forest.owned (List.mem_append_left _ hq)
  rwa [leafPages, List.length_map] at hlen

theorem findLeftmostLeaf_owns (hO : Owns H total s) (h : Tree H root leaves) :
    Yields (findLeftmostLeaf root) s fun r s' => r = headPage leaves 0 ∧ Owns H total s' := by
  obtain ⟨depth, inner, hsub, hnodup⟩ := h.index
  have hdepth := Tree.depth_lt hO hsub hnodup
  rw [← hO.total] at hdepth
  exact findLeftmost_owns hO hsub h.leafAt hdepth

theorem findRightmostLeaf_owns (hO : Owns H total s) (h : Tree H root leaves) :
    Yields (findRightmostLeaf root) s fun r s' => r = lastPage 0 leaves ∧ Owns H total s' := by
  obtain ⟨depth, inner, hsub, hnodup⟩ := h.index
  have hdepth := Tree.depth_lt hO hsub hnodup
  rw [← hO.total] at hdepth
  exact findRightmost_owns hO hsub h.leafAt hdepth

theorem countRows_owns (hO : Owns H total s) (h : Tree H root leaves) :
    Yields (countRows root) s fun r s' => r = (cellsOf leaves).length ∧ Owns H total s' := by
  obtain ⟨depth, inner, hsub, hnodup⟩ := h.index
  have hdepth := Tree.depth_lt hO hsub hnodup
  rw [← hO.total] at hdepth
  exact count_owns hO hsub h.leafAt hdepth

theorem scan_fuel (limit : Option Nat) (hO : Owns H total s) (h : Tree H root leaves) :
    leaves.length < (limit.getD 0 + 1) * (s.header.totalPages + 1) := by
  have hlen := h.length_le hO
  rw [hO.total]
  exact Nat.lt_of_lt_of_le (by omega) (Nat.le_mul_of_pos_left _ (by omega))

theorem scanLeaves_forward (limit : Option Nat) (hO : Owns H total s) (h : Tree H root leaves)
    (hreads : ∀ c ∈ cellsOf leaves, Reads H total entry f c) :
    Yields (scanLeaves entry List.range nextLeaf limit (headPage leaves 0)) s fun r s' =>
      r = capped limit ((cellsOf leaves).map f) ∧ Owns H total s' := by
  have hrun : Yields (scanFrom entry List.range nextLeaf limit _ (headPage leaves 0) []) s _ :=
    scanFrom_owns id limit hO (h.forest.chain.visits hO.page_ne_zero) (scan_fuel limit hO h)
      map_range_getElem? (fun l hl c hc => hreads c (List.mem_flatMap.mpr ⟨l, hl, hc⟩)) fun n _ => Nat.zero_le n
  rw [List.nil_append] at hrun
  have hcells : (leaves.flatMap fun l => (id l.cells).map f) = (cellsOf leaves).map f := List.map_flatMap.symm
  rw [hcells] at hrun
  exact hrun

theorem scanLeaves_backward (limit : Option Nat) (hO : Owns H total s) (h : Tree H root leaves)
    (hreads : ∀ c ∈ cellsOf leaves, Reads H total entry f c) :
    Yields (scanLeaves entry backward prevLeaf limit (lastPage 0 leaves)) s fun r s' =>
      r = capped limit ((cellsOf leaves).map f).reverse ∧ Owns H total s' := by
  have hplaces : ∀ cells : List Cell, (backward cells.length).map (fun i => cells[i]?) =
      cells.reverse.map some := fun cells => by
    rw [backward, List.map_reverse, map_range_getElem?, List.map_reverse]
  have hfuel : leaves.reverse.length < (limit.getD 0 + 1) * (s.header.totalPages + 1) := by
    rw [List.length_reverse]
    exact scan_fuel limit hO h
  have hrun : Yields (scanFrom entry backward prevLeaf limit _ (lastPage 0 leaves) []) s _ :=
    scanFrom_owns List.reverse limit hO (h.forest.chain.visits_reverse hO.page_ne_zero) hfuel hplaces
      (fun l hl c hc => hreads c (List.mem_flatMap.mpr ⟨l, List.mem_reverse.mp hl, List.mem_reverse.mp hc⟩))
      fun n _ => Nat.zero_le n
  rw [List.nil_append] at hrun
  have hcells : (leaves.reverse.flatMap fun l => l.cells.reverse.map f) = ((cellsOf leaves).map f).reverse := by
    rw [cellsOf, List.map_flatMap, List.reverse_flatMap]
    refine congrArg (List.flatMap · leaves.reverse) (funext fun l => ?_)
    exact List.map_reverse
  rw [hcells] at hrun
  exact hrun

end Scan

end BTree

end Kkdb
