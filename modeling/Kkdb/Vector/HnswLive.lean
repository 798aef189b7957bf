import Kkdb.Lib.State
import Kkdb.Vector.HnswFormat

namespace Kkdb.Vector

open Lib LayerSearch

-- What a graph goes through. A hash map may list its entries in another order at any time.
inductive HnswOp where
  | Insert (rowid : UInt64) (vec : List F32) (drawn : Nat)
  | LazyDelete (rowid : UInt64)
  | RebuildFromIter (items : List (UInt64 × List F32 × Nat))
  | Reload
  | Rehash (nodes : List (UInt64 × List (List UInt64))) (vectors : List (UInt64 × List F32))

abbrev Live := List (UInt64 × List F32)

-- Where a number is NaN the comparison is no order, and a sort may panic.
def DistanceMetric.Comparable (metric : DistanceMetric) (query v : List F32) : Prop :=
  (metric.distance query v).isNaN = false ∧ (metric.similarity query v).isNaN = false

def HnswGraph.Comparable (g : HnswGraph) (query : List F32) : Prop :=
  ∀ e ∈ g.vectors, g.distance.Comparable query e.2

namespace HnswOp

def OfDim (dim : UInt32) : HnswOp → Prop
  | Insert _ vec _ => vec.length = dim.toNat
  | RebuildFromIter items => ∀ item ∈ items, item.2.1.length = dim.toNat
  | _ => True

def apply (heaps : BinaryHeaps) : HnswOp → HnswGraph → HnswGraph
  | Insert rowid vec drawn, g => g.insert heaps rowid vec drawn
  | LazyDelete rowid, g => g.lazyDelete rowid
  | RebuildFromIter items, g => g.rebuildFromIter heaps items
  | Reload, g =>
      match HnswGraph.deserialize g.serialize with
      | some g' => g'
      | none => g
  | Rehash nodes vectors, g =>
      if nodes.Perm g.nodes ∧ vectors.Perm g.vectors then { g with nodes := nodes, vectors := vectors } else g

def live : HnswOp → Live → Live
  | Insert rowid vec _, live => put rowid vec live
  | LazyDelete rowid, live => remove rowid live
  | RebuildFromIter items, _ => items.foldl (fun live item => put item.1 item.2.1 live) []
  | Reload, live => live
  | Rehash _ _, live => live

def step (heaps : BinaryHeaps) (op : HnswOp) (s : HnswGraph × Live) : HnswGraph × Live :=
  (op.apply heaps s.1, op.live s.2)

-- Only new rowids are inserted and only those of nodes deleted, no vector is inserted at a distance
-- that is NaN, no node is reloaded that names a deleted one, and the nodes can be counted in 32 bits.
def Fresh (op : HnswOp) (s : HnswGraph × Live) : Prop :=
  match op with
  | Insert rowid vec _ => rowid ∉ s.1.keys ∧ s.1.nodes.length + 1 < 2 ^ 32 ∧ s.1.Comparable vec
  | LazyDelete rowid => rowid ∈ s.1.keys
  | RebuildFromIter items => (items.map Prod.fst).Nodup ∧ items.length < 2 ^ 32 ∧
      items.Pairwise fun before item => s.1.distance.Comparable item.2.1 before.2.1
  | Reload => s.1.Clean
  | Rehash _ _ => True

end HnswOp

namespace HnswGraph

def Listed (live : Live) (results : List (UInt64 × Float32)) : Prop :=
  (results.map Prod.fst).Nodup ∧ ∀ r ∈ results.map Prod.fst, r ∈ live.map Prod.fst

structure Agrees (heaps : BinaryHeaps) (g : HnswGraph) (live : Live) : Prop where
  len : g.len = live.length
  search : ∀ query topK, g.Comparable query → Listed live (g.search heaps query topK)
  searchWithEf : ∀ query topK ef, g.Comparable query → Listed live (g.searchWithEf heaps query topK ef)
  searchAll : ∀ query topK ep, g.Comparable query → g.entryUsed heaps query = some ep →
    {v | g.Reaches 0 ep v}.ncard ≤ topK →
    ∀ r ∈ live.map Prod.fst, g.Reaches 0 ep r → r ∈ (g.search heaps query topK).map Prod.fst
  searchAllWithEf : ∀ query topK ef ep, g.Comparable query → g.entryUsed heaps query = some ep →
    {v | g.Reaches 0 ep v}.ncard ≤ topK → {v | g.Reaches 0 ep v}.ncard ≤ ef →
    ∀ r ∈ live.map Prod.fst, g.Reaches 0 ep r → r ∈ (g.searchWithEf heaps query topK ef).map Prod.fst
  stored : ∃ g', deserialize g.serialize = some g' ∧ g'.deleted = ∅ ∧ g'.keys.Perm (live.map Prod.fst) ∧
    ∀ r, g'.vectors.lookup r = live.lookup r

structure Holds (dim : UInt32) (s : HnswGraph × Live) : Prop where
  sound : s.1.Sound dim
  nodup : (s.2.map Prod.fst).Nodup
  lookup : ∀ r, s.2.lookup r = if r ∈ s.1.deleted then none else s.1.vectors.lookup r

variable {heaps : BinaryHeaps} {dim : UInt32} {g : HnswGraph} {live : Live} {rowid r ep : UInt64}
  {query : List F32} {topK ef : Nat}

theorem mem_keys_iff {ν : Type} {m : List (UInt64 × ν)} {k : UInt64} : k ∈ m.map Prod.fst ↔ m.lookup k ≠
    none := by
  refine ⟨fun h => ?_, fun h => ?_⟩
  · obtain ⟨e, he, rfl⟩ := List.mem_map.mp h
    exact lookup_ne_none_of_mem he
  · by_contra hnot
    exact h (lookup_eq_none_of_notMem hnot)

theorem Holds.mem_live (h : Holds dim (g, live)) : r ∈ live.map Prod.fst ↔ r ∈ g.keys ∧ r ∉ g.deleted := by
  rw [mem_keys_iff, h.lookup, ← h.sound.vectorKeys.mem_iff, mem_keys_iff]
  by_cases hr : r ∈ g.deleted
  · rw [if_pos hr]
    exact iff_of_false (fun hne => hne rfl) fun hboth => hboth.2 hr
  · rw [if_neg hr, and_iff_left hr]

theorem Holds.perm_live (h : Holds dim (g, live)) :
    (g.keys.filter fun r => r ∉ g.deleted).Perm (live.map Prod.fst) := by
  refine (List.perm_ext_iff_of_nodup (h.sound.keys.filter _) h.nodup).mpr fun r => ?_
  rw [h.mem_live, List.mem_filter, decide_eq_true_eq]

theorem Holds.len (h : Holds dim (g, live)) : g.len = live.length := by
  have hsub : g.deleted ⊆ g.keys.toFinset := fun r hr => List.mem_toFinset.mpr (h.sound.deleted r hr)
  have hcard := Finset.card_sdiff_of_subset hsub
  rw [List.toFinset_card_of_nodup h.sound.keys, HnswGraph.keys, List.length_map] at hcard
  have hlive : live.length = (live.map Prod.fst).toFinset.card := by
    rw [List.toFinset_card_of_nodup h.nodup, List.length_map]
  rw [HnswGraph.len, ← hcard, hlive]
  congr 1
  ext r
  rw [Finset.mem_sdiff, List.mem_toFinset, List.mem_toFinset, h.mem_live]
  rfl

theorem Sound.mem_of_findValidEntry (h : g.Sound dim) (hep : ep ∈ g.keys)
    (hfound : g.findValidEntry ep = some r) :
    r ∈ g.keys := by
  rw [findValidEntry] at hfound
  split_ifs at hfound
  · cases hnear : (g.neighbours 0 ep).find? fun nb => nb ∉ g.deleted with
    | some nb =>
        rw [hnear] at hfound
        exact Option.some.inj hfound ▸ h.closed 0 ep nb (List.mem_of_find?_eq_some hnear)
    | none =>
        rw [hnear] at hfound
        exact List.mem_of_find?_eq_some hfound
  · exact Option.some.inj hfound ▸ hep

theorem Sound.mem_of_descendLive (heaps : BinaryHeaps) (h : g.Sound dim) (query : List F32) (n : Nat)
    (hep : ep ∈ g.keys) : g.descendLive heaps query n ep ∈ g.keys := by
  induction n generalizing ep with
  | zero => exact hep
  | succ n ih =>
      rw [descendLive]
      cases hhead : (g.searchLayer heaps query ep 1 (n + 1)).head? with
      | none => exact ih hep
      | some best =>
          dsimp only
          split_ifs
          · exact ih hep
          · exact ih (h.reaches hep (mem_of_head? hhead))

theorem Sound.mem_of_entryUsed (h : g.Sound dim) (hused : g.entryUsed heaps query = some ep) : ep ∈ g.keys := by
  rw [entryUsed] at hused
  cases hentry : g.entryPoint with
  | none =>
      rw [hentry] at hused
      cases hused
  | some first =>
      rw [hentry] at hused
      dsimp only at hused
      split_ifs at hused
      obtain ⟨valid, hvalid, rfl⟩ := Option.map_eq_some_iff.mp hused
      exact h.mem_of_descendLive heaps query g.maxLevel (h.mem_of_findValidEntry (h.entry first hentry) hvalid)

-- The rowids of the results, up to the order in which they are returned.
theorem perm_searchWithEf (hused : g.entryUsed heaps query = some ep) (topK ef : Nat) :
    ((g.searchWithEf heaps query topK ef).map Prod.fst).Perm
      ((((g.searchLayer heaps query ep (max ef topK) 0).filter fun c => c.2 ∉ g.deleted).take topK).map
        Prod.snd) := by
  rw [searchWithEf, hused]
  refine ((List.mergeSort_perm _ _).map Prod.fst).trans (List.Perm.of_eq ?_)
  rw [List.map_map]
  rfl

theorem Holds.searchWithEf (heaps : BinaryHeaps) (h : Holds dim (g, live)) (query : List F32) (topK ef : Nat) :
    Listed live (g.searchWithEf heaps query topK ef) := by
  cases hused : g.entryUsed heaps query with
  | none =>
      rw [HnswGraph.searchWithEf, hused]
      exact ⟨List.nodup_nil, fun _ hr => (nomatch hr)⟩
  | some ep =>
      have hperm := perm_searchWithEf hused topK ef
      refine ⟨hperm.nodup_iff.mpr ?_, fun r hr => ?_⟩
      · have hsub := (List.take_sublist topK _).trans
          (List.filter_sublist (p := fun c : Candidate => c.2 ∉ g.deleted)
            (l := g.searchLayer heaps query ep (max ef topK) 0))
        exact (nodup_searchLayer heaps g query ep (max ef topK) 0).sublist (hsub.map _)
      · obtain ⟨c, hc, rfl⟩ := List.mem_map.mp (hperm.mem_iff.mp hr)
        obtain ⟨hfound, hlive⟩ := List.mem_filter.mp (List.mem_of_mem_take hc)
        refine h.mem_live.mpr ⟨?_, by simpa using hlive⟩
        exact h.sound.reaches (h.sound.mem_of_entryUsed hused) (reaches_searchLayer hfound)

theorem length_searchLayer_le (heaps : BinaryHeaps) (g : HnswGraph) (query : List F32) (ep : UInt64)
    (ef layer : Nat) : (g.searchLayer heaps query ep ef layer).length ≤ {v | g.Reaches layer ep v}.ncard := by
  have hsub : (((g.searchLayer heaps query ep ef layer).map Prod.snd).toFinset : Set UInt64) ⊆
      {v | g.Reaches layer ep v} := by
    intro v hv
    obtain ⟨c, hc, rfl⟩ := List.mem_map.mp (List.mem_toFinset.mp (Finset.mem_coe.mp hv))
    exact reaches_searchLayer hc
  have hcard := Set.ncard_le_ncard hsub (Set.toFinite _)
  rwa [Set.ncard_coe_finset, List.toFinset_card_of_nodup (nodup_searchLayer heaps g query ep ef layer),
    List.length_map] at hcard

theorem Holds.searchAll (h : Holds dim (g, live)) (hused : g.entryUsed heaps query = some ep)
    (htop : {v | g.Reaches 0 ep v}.ncard ≤ topK) (hr : r ∈ live.map Prod.fst) (hreach : g.Reaches 0 ep r) :
    r ∈ (g.searchWithEf heaps query topK ef).map Prod.fst := by
  refine (perm_searchWithEf hused topK ef).mem_iff.mpr ?_
  have hfound := complete_searchLayer heaps query (htop.trans (le_max_right ef topK)) hreach
  obtain ⟨c, hc, rfl⟩ := List.mem_map.mp hfound
  have hlen := (length_searchLayer_le heaps g query ep (max ef topK) 0).trans htop
  rw [List.take_of_length_le ((List.length_filter_le _ _).trans hlen)]
  exact List.mem_map_of_mem (List.mem_filter.mpr ⟨hc, by simpa using (h.mem_live.mp hr).2⟩)

theorem Holds.stored (h : Holds dim (g, live)) : deserialize g.serialize = some g.reloaded ∧
    g.reloaded.deleted = ∅ ∧ g.reloaded.keys.Perm (live.map Prod.fst) ∧
      ∀ r, g.reloaded.vectors.lookup r = live.lookup r := by
  refine ⟨h.sound.deserialize_serialize, h.sound.reloaded_facts.2.2.1, ?_, fun r => ?_⟩
  · rw [h.sound.keys_reloaded]
    exact h.perm_live
  · rw [h.sound.lookup_reloaded, h.lookup]

theorem Holds.agrees (h : Holds dim (g, live)) (heaps : BinaryHeaps) : Agrees heaps g live where
  len := h.len
  search := fun query topK _ => h.searchWithEf heaps query topK g.efSearch
  searchWithEf := fun query topK ef _ => h.searchWithEf heaps query topK ef
  searchAll := fun _ _ _ _ hused htop _ hr hreach => h.searchAll hused htop hr hreach
  searchAllWithEf := fun _ _ _ _ _ hused htop _ _ hr hreach => h.searchAll hused htop hr hreach
  stored := ⟨g.reloaded, h.stored⟩

theorem Holds.insert (heaps : BinaryHeaps) (h : Holds dim (g, live)) (hfresh : rowid ∉ g.keys)
    (hroom : g.nodes.length + 1 < 2 ^ 32) {vec : List F32} (hvec : vec.length = dim.toNat) (drawn : Nat) :
    Holds dim (g.insert heaps rowid vec drawn, put rowid vec live) := by
  obtain ⟨_, hvectors, hdeleted⟩ := insert_facts heaps g rowid vec drawn
  rw [addNode, if_neg hfresh] at hdeleted
  refine ⟨h.sound.insert heaps hfresh hroom hvec drawn, nodup_put h.nodup, fun r => ?_⟩
  dsimp only
  rw [hvectors, hdeleted, lookup_put, lookup_put, h.lookup]
  by_cases hr : r = rowid
  · rw [if_pos hr, if_pos hr, if_neg fun hmem => hfresh (hr ▸ h.sound.deleted r hmem)]
  · rw [if_neg hr, if_neg hr]

theorem Holds.lazyDelete (h : Holds dim (g, live)) (hkey : rowid ∈ g.keys) :
    Holds dim (g.lazyDelete rowid, remove rowid live) := by
  refine ⟨{ h.sound with deleted := fun r hr => ?_ }, ?_, fun r => ?_⟩
  · rcases Finset.mem_insert.mp hr with rfl | hr
    · exact hkey
    · exact h.sound.deleted r hr
  · exact h.nodup.sublist (List.filter_sublist.map Prod.fst)
  · rw [lookup_remove, h.lookup]
    show _ = if r ∈ Insert.insert rowid g.deleted then none else g.vectors.lookup r
    by_cases hr : r = rowid
    · rw [if_pos hr, if_pos (hr ▸ Finset.mem_insert_self _ _)]
    · rw [if_neg hr]
      exact if_congr (by rw [Finset.mem_insert, or_iff_right hr]) rfl rfl

theorem length_insert (heaps : BinaryHeaps) (hfresh : rowid ∉ g.keys) (vec : List F32) (drawn : Nat) :
    (g.insert heaps rowid vec drawn).nodes.length = g.nodes.length + 1 := by
  have hkeys := (insert_facts heaps g rowid vec drawn).1.trans (keys_addNode hfresh vec _)
  have hlen := congrArg List.length hkeys
  rwa [keys, keys, List.length_map, List.length_append, List.length_map] at hlen

theorem Holds.foldl_insert (heaps : BinaryHeaps) (items : List (UInt64 × List F32 × Nat))
    (h : Holds dim (g, live)) (hnodup : (items.map Prod.fst).Nodup) (hfresh : ∀ item ∈ items, item.1 ∉ g.keys)
    (hroom : g.nodes.length + items.length < 2 ^ 32) (hdim : ∀ item ∈ items, item.2.1.length = dim.toNat) :
    Holds dim (items.foldl (fun g item => g.insert heaps item.1 item.2.1 item.2.2) g,
      items.foldl (fun live item => put item.1 item.2.1 live) live) := by
  induction items generalizing g live with
  | nil => exact h
  | cons item items ih =>
      rw [List.map_cons, List.nodup_cons] at hnodup
      rw [List.length_cons] at hroom
      have hitem := hfresh item List.mem_cons_self
      have hnext := h.insert heaps hitem (by omega) (hdim item List.mem_cons_self) item.2.2
      refine ih hnext hnodup.2 (fun item' hitem' => ?_) ?_ fun item' hitem' => hdim item'
        (List.mem_cons_of_mem _ hitem')
      · rw [(insert_facts heaps g item.1 item.2.1 item.2.2).1, keys_addNode hitem, List.mem_append,
          List.mem_singleton, not_or]
        exact ⟨hfresh item' (List.mem_cons_of_mem _ hitem'), fun heq =>
          hnodup.1 (heq ▸ List.mem_map_of_mem hitem')⟩
      · rw [length_insert heaps hitem]
        omega

theorem holds_empty (hnodes : g.nodes = []) (hvectors : g.vectors = []) (hdeleted : g.deleted = ∅)
    (hlevel : g.maxLevel = 0) (hentry : g.entryPoint = none) : Holds dim (g, []) := by
  have hkeys : g.keys = [] := by rw [keys, hnodes]; rfl
  have hnone : ∀ layer r, g.neighbours layer r = [] := fun layer r => by rw [neighbours, hnodes]; rfl
  refine ⟨⟨?_, ?_, ?_, ?_, ?_, ?_, ?_, ?_, ?_, ?_⟩, List.nodup_nil, fun r => ?_⟩
  · exact hkeys ▸ List.nodup_nil
  · rw [hkeys, hvectors]
    exact List.Perm.nil
  · rw [hvectors]
    exact fun _ he => absurd he List.not_mem_nil
  · rw [hdeleted]
    exact fun r hr => absurd hr (Finset.notMem_empty r)
  · intro layer r nb hnb
    rw [hnone] at hnb
    cases hnb
  · intro layer r
    rw [hnone]
    exact List.nodup_nil
  · rw [hnodes]
    exact fun _ he => absurd he List.not_mem_nil
  · rw [hlevel]
    exact Nat.zero_le _
  · rw [hentry]
    exact fun _ hep => absurd hep (Option.not_mem_none _)
  · rw [hnodes]
    decide
  · dsimp only
    rw [hdeleted, hvectors, if_neg (Finset.notMem_empty r)]

theorem Holds.rehash (h : Holds dim (g, live)) {nodes : List (UInt64 × List (List UInt64))}
    {vectors : List (UInt64 × List F32)} (hnodes : nodes.Perm g.nodes) (hvectors : vectors.Perm g.vectors) :
    Holds dim ({ g with nodes := nodes, vectors := vectors }, live) := by
  have hs := h.sound
  have hkeys : (nodes.map Prod.fst).Perm g.keys := hnodes.map Prod.fst
  have hnodup : (g.vectors.map Prod.fst).Nodup := hs.vectorKeys.nodup_iff.mpr hs.keys
  have hsame : ∀ layer r, neighbours { g with nodes := nodes, vectors := vectors } layer r =
      g.neighbours layer r := by
    intro layer r
    rw [neighbours, neighbours, lookup_perm hnodes hs.keys]
  refine ⟨⟨?_, ?_, ?_, ?_, ?_, ?_, ?_, hs.level, ?_, ?_⟩, h.nodup, fun r => ?_⟩
  · exact hkeys.nodup_iff.mpr hs.keys
  · exact ((hvectors.map Prod.fst).trans hs.vectorKeys).trans hkeys.symm
  · exact fun e he => hs.dims e (hvectors.mem_iff.mp he)
  · exact fun r hr => hkeys.mem_iff.mpr (hs.deleted r hr)
  · intro layer r nb hnb
    rw [hsame] at hnb
    exact hkeys.mem_iff.mpr (hs.closed layer r nb hnb)
  · intro layer r
    rw [hsame]
    exact hs.distinct layer r
  · exact fun e he => hs.layers e (hnodes.mem_iff.mp he)
  · exact fun ep hep => hkeys.mem_iff.mpr (hs.entry ep hep)
  · exact hnodes.length_eq.trans_lt hs.room
  · rw [lookup_perm hvectors hnodup]
    exact h.lookup r

theorem Holds.step (heaps : BinaryHeaps) {s : HnswGraph × Live} (h : Holds dim s) {op : HnswOp}
    (hdim : op.OfDim dim) (hfresh : op.Fresh s) :
    Holds dim (op.step heaps s) := by
  obtain ⟨g, live⟩ := s
  cases op with
  | Insert rowid vec drawn => exact h.insert heaps hfresh.1 hfresh.2.1 hdim drawn
  | LazyDelete rowid => exact h.lazyDelete hfresh
  | RebuildFromIter items =>
      refine (holds_empty rfl rfl rfl rfl rfl).foldl_insert heaps items hfresh.1
        (fun _ _ => List.not_mem_nil) ?_ hdim
      exact (Nat.zero_add _).trans_lt hfresh.2.1
  | Reload =>
      have happly : HnswOp.Reload.apply heaps g = g.reloaded := by
        rw [HnswOp.apply, h.sound.deserialize_serialize]
      rw [HnswOp.step, happly]
      refine ⟨h.sound.reload hfresh, h.nodup, fun r => ?_⟩
      dsimp only
      rw [h.sound.reloaded_facts.2.2.1, if_neg (Finset.notMem_empty r), h.sound.lookup_reloaded]
      exact h.lookup r
  | Rehash nodes vectors =>
      rw [HnswOp.step, HnswOp.apply]
      dsimp only
      split_ifs with hperm
      · exact h.rehash hperm.1 hperm.2
      · exact h

end HnswGraph

namespace HnswOp

open HnswGraph

def start (m efConstruction : Nat) (distance : DistanceMetric) : HnswGraph × Live :=
    (new m efConstruction distance, [])

-- A rowid that is inserted again stays among the deleted ones.
theorem len_insert_again (heaps : BinaryHeaps) (g : HnswGraph) (rowid : UInt64) (hmem : rowid ∈ g.keys)
    (vec : List F32) (drawn : Nat) :
    (g.insert heaps rowid vec drawn).len = g.nodes.length - (Insert.insert rowid g.deleted).card := by
  obtain ⟨hkeys, _, hdeleted⟩ := insert_facts heaps g rowid vec drawn
  have hsame : (g.addNode rowid vec (randomLevel drawn)).keys = g.keys := by
    rcases keys_put (m := g.nodes) (k := rowid) (v := List.replicate (randomLevel drawn + 1) []) with hput |
      ⟨hnot, _⟩
    · exact hput
    · exact absurd hmem hnot
  have hlen := congrArg List.length (hkeys.trans hsame)
  rw [HnswGraph.keys, HnswGraph.keys, List.length_map, List.length_map] at hlen
  rw [HnswGraph.len, hlen, hdeleted, addNode, if_pos hmem]

theorem live_run (heaps : BinaryHeaps) (dim : UInt32) (m efConstruction : Nat) (distance : DistanceMetric)
    (ops : List HnswOp) (hdim : ∀ op ∈ ops, op.OfDim dim)
    (hfresh : Meets (step heaps) Fresh ops (start m efConstruction distance)) :
    Agrees heaps (run (step heaps) ops (start m efConstruction distance)).1
      (run (step heaps) ops (start m efConstruction distance)).2 := by
  have hstart : Holds dim (start m efConstruction distance) := holds_empty rfl rfl rfl rfl rfl
  generalize start m efConstruction distance = s at hfresh hstart
  induction ops generalizing s with
  | nil => exact hstart.agrees heaps
  | cons op ops ih =>
      refine ih (fun op' hop' => hdim op' (List.mem_cons_of_mem _ hop')) (step heaps op s) hfresh.2 ?_
      exact hstart.step heaps (hdim op List.mem_cons_self) hfresh.1

theorem live_reinserted :
    let ops := [Insert 1 [0] 0, LazyDelete 1, Reload, Insert 1 [0] 0]
    Agrees listHeaps (run (step listHeaps) ops (start 16 200 .L2)).1
      (run (step listHeaps) ops (start 16 200 .L2)).2 := by
  refine live_run listHeaps 1 16 200 .L2 _ (by simp [OfDim])
    ⟨⟨by decide, by decide, fun _ he => absurd he List.not_mem_nil⟩, List.mem_singleton_self 1, ?_,
      ⟨by decide, by decide, fun _ he => absurd he List.not_mem_nil⟩, trivial⟩
  intro r hr hlive
  exact absurd (Finset.mem_singleton.mpr (List.mem_singleton.mp hr)) hlive

theorem reinserted_not_live :
    ¬ ∀ (dim : UInt32) (m efConstruction : Nat) (distance : DistanceMetric) (ops : List HnswOp),
      (∀ op ∈ ops, op.OfDim dim) →
        Agrees listHeaps (run (step listHeaps) ops (start m efConstruction distance)).1
          (run (step listHeaps) ops (start m efConstruction distance)).2 := by
  intro h
  have hlen := (h 1 16 200 .L2 [Insert 1 [0] 0, Insert 1 [0] 0] (by simp [OfDim])).len
  have hlost := len_insert_again listHeaps ((new 16 200 .L2).insert listHeaps 1 [0] 0) 1 (by decide) [0] 0
  exact absurd (hlost.symm.trans hlen) (by decide)

end HnswOp

end Kkdb.Vector
