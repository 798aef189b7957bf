import Kkdb.Vector.HnswSearch

namespace Kkdb.Vector.HnswGraph

open Lib LayerSearch Relation

-- The lists name only nodes that exist, each at most once, and every node has its vector.
structure Sound (dim : UInt32) (g : HnswGraph) : Prop where
  keys : g.keys.Nodup
  vectorKeys : (g.vectors.map Prod.fst).Perm g.keys
  dims : ∀ e ∈ g.vectors, e.2.length = dim.toNat
  deleted : ∀ r ∈ g.deleted, r ∈ g.keys
  closed : ∀ layer r, ∀ nb ∈ g.neighbours layer r, nb ∈ g.keys
  distinct : ∀ layer r, (g.neighbours layer r).Nodup
  layers : ∀ e ∈ g.nodes, e.2.length ≤ 17
  level : g.maxLevel ≤ 16
  entry : ∀ ep, g.entryPoint = some ep → ep ∈ g.keys
  room : g.nodes.length < 2 ^ 32

structure Edited (g g' : HnswGraph) : Prop where
  same : g' = { g with nodes := g'.nodes }
  keys : g'.keys = g.keys

variable {heaps : BinaryHeaps} {dim : UInt32} {g g' g'' : HnswGraph} {id r rowid entry : UInt64}
  {lc layer mLayer : Nat} {f : List UInt64 → List UInt64} {nb : Candidate}

theorem Edited.refl (g : HnswGraph) : Edited g g := ⟨rfl, rfl⟩

theorem Edited.trans (h : Edited g g') (h' : Edited g' g'') : Edited g g'' :=
  ⟨by rw [h'.same, h.same], h'.keys.trans h.keys⟩

theorem edited_setLayer (g : HnswGraph) (id : UInt64) (lc : Nat) (f : List UInt64 → List UInt64) :
    Edited g (g.setLayer id lc f) := by
  refine ⟨rfl, ?_⟩
  rw [keys, keys, setLayer]
  cases hlook : g.nodes.lookup id with
  | none => rfl
  | some adj =>
      rcases keys_put (m := g.nodes) (k := id) with hkeys | ⟨hnot, _⟩
      · exact hkeys
      · rw [lookup_eq_none_of_notMem hnot] at hlook
        cases hlook

theorem exists_lookup (h : id ∈ g.keys) : ∃ adj, g.nodes.lookup id = some adj := by
  obtain ⟨e, he, rfl⟩ := List.mem_map.mp h
  exact Option.ne_none_iff_exists'.mp (lookup_ne_none_of_mem he)

theorem getD_pad {α : Type} (adj : List (List α)) (n layer : Nat) :
    (adj ++ List.replicate n []).getD layer [] = adj.getD layer [] := by
  rw [List.getD_eq_getElem?_getD, List.getD_eq_getElem?_getD, List.getElem?_append]
  split_ifs with hin
  · rfl
  · rw [List.getElem?_replicate, List.getElem?_eq_none (Nat.le_of_not_lt hin)]
    split_ifs <;> rfl

theorem getD_set {α : Type} {adj : List (List α)} (hlc : lc < adj.length) (layer : Nat) (list : List α) :
    (adj.set lc list).getD layer [] = if layer = lc then list else adj.getD layer [] := by
  rw [List.getD_eq_getElem?_getD, List.getElem?_set]
  by_cases h : layer = lc
  · rw [if_pos h.symm, if_pos hlc, if_pos h]
    rfl
  · rw [if_neg (Ne.symm h), if_neg h, List.getD_eq_getElem?_getD]

theorem neighbours_setLayer (hid : id ∈ g.keys) (lc layer : Nat) (r : UInt64) :
    (g.setLayer id lc f).neighbours layer r =
      if r = id ∧ layer = lc then f (g.neighbours lc id) else g.neighbours layer r := by
  obtain ⟨adj, hlook⟩ := exists_lookup hid
  have hlong : lc < (adj ++ List.replicate (lc + 1 - adj.length) []).length := by
    rw [List.length_append, List.length_replicate]
    omega
  rw [neighbours, neighbours, setLayer, hlook]
  simp only [lookup_put, getD_pad]
  by_cases hr : r = id
  · subst hr
    rw [if_pos rfl, Option.getD_some, getD_set hlong, getD_pad, neighbours, hlook, Option.getD_some]
    exact if_congr (and_iff_right rfl).symm rfl rfl
  · rw [if_neg hr, if_neg (fun h => hr h.1)]
    rfl

theorem layers_setLayer (h : ∀ e ∈ g.nodes, e.2.length ≤ 17) (hlc : lc ≤ 16) :
    ∀ e ∈ (g.setLayer id lc f).nodes, e.2.length ≤ 17 := by
  rw [setLayer]
  cases hlook : g.nodes.lookup id with
  | none => exact h
  | some adj =>
      have hadj : adj.length ≤ 17 := h _ (mem_of_lookup hlook)
      intro e he
      rcases mem_put he with rfl | he
      · rw [List.length_set, List.length_append, List.length_replicate]
        omega
      · exact h e he

theorem Sound.setLayer (h : g.Sound dim) (hid : id ∈ g.keys) (hlc : lc ≤ 16)
    (hclosed : ∀ nb ∈ f (g.neighbours lc id), nb ∈ g.keys) (hdistinct : (f (g.neighbours lc id)).Nodup) :
    (g.setLayer id lc f).Sound dim := by
  have hkeys := (edited_setLayer g id lc f).keys
  refine ⟨?_, ?_, h.dims, fun r hr => ?_, fun layer r nb hnb => ?_, fun layer r => ?_,
    layers_setLayer h.layers hlc,
    h.level, fun ep hep => ?_, ?_⟩
  · rw [hkeys]
    exact h.keys
  · rw [hkeys]
    exact h.vectorKeys
  · rw [hkeys]
    exact h.deleted r hr
  · rw [neighbours_setLayer hid] at hnb
    rw [hkeys]
    split_ifs at hnb
    · exact hclosed nb hnb
    · exact h.closed layer r nb hnb
  · rw [neighbours_setLayer hid]
    split_ifs
    · exact hdistinct
    · exact h.distinct layer r
  · rw [hkeys]
    exact h.entry ep hep
  · have hlen := congrArg List.length hkeys
    rw [HnswGraph.keys, HnswGraph.keys, List.length_map, List.length_map] at hlen
    exact hlen.trans_lt h.room

theorem sublist_over (list : List UInt64) (score : UInt64 → List F32 → Float32) (g : HnswGraph) (m : Nat) :
    ((selectNeighboursGreedy (list.filterMap fun cid =>
      (g.vectors.lookup cid).map fun cv => (score cid cv, cid)) m).map
        Prod.snd).Sublist list := by
  refine ((List.take_sublist _ _).map _).trans ?_
  induction list with
  | nil => exact List.Sublist.refl _
  | cons cid list ih =>
      rw [List.filterMap_cons]
      cases g.vectors.lookup cid with
      | none => exact ih.cons _
      | some cv => exact ih.cons_cons _

theorem edited_prune (g : HnswGraph) (id : UInt64) (lc mLayer : Nat) : Edited g (g.prune id lc mLayer) := by
  unfold prune
  exact edited_setLayer g id lc _

theorem Sound.prune (h : g.Sound dim) (hid : id ∈ g.keys) (hlc : lc ≤ 16) :
    (g.prune id lc mLayer).Sound dim := by
  unfold HnswGraph.prune
  refine h.setLayer hid hlc (fun x hx => ?_) ?_
  · exact h.closed lc id x ((sublist_over _ _ _ _).subset hx)
  · exact (h.distinct lc id).sublist (sublist_over _ _ _ _)

theorem edited_connectBack (rowid : UInt64) (lc mLayer : Nat) (g : HnswGraph) (nb : Candidate) :
    Edited g (connectBack rowid lc mLayer g nb) := by
  have hback := edited_setLayer g nb.2 lc fun list => list ++ [rowid]
  unfold connectBack
  dsimp only
  split_ifs
  · exact hback.trans (edited_prune _ _ _ _)
  · exact hback

theorem neighbours_connectBack (hnb : nb.2 ∈ g.keys) (hother : ¬(r = nb.2 ∧ layer = lc)) :
    (connectBack rowid lc mLayer g nb).neighbours layer r = g.neighbours layer r := by
  have hback := edited_setLayer g nb.2 lc fun list => list ++ [rowid]
  have hfirst := neighbours_setLayer (f := fun list => list ++ [rowid]) hnb lc layer r
  rw [if_neg hother] at hfirst
  unfold connectBack
  dsimp only
  split_ifs
  · rw [prune, neighbours_setLayer (hback.keys ▸ hnb), if_neg hother, hfirst]
  · exact hfirst

theorem Sound.connectBack (h : g.Sound dim) (hnb : nb.2 ∈ g.keys) (hrow : rowid ∈ g.keys) (hlc : lc ≤ 16)
    (hnot : rowid ∉ g.neighbours lc nb.2) : (connectBack rowid lc mLayer g nb).Sound dim := by
  have hback := edited_setLayer g nb.2 lc fun list => list ++ [rowid]
  have hfirst : (g.setLayer nb.2 lc fun list => list ++ [rowid]).Sound dim := by
    refine h.setLayer hnb hlc (fun x hx => ?_) ?_
    · rcases List.mem_append.mp hx with hx | hx
      · exact h.closed lc nb.2 x hx
      · rw [List.mem_singleton.mp hx]
        exact hrow
    · exact List.nodup_append.mpr ⟨h.distinct lc nb.2, List.nodup_singleton _, fun x hx y hy hxy =>
        hnot (List.mem_singleton.mp hy ▸ hxy ▸ hx)⟩
  unfold HnswGraph.connectBack
  dsimp only
  split_ifs
  · exact hfirst.prune (hback.keys ▸ hnb) hlc
  · exact hfirst

theorem edited_foldl (rowid : UInt64) (lc mLayer : Nat) (nbs : List Candidate) (g : HnswGraph) :
    Edited g (nbs.foldl (HnswGraph.connectBack rowid lc mLayer) g) := by
  induction nbs generalizing g with
  | nil => exact Edited.refl g
  | cons nb nbs ih => exact (edited_connectBack rowid lc mLayer g nb).trans (ih _)

theorem Sound.foldl_connectBack (mLayer : Nat) (nbs : List Candidate) (h : g.Sound dim)
    (hrow : rowid ∈ g.keys) (hlc : lc ≤ 16)
    (hnodup : (nbs.map Prod.snd).Nodup)
    (hnbs : ∀ nb ∈ nbs, nb.2 ∈ g.keys ∧ rowid ∉ g.neighbours lc nb.2) :
    (nbs.foldl (HnswGraph.connectBack rowid lc mLayer) g).Sound dim ∧
      ∀ layer ≠ lc, ∀ r, (nbs.foldl (HnswGraph.connectBack rowid lc mLayer) g).neighbours layer r =
        g.neighbours layer r := by
  induction nbs generalizing g with
  | nil => exact ⟨h, fun _ _ _ => rfl⟩
  | cons nb nbs ih =>
      rw [List.map_cons, List.nodup_cons] at hnodup
      obtain ⟨hnb, hnot⟩ := hnbs nb List.mem_cons_self
      have hedit := edited_connectBack rowid lc mLayer g nb
      obtain ⟨hsound, hsame⟩ := ih (h.connectBack hnb hrow hlc hnot) (hedit.keys ▸ hrow) hnodup.2 fun x hx => by
        have hne : x.2 ≠ nb.2 := fun heq => hnodup.1 (heq ▸ List.mem_map_of_mem hx)
        obtain ⟨hkey, hfree⟩ := hnbs x (List.mem_cons_of_mem _ hx)
        rw [hedit.keys, neighbours_connectBack hnb fun hboth => hne hboth.1]
        exact ⟨hkey, hfree⟩
      refine ⟨hsound, fun layer hlayer r => ?_⟩
      rw [List.foldl_cons, hsame layer hlayer r, neighbours_connectBack hnb fun hboth => hlayer hboth.2]

-- A node that nothing names below `lc` is not reached there from another.
def Unnamed (rowid : UInt64) (lc : Nat) (g : HnswGraph) : Prop :=
  ∀ layer < lc, ∀ r, rowid ∉ g.neighbours layer r

theorem Sound.reaches (h : g.Sound dim) (hentry : entry ∈ g.keys) (hreach : g.Reaches layer entry r) :
    r ∈ g.keys := by
  rcases ReflTransGen.cases_tail hreach with rfl | ⟨u, _, hedge⟩
  · exact hentry
  · exact h.closed layer u r hedge

theorem Unnamed.reaches (h : Unnamed rowid lc g) (hlayer : layer < lc) (hentry : entry ≠ rowid)
    (hreach : g.Reaches layer entry r) : r ≠ rowid := by
  rcases ReflTransGen.cases_tail hreach with rfl | ⟨u, _, hedge⟩
  · exact hentry
  · exact fun hr => h layer hlayer u (hr ▸ hedge)

theorem mem_of_head? {query : List F32} {ef : Nat} {best : Candidate}
    (h : (g.searchLayer heaps query entry ef layer).head? = some best) : g.Reaches layer entry best.2 :=
  reaches_searchLayer (List.mem_of_head? h)

theorem edited_connectLayer (heaps : BinaryHeaps) (g : HnswGraph) (rowid : UInt64) (vec : List F32)
    (epCur : UInt64) (lc : Nat) : Edited g (g.connectLayer heaps rowid vec epCur lc).1 :=
  (edited_setLayer g rowid lc _).trans (edited_foldl rowid lc _ _ _)

theorem Sound.connectLayer (heaps : BinaryHeaps) (h : g.Sound dim) (hrow : rowid ∈ g.keys) (hlc : lc ≤ 16)
    (hfree : Unnamed rowid (lc + 1) g) {epCur : UInt64} (hep : epCur ∈ g.keys) (hne : epCur ≠ rowid)
    (vec : List F32) :
    let (g', epCur') := g.connectLayer heaps rowid vec epCur lc
    g'.Sound dim ∧ Unnamed rowid lc g' ∧ epCur' ∈ g.keys ∧ epCur' ≠ rowid := by
  have hids : ∀ c ∈ g.searchLayer heaps vec epCur g.efConstruction lc, c.2 ∈ g.keys ∧ c.2 ≠ rowid :=
      fun c hc =>
    ⟨h.reaches hep (reaches_searchLayer hc), hfree.reaches (Nat.lt_succ_self lc) hne (reaches_searchLayer hc)⟩
  have hnodup := nodup_searchLayer heaps g vec epCur g.efConstruction lc
  unfold HnswGraph.connectLayer
  dsimp only
  generalize hcs : g.searchLayer heaps vec epCur g.efConstruction lc = cs at hids hnodup
  generalize (if lc = 0 then g.mMax0 else g.m) = mLayer
  have hsel : ∀ c ∈ selectNeighboursGreedy cs mLayer, c.2 ∈ g.keys ∧ c.2 ≠ rowid := fun c hc =>
    hids c (List.mem_of_mem_take hc)
  have hselected : ((selectNeighboursGreedy cs mLayer).map Prod.snd).Nodup :=
    hnodup.sublist ((List.take_sublist _ _).map _)
  generalize selectNeighboursGreedy cs mLayer = selected at hsel hselected
  have hedit := edited_setLayer g rowid lc fun _ => selected.map Prod.snd
  have hown : (g.setLayer rowid lc fun _ => selected.map Prod.snd).Sound dim := by
    refine h.setLayer hrow hlc (fun nb hnb => ?_) hselected
    obtain ⟨c, hc, rfl⟩ := List.mem_map.mp hnb
    exact (hsel c hc).1
  obtain ⟨hsound, hsame⟩ := hown.foldl_connectBack mLayer selected (hedit.keys ▸ hrow) hlc hselected
    fun c hc => by
      rw [hedit.keys, neighbours_setLayer hrow, if_neg fun hboth => (hsel c hc).2 hboth.1]
      exact ⟨(hsel c hc).1, hfree lc (Nat.lt_succ_self lc) c.2⟩
  refine ⟨hsound, fun layer hlayer r => ?_, ?_⟩
  · rw [hsame layer (Nat.ne_of_lt hlayer), neighbours_setLayer hrow, if_neg fun hboth =>
      Nat.ne_of_lt hlayer hboth.2]
    exact hfree layer (Nat.lt_succ_of_lt hlayer) r
  · cases hhead : cs.head? with
    | none => exact ⟨hep, hne⟩
    | some best => exact hids best (List.mem_of_head? hhead)

theorem edited_connect (heaps : BinaryHeaps) (rowid : UInt64) (vec : List F32) (lc : Nat) (g : HnswGraph)
    (epCur : UInt64) : Edited g (connect heaps rowid vec lc g epCur) := by
  induction lc generalizing g epCur with
  | zero => exact Edited.refl g
  | succ lc ih => exact (edited_connectLayer heaps g rowid vec epCur lc).trans (ih _ _)

theorem Sound.connect (heaps : BinaryHeaps) (h : g.Sound dim) (hrow : rowid ∈ g.keys) (hlc : lc ≤ 17)
    (hfree : Unnamed rowid lc g) {epCur : UInt64} (hep : epCur ∈ g.keys) (hne : epCur ≠ rowid)
    (vec : List F32) : (connect heaps rowid vec lc g epCur).Sound dim := by
  induction lc generalizing g epCur with
  | zero => exact h
  | succ lc ih =>
      have hkeys := (edited_connectLayer heaps g rowid vec epCur lc).keys
      obtain ⟨hsound, hbelow, hep', hne'⟩ := h.connectLayer heaps hrow (Nat.le_of_succ_le_succ hlc) hfree hep
        hne vec
      exact ih hsound (hkeys ▸ hrow) (Nat.le_of_succ_le hlc) hbelow (hkeys ▸ hep') hne'

theorem descend_of_step (heaps : BinaryHeaps) (P : UInt64 → Prop) (vec : List F32) (level : Nat)
    (hstep : ∀ layer u v, P u → g.Reaches layer u v → P v) {epCur : UInt64} (hep : P epCur) (n : Nat) :
    P (g.descend heaps vec level n epCur) := by
  induction n generalizing epCur with
  | zero => exact hep
  | succ n ih =>
      rw [descend]
      split_ifs
      · exact hep
      · cases hhead : (g.searchLayer heaps vec epCur 1 (n + 1)).head? with
        | none => exact ih hep
        | some best => exact ih (hstep (n + 1) epCur _ hep (mem_of_head? hhead))

theorem keys_addNode (hfresh : rowid ∉ g.keys) (vec : List F32) (level : Nat) :
    (g.addNode rowid vec level).keys = g.keys ++ [rowid] := by
  rw [keys, addNode]
  rcases keys_put (m := g.nodes) (k := rowid) (v := List.replicate (level + 1) []) with hkeys | ⟨_, hkeys⟩
  · refine absurd ?_ hfresh
    rw [HnswGraph.keys, ← hkeys]
    exact List.mem_map.mpr ⟨_, mem_of_lookup ((lookup_put rowid).trans (if_pos rfl)), rfl⟩
  · exact hkeys

theorem neighbours_addNode (g : HnswGraph) (rowid : UInt64) (vec : List F32) (level layer : Nat) (r : UInt64) :
    (g.addNode rowid vec level).neighbours layer r = if r = rowid then [] else g.neighbours layer r := by
  rw [neighbours, addNode]
  simp only [lookup_put]
  split_ifs
  · exact getD_pad [] (level + 1) layer
  · rfl

theorem mem_keys_addNode (hfresh : rowid ∉ g.keys) {vec : List F32} {level : Nat} :
    r ∈ (g.addNode rowid vec level).keys ↔ r ∈ g.keys ∨ r = rowid := by
  rw [keys_addNode hfresh, List.mem_append, List.mem_singleton]

theorem Sound.addNode (h : g.Sound dim) (hfresh : rowid ∉ g.keys) (hroom : g.nodes.length + 1 < 2 ^ 32)
    {vec : List F32} (hvec : vec.length = dim.toNat) {level : Nat} (hlevel : level ≤ 16) :
    (g.addNode rowid vec level).Sound dim ∧ ∀ lc, Unnamed rowid lc (g.addNode rowid vec level) := by
  have hkeys := keys_addNode hfresh vec level
  refine ⟨⟨?_, ?_, fun e he => ?_, fun r hr => ?_, fun layer r nb hnb => ?_, fun layer r => ?_, fun e he => ?_,
    h.level, fun ep hep => ?_, ?_⟩, fun lc layer _ r hnamed => ?_⟩
  · rw [hkeys]
    exact List.nodup_append.mpr ⟨h.keys, List.nodup_singleton _, fun x hx y hy hxy =>
      hfresh (List.mem_singleton.mp hy ▸ hxy ▸ hx)⟩
  · rw [hkeys]
    rcases keys_put (m := g.vectors) (k := rowid) (v := vec) with hput | ⟨_, hput⟩
    · have hmem : rowid ∈ (put rowid vec g.vectors).map Prod.fst :=
        List.mem_map.mpr ⟨_, mem_of_lookup ((lookup_put rowid).trans (if_pos rfl)), rfl⟩
      rw [hput] at hmem
      exact absurd (h.vectorKeys.mem_iff.mp hmem) hfresh
    · exact (List.Perm.of_eq hput).trans (h.vectorKeys.append_right _)
  · rcases mem_put he with rfl | he
    · exact hvec
    · exact h.dims e he
  · rw [HnswGraph.addNode, if_neg hfresh] at hr
    exact (mem_keys_addNode hfresh).mpr (.inl (h.deleted r hr))
  · rw [neighbours_addNode] at hnb
    split_ifs at hnb
    · cases hnb
    · exact (mem_keys_addNode hfresh).mpr (.inl (h.closed layer r nb hnb))
  · rw [neighbours_addNode]
    split_ifs
    · exact List.nodup_nil
    · exact h.distinct layer r
  · rcases mem_put he with rfl | he
    · rw [List.length_replicate]
      exact Nat.succ_le_succ hlevel
    · exact h.layers e he
  · exact (mem_keys_addNode hfresh).mpr (.inl (h.entry ep hep))
  · have hlen := congrArg List.length hkeys
    rw [HnswGraph.keys, HnswGraph.keys, List.length_map, List.length_append, List.length_map] at hlen
    exact hlen.trans_lt hroom
  · rw [neighbours_addNode] at hnamed
    split_ifs at hnamed
    · cases hnamed
    · exact hfresh (h.closed layer r rowid hnamed)

theorem insert_facts (heaps : BinaryHeaps) (g : HnswGraph) (rowid : UInt64) (vec : List F32) (drawn : Nat) :
    (g.insert heaps rowid vec drawn).keys = (g.addNode rowid vec (randomLevel drawn)).keys ∧
      (g.insert heaps rowid vec drawn).vectors = put rowid vec g.vectors ∧
      (g.insert heaps rowid vec drawn).deleted = (g.addNode rowid vec (randomLevel drawn)).deleted := by
  unfold insert
  dsimp only
  cases hep : (g.addNode rowid vec (randomLevel drawn)).entryPoint with
  | none => exact ⟨rfl, rfl, rfl⟩
  | some ep =>
      have hedit := edited_connect heaps rowid vec (min (randomLevel drawn) g.maxLevel + 1)
        (g.addNode rowid vec (randomLevel drawn))
        ((g.addNode rowid vec (randomLevel drawn)).descend heaps vec (randomLevel drawn) g.maxLevel ep)
      have hvectors := congrArg HnswGraph.vectors hedit.same
      have hdeleted := congrArg HnswGraph.deleted hedit.same
      dsimp only
      split_ifs
      all_goals exact ⟨hedit.keys, hvectors, hdeleted⟩

theorem Sound.insert (heaps : BinaryHeaps) (h : g.Sound dim) (hfresh : rowid ∉ g.keys)
    (hroom : g.nodes.length + 1 < 2 ^ 32) {vec : List F32} (hvec : vec.length = dim.toNat) (drawn : Nat) :
    (g.insert heaps rowid vec drawn).Sound dim := by
  have hlevel : randomLevel drawn ≤ 16 := Nat.min_le_right _ _
  obtain ⟨hadded, hunnamed⟩ := h.addNode hfresh hroom hvec hlevel
  have hrow : rowid ∈ (g.addNode rowid vec (randomLevel drawn)).keys := (mem_keys_addNode hfresh).mpr (.inr rfl)
  unfold HnswGraph.insert
  dsimp only
  cases hep : (g.addNode rowid vec (randomLevel drawn)).entryPoint with
  | none => exact { hadded with level := hlevel, entry := fun ep hep => Option.some.inj hep ▸ hrow }
  | some ep =>
      have hold : ep ∈ g.keys := h.entry ep hep
      obtain ⟨hcur, hne⟩ := descend_of_step heaps
        (fun u => u ∈ (g.addNode rowid vec (randomLevel drawn)).keys ∧ u ≠ rowid) vec (randomLevel drawn)
        (fun layer u v hu huv => ⟨hadded.reaches hu.1 huv,
          (hunnamed (layer + 1)).reaches (Nat.lt_succ_self layer) hu.2 huv⟩)
        ⟨hadded.entry ep hep, fun heq => hfresh (heq ▸ hold)⟩ g.maxLevel
      have hsound := hadded.connect heaps hrow (Nat.succ_le_succ ((Nat.min_le_left _ g.maxLevel).trans hlevel))
        (hunnamed _) hcur hne vec
      have hkeys := (edited_connect heaps rowid vec (min (randomLevel drawn) g.maxLevel + 1)
        (g.addNode rowid vec (randomLevel drawn))
        ((g.addNode rowid vec (randomLevel drawn)).descend heaps vec (randomLevel drawn) g.maxLevel ep)).keys
      dsimp only
      split_ifs
      · exact { hsound with level := hlevel, entry := fun ep hep => Option.some.inj hep ▸ hkeys ▸ hrow }
      · exact hsound

end Kkdb.Vector.HnswGraph
