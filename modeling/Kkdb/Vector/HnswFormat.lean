import Kkdb.Lib.Framed
import Kkdb.Vector.HnswSound

namespace Kkdb.Vector

open Lib

def readLe (n : Nat) (bytes : List UInt8) : Option (Nat × List UInt8) :=
  if bytes.length < n then none else some (leNat (bytes.take n), bytes.drop n)

def readF32 (bytes : List UInt8) : Option (F32 × List UInt8) :=
  (readLe 4 bytes).map fun (v, rest) => (UInt32.ofNat v, rest)

def readId (bytes : List UInt8) : Option (UInt64 × List UInt8) :=
  (readLe 8 bytes).map fun (v, rest) => (UInt64.ofNat v, rest)

def writeF32 (v : F32) : List UInt8 := leBytes 4 v.toNat

def writeId (id : UInt64) : List UInt8 := leBytes 8 id.toNat

def writeLayer (layer : List UInt64) : List UInt8 := leBytes 4 layer.length ++ layer.flatMap writeId

def readLayer (bytes : List UInt8) : Option (List UInt64 × List UInt8) := do
  let (count, rest) ← readLe 4 bytes
  readTimes readId count rest

structure StoredNode where
  rowid : UInt64
  vec : List F32
  adj : List (List UInt64)

namespace StoredNode

def write (n : StoredNode) : List UInt8 :=
  writeId n.rowid ++ (leBytes 4 n.adj.length ++ (n.vec.flatMap writeF32 ++ n.adj.flatMap writeLayer))

def read (dim : Nat) (bytes : List UInt8) : Option (StoredNode × List UInt8) := do
  let (rowid, rest) ← readId bytes
  let (numLayers, rest) ← readLe 4 rest
  let (vec, rest) ← readTimes readF32 dim rest
  let (adj, rest) ← readTimes readLayer numLayers rest
  return ({ rowid := rowid, vec := vec, adj := adj }, rest)

def entry (n : StoredNode) : UInt64 × List (List UInt64) := (n.rowid, n.adj)

def vector (n : StoredNode) : UInt64 × List F32 := (n.rowid, n.vec)

end StoredNode

namespace DistanceMetric

def byte : DistanceMetric → UInt8
  | Cosine => 0
  | L2 => 1

def ofByte (b : UInt8) : Option DistanceMetric := if b = 0 then some Cosine else if b = 1 then some L2 else none

end DistanceMetric

namespace HnswGraph

def stored (g : HnswGraph) : List StoredNode :=
  (g.nodes.filter fun e => e.1 ∉ g.deleted).map fun e =>
    { rowid := e.1, vec := (g.vectors.lookup e.1).getD [], adj := e.2 }

def serialize (g : HnswGraph) : List UInt8 :=
  let dim :=
    match g.vectors.head? with
    | some e => e.2.length
    | none => 0
  leBytes 4 g.stored.length ++ (leBytes 4 dim ++ (g.distance.byte ::
    (leBytes 4 g.m ++ (leBytes 4 g.efConstruction ++
    (leBytes 4 g.efSearch ++ g.stored.flatMap StoredNode.write)))))

def loadNode (g : HnswGraph) (n : StoredNode) : HnswGraph :=
  { g with
    vectors := put n.rowid n.vec g.vectors
    maxLevel := if n.adj.length > g.maxLevel + 1 then n.adj.length - 1 else g.maxLevel
    entryPoint := g.entryPoint.or (some n.rowid)
    nodes := put n.rowid n.adj g.nodes }

-- Every read checks that its bytes are there.
def deserialize (data : List UInt8) : Option HnswGraph := do
  let (nodeCount, rest) ← readLe 4 data
  let (dim, rest) ← readLe 4 rest
  let (tag, rest) ← readLe 1 rest
  let distance ← DistanceMetric.ofByte (UInt8.ofNat tag)
  let (m, rest) ← readLe 4 rest
  let (efConstruction, rest) ← readLe 4 rest
  let (efSearch, rest) ← readLe 4 rest
  let (nodes, _) ← readTimes (StoredNode.read dim) nodeCount rest
  return nodes.foldl loadNode { new m efConstruction distance with efSearch := efSearch }

end HnswGraph

theorem readLe_append {n v : Nat} (h : v < 256 ^ n) (rest : List UInt8) :
    readLe n (leBytes n v ++ rest) = some (v, rest) := by
  rw [readLe, if_neg (by simp), List.take_left' (length_leBytes n v), List.drop_left' (length_leBytes n v),
    leNat_leBytes_of_lt h]

theorem readF32_write (v : F32) (rest : List UInt8) : readF32 (writeF32 v ++ rest) = some (v, rest) := by
  have hread : readLe 4 (leBytes 4 v.toNat ++ rest) = some (v.toNat, rest) := readLe_append v.toNat_lt rest
  simp only [readF32, writeF32, hread, Option.map_some, UInt32.ofNat_toNat]

theorem readId_write (id : UInt64) (rest : List UInt8) : readId (writeId id ++ rest) = some (id, rest) := by
  have hread : readLe 8 (leBytes 8 id.toNat ++ rest) = some (id.toNat, rest) := readLe_append id.toNat_lt rest
  simp only [readId, writeId, hread, Option.map_some, UInt64.ofNat_toNat]

theorem readLayer_write {layer : List UInt64} (h : layer.length < 2 ^ 32) (rest : List UInt8) :
    readLayer (writeLayer layer ++ rest) = some (layer, rest) := by
  rw [readLayer, writeLayer, List.append_assoc, readLe_append h]
  exact readTimes_flatMap (fun id _ => readId_write id) rest

theorem StoredNode.read_write {n : StoredNode} (hlayers : n.adj.length < 2 ^ 32)
    (hlists : ∀ layer ∈ n.adj, layer.length < 2 ^ 32) (rest : List UInt8) :
    StoredNode.read n.vec.length (n.write ++ rest) = some (n, rest) := by
  have hcount (rest : List UInt8) : readLe 4 (leBytes 4 n.adj.length ++ rest) = some (n.adj.length, rest) :=
    readLe_append hlayers rest
  have hvec (rest : List UInt8) : readTimes readF32 n.vec.length (n.vec.flatMap writeF32 ++ rest) =
      some (n.vec, rest) :=
    readTimes_flatMap (fun v _ => readF32_write v) rest
  have hadj (rest : List UInt8) :
      readTimes readLayer n.adj.length (n.adj.flatMap writeLayer ++ rest) = some (n.adj, rest) :=
    readTimes_flatMap (fun layer hlayer => readLayer_write (hlists layer hlayer)) rest
  rw [StoredNode.read, StoredNode.write]
  simp only [List.append_assoc, readId_write, hcount, hvec, hadj, Option.bind_eq_bind, Option.bind_some]
  rfl

theorem DistanceMetric.ofByte_byte (metric : DistanceMetric) : ofByte metric.byte = some metric := by
  cases metric <;> rfl

namespace HnswGraph

def reloaded (g : HnswGraph) : HnswGraph :=
  g.stored.foldl loadNode
    { new (g.m % 2 ^ 32) (g.efConstruction % 2 ^ 32) g.distance with efSearch := g.efSearch % 2 ^ 32 }

theorem readLe_mod (n v : Nat) (rest : List UInt8) : readLe n (leBytes n v ++ rest) =
    some (v % 256 ^ n, rest) := by
  rw [readLe, if_neg (by simp), List.take_left' (length_leBytes n v), List.drop_left' (length_leBytes n v),
    leNat_leBytes]

variable {dim : UInt32} {g : HnswGraph}

theorem Sound.length_neighbours (h : g.Sound dim) (layer : Nat) (r : UInt64) :
    (g.neighbours layer r).length < 2 ^ 32 := by
  have hle := (h.distinct layer r).subperm (h.closed layer r) |>.length_le
  rw [HnswGraph.keys, List.length_map] at hle
  exact hle.trans_lt h.room

theorem Sound.lists (h : g.Sound dim) {e : UInt64 × List (List UInt64)} (he : e ∈ g.nodes) :
    ∀ layer ∈ e.2, layer.length < 2 ^ 32 := by
  intro list hlist
  obtain ⟨i, hi, rfl⟩ := List.getElem_of_mem hlist
  have hlook : g.nodes.lookup e.1 = some e.2 := (lookup_eq_some_iff h.keys).mpr he
  have hlen := h.length_neighbours i e.1
  rw [neighbours, hlook, Option.getD_some, List.getD_eq_getElem _ _ hi] at hlen
  exact hlen

theorem Sound.exists_vector (h : g.Sound dim) {id : UInt64} (hid : id ∈ g.keys) :
    ∃ vec, g.vectors.lookup id = some vec ∧ vec.length = dim.toNat := by
  obtain ⟨e, he, rfl⟩ := List.mem_map.mp (h.vectorKeys.mem_iff.mpr hid)
  exact ⟨e.2, (lookup_eq_some_iff (h.vectorKeys.nodup_iff.mpr h.keys)).mpr he, h.dims e he⟩

theorem Sound.read_stored (h : g.Sound dim) {n : StoredNode} (hn : n ∈ g.stored) (rest : List UInt8) :
    StoredNode.read dim.toNat (n.write ++ rest) = some (n, rest) := by
  obtain ⟨e, he, rfl⟩ := List.mem_map.mp hn
  have hmem := List.mem_of_mem_filter he
  obtain ⟨vec, hlook, hlen⟩ := h.exists_vector (List.mem_map_of_mem hmem)
  have hlayers : e.2.length < 2 ^ 32 := (h.layers e hmem).trans_lt (by decide)
  have hread := StoredNode.read_write (n := ⟨e.1, (g.vectors.lookup e.1).getD [], e.2⟩) hlayers
      (h.lists hmem) rest
  rwa [hlook, Option.getD_some, hlen, ← Option.getD_some (a := vec) (b := []), ← hlook] at hread

theorem Sound.read_nodes (h : g.Sound dim) {d : Nat} (hd : ∀ e, g.vectors.head? = some e → d = e.2.length) :
    readTimes (StoredNode.read d) g.stored.length (g.stored.flatMap StoredNode.write) =
      some (g.stored, []) := by
  cases hhead : g.vectors.head? with
  | none =>
      have hnodes : g.nodes = [] := by
        have hperm := h.vectorKeys.length_eq
        rw [HnswGraph.keys, List.length_map, List.length_map, List.head?_eq_none_iff.mp hhead] at hperm
        exact List.length_eq_zero_iff.mp hperm.symm
      rw [stored, hnodes]
      rfl
  | some e =>
      have hdim : d = dim.toNat := (hd e hhead).trans (h.dims e (List.mem_of_head? hhead))
      have hread := readTimes_flatMap (fun n hn => h.read_stored (n := n) hn) []
      rw [List.append_nil] at hread
      rw [hdim]
      exact hread

theorem length_stored_le (g : HnswGraph) : g.stored.length ≤ g.nodes.length := by
  rw [stored, List.length_map]
  exact List.length_filter_le _ _

theorem Sound.deserialize_serialize (h : g.Sound dim) : deserialize g.serialize = some g.reloaded := by
  have hcount (rest : List UInt8) : readLe 4 (leBytes 4 g.stored.length ++ rest) =
      some (g.stored.length, rest) :=
    readLe_append ((length_stored_le g).trans_lt h.room) rest
  have htag (rest : List UInt8) : readLe 1 (g.distance.byte :: rest) = some (g.distance.byte.toNat, rest) := by
    rw [readLe, if_neg (by simp)]
    exact congrArg some (Prod.ext (Nat.add_zero _) rfl)
  have hfour : (256 : Nat) ^ 4 = 2 ^ 32 := by decide
  rw [serialize, deserialize]
  simp only [hcount, htag, readLe_mod, hfour, UInt8.ofNat_toNat, DistanceMetric.ofByte_byte,
    Option.bind_eq_bind,
    Option.bind_some]
  rw [h.read_nodes fun e he => ?_]
  · rfl
  · rw [he]
    exact Nat.mod_eq_of_lt ((h.dims e (List.mem_of_head? he)).trans_lt dim.toNat_lt)

theorem foldl_loadNode (ns : List StoredNode) (g : HnswGraph) (hnodup : (ns.map StoredNode.rowid).Nodup)
    (hfresh : ∀ n ∈ ns, n.rowid ∉ g.keys ∧ n.rowid ∉ g.vectors.map Prod.fst) :
    (ns.foldl loadNode g).nodes = g.nodes ++ ns.map StoredNode.entry ∧
      (ns.foldl loadNode g).vectors = g.vectors ++ ns.map StoredNode.vector ∧
      (ns.foldl loadNode g).deleted = g.deleted ∧
      (ns.foldl loadNode g).entryPoint = g.entryPoint.or (ns.head?.map StoredNode.rowid) := by
  induction ns generalizing g with
  | nil => exact ⟨(List.append_nil _).symm, (List.append_nil _).symm, rfl, (Option.or_none).symm⟩
  | cons n ns ih =>
      rw [List.map_cons, List.nodup_cons] at hnodup
      obtain ⟨hkey, hvec⟩ := hfresh n List.mem_cons_self
      have hnodes : (g.loadNode n).nodes = g.nodes ++ [n.entry] := put_of_notMem hkey
      have hvectors : (g.loadNode n).vectors = g.vectors ++ [n.vector] := put_of_notMem hvec
      have hrest : ∀ n' ∈ ns, n'.rowid ∉ (g.loadNode n).keys ∧ n'.rowid ∉
          (g.loadNode n).vectors.map Prod.fst := by
        intro n' hn'
        have hne : n'.rowid ≠ n.rowid := fun heq => hnodup.1 (heq ▸ List.mem_map_of_mem hn')
        obtain ⟨hkey', hvec'⟩ := hfresh n' (List.mem_cons_of_mem _ hn')
        rw [HnswGraph.keys, hnodes, hvectors, List.map_append, List.map_append]
        exact ⟨fun hmem => (List.mem_append.mp hmem).elim hkey' fun h => hne (List.mem_singleton.mp h),
          fun hmem => (List.mem_append.mp hmem).elim hvec' fun h => hne (List.mem_singleton.mp h)⟩
      obtain ⟨h₁, h₂, h₃, h₄⟩ := ih (g.loadNode n) hnodup.2 hrest
      refine ⟨?_, ?_, h₃, ?_⟩
      · rw [List.foldl_cons, h₁, hnodes, List.append_assoc]
        rfl
      · rw [List.foldl_cons, h₂, hvectors, List.append_assoc]
        rfl
      · rw [List.foldl_cons, h₄]
        exact Option.or_assoc

theorem level_foldl_loadNode (ns : List StoredNode) (g : HnswGraph) (hlevel : g.maxLevel ≤ 16)
    (hlayers : ∀ n ∈ ns, n.adj.length ≤ 17) : (ns.foldl loadNode g).maxLevel ≤ 16 := by
  induction ns generalizing g with
  | nil => exact hlevel
  | cons n ns ih =>
      refine ih _ ?_ fun n' hn' => hlayers n' (List.mem_cons_of_mem _ hn')
      have hn := hlayers n List.mem_cons_self
      rw [loadNode]
      dsimp only
      split_ifs <;> omega

theorem rowids_stored (g : HnswGraph) : g.stored.map StoredNode.rowid = g.keys.filter fun r =>
    r ∉ g.deleted := by
  rw [stored, List.map_map, HnswGraph.keys, List.filter_map]
  rfl

theorem Sound.reloaded_facts (h : g.Sound dim) :
    g.reloaded.nodes = g.nodes.filter (fun e => e.1 ∉ g.deleted) ∧
      g.reloaded.vectors = g.stored.map StoredNode.vector ∧ g.reloaded.deleted = ∅ ∧
      g.reloaded.entryPoint = g.stored.head?.map StoredNode.rowid := by
  have hnodup : (g.stored.map StoredNode.rowid).Nodup := by
    rw [rowids_stored]
    exact h.keys.filter _
  obtain ⟨h₁, h₂, h₃, h₄⟩ := foldl_loadNode g.stored
    { new (g.m % 2 ^ 32) (g.efConstruction % 2 ^ 32) g.distance with efSearch := g.efSearch % 2 ^ 32 } hnodup
    fun _ _ => ⟨List.not_mem_nil, List.not_mem_nil⟩
  refine ⟨h₁.trans ?_, h₂, h₃, h₄⟩
  rw [new, List.nil_append, stored, List.map_map]
  exact List.map_id _

theorem Sound.keys_reloaded (h : g.Sound dim) : g.reloaded.keys = g.keys.filter fun r => r ∉ g.deleted := by
  rw [HnswGraph.keys, h.reloaded_facts.1, HnswGraph.keys, List.filter_map]
  rfl

theorem Sound.lookup_reloaded (h : g.Sound dim) (r : UInt64) :
    g.reloaded.vectors.lookup r = if r ∈ g.deleted then none else g.vectors.lookup r := by
  have hpairs : g.reloaded.vectors =
      ((g.keys.filter fun r => r ∉ g.deleted).map fun r => (r, (g.vectors.lookup r).getD [])) := by
    rw [h.reloaded_facts.2.1, ← rowids_stored, List.map_map]
    refine List.map_congr_left fun n hn => ?_
    obtain ⟨e, _, rfl⟩ := List.mem_map.mp hn
    rfl
  by_cases hr : r ∈ g.keys.filter fun r => r ∉ g.deleted
  · obtain ⟨hkey, hlive⟩ := List.mem_filter.mp hr
    obtain ⟨vec, hlook, _⟩ := h.exists_vector hkey
    rw [if_neg (by simpa using hlive), hlook, lookup_eq_some_iff, hpairs]
    · exact List.mem_map.mpr ⟨r, hr, by rw [hlook]; rfl⟩
    · rw [hpairs, List.map_map]
      exact (h.keys.filter _).map fun _ _ heq => heq
  · rw [lookup_eq_none_of_notMem]
    · split_ifs with hdel
      · rfl
      · refine (lookup_eq_none_of_notMem fun hmem => hr ?_).symm
        exact List.mem_filter.mpr ⟨h.vectorKeys.mem_iff.mp hmem, by simpa using hdel⟩
    · rw [hpairs, List.map_map]
      intro hmem
      obtain ⟨r', hr', rfl⟩ := List.mem_map.mp hmem
      exact hr hr'

-- No node that is kept names a deleted one.
def Clean (g : HnswGraph) : Prop :=
  ∀ r ∈ g.keys, r ∉ g.deleted → ∀ layer, ∀ nb ∈ g.neighbours layer r, nb ∉ g.deleted

theorem Sound.neighbours_reloaded (h : g.Sound dim) (layer : Nat) (r : UInt64) :
    g.reloaded.neighbours layer r = if r ∈ g.deleted then [] else g.neighbours layer r := by
  rw [neighbours, h.reloaded_facts.1, lookup_filter_key (fun r => r ∉ g.deleted)]
  by_cases hr : r ∈ g.deleted
  · rw [if_pos hr, if_neg (by simpa using hr)]
    rfl
  · rw [if_neg hr, if_pos (by simpa using hr)]
    rfl

theorem Sound.reload (h : g.Sound dim) (hclean : g.Clean) : g.reloaded.Sound dim := by
  have hkeys := h.keys_reloaded
  obtain ⟨hnodes, hvectors, hdeleted, hentry⟩ := h.reloaded_facts
  refine ⟨?_, ?_, fun e he => ?_, fun r hr => ?_, fun layer r nb hnb => ?_, fun layer r => ?_,
    fun e he => ?_, ?_,
    fun ep hep => ?_, ?_⟩
  · rw [hkeys]
    exact h.keys.filter _
  · rw [hkeys, hvectors, ← rowids_stored, List.map_map]
    exact List.Perm.refl _
  · have hlook := (lookup_eq_some_iff (m := g.reloaded.vectors) (k := e.1) (v := e.2) ?_).mpr he
    · rw [h.lookup_reloaded] at hlook
      split_ifs at hlook
      exact h.dims _ (mem_of_lookup hlook)
    · rw [hvectors, List.map_map]
      exact (rowids_stored g).symm ▸ h.keys.filter _
  · rw [hdeleted] at hr
    exact absurd hr (Finset.notMem_empty r)
  · rw [h.neighbours_reloaded] at hnb
    split_ifs at hnb with hr
    · cases hnb
    · have hrkey : r ∈ g.keys := by
        by_contra hnot
        rw [neighbours, lookup_eq_none_of_notMem hnot] at hnb
        cases hnb
      rw [hkeys, List.mem_filter]
      exact ⟨h.closed layer r nb hnb, by simpa using hclean r hrkey hr layer nb hnb⟩
  · rw [h.neighbours_reloaded]
    split_ifs
    · exact List.nodup_nil
    · exact h.distinct layer r
  · rw [hnodes] at he
    exact h.layers e (List.mem_of_mem_filter he)
  · refine level_foldl_loadNode _ _ (Nat.zero_le _) fun n hn => ?_
    obtain ⟨e, he, rfl⟩ := List.mem_map.mp hn
    exact h.layers e (List.mem_of_mem_filter he)
  · rw [hentry] at hep
    obtain ⟨n, hn, rfl⟩ := Option.map_eq_some_iff.mp hep
    rw [hkeys, ← rowids_stored]
    exact List.mem_map_of_mem (List.mem_of_head? hn)
  · rw [hnodes]
    exact (List.length_filter_le _ _).trans_lt h.room

end HnswGraph

end Kkdb.Vector
