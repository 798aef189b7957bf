import Kkdb.Lib.Assoc
import Kkdb.Lib.Bytes
import Kkdb.Vector.LayerSearch

namespace Kkdb.Vector

open Lib LayerSearch

inductive DistanceMetric where
  | Cosine
  | L2
  deriving DecidableEq

abbrev F32 := UInt32

def dotProduct (a b : List Float32) : Float32 := (a.zipWith (· * ·) b).foldl (· + ·) 0

def l2Norm (v : List Float32) : Float32 := ((v.map fun x => x * x).foldl (· + ·) 0).sqrt

def clamp (x lo hi : Float32) : Float32 := if x < lo then lo else if hi < x then hi else x

def cosineSimilarity (a b : List Float32) : Float32 :=
  let len := min a.length b.length
  if len = 0 then 0
  else
    let a := a.take len
    let b := b.take len
    let dot := dotProduct a b
    let normA := l2Norm a
    let normB := l2Norm b
    if normA == 0 || normB == 0 then 0 else clamp (dot / (normA * normB)) (-1) 1

def l2Distance (a b : List Float32) : Float32 :=
  ((a.zipWith (fun x y => (x - y) * (x - y)) b).foldl (· + ·) 0).sqrt

namespace DistanceMetric

def similarity (metric : DistanceMetric) (a b : List F32) : Float32 :=
  let a := a.map .ofBits
  let b := b.map .ofBits
  match metric with
  | .Cosine => cosineSimilarity a b
  | .L2 => 1 / (1 + l2Distance a b)

def distance (metric : DistanceMetric) (a b : List F32) : Float32 :=
  let a := a.map .ofBits
  let b := b.map .ofBits
  match metric with
  | .Cosine => 1 - cosineSimilarity a b
  | .L2 => l2Distance a b

end DistanceMetric

def F32_MAX : Float32 := .ofBits 0x7F7FFFFF

-- A candidate is its distance and its node.
abbrev Candidate := Float32 × UInt64

-- The two binary heaps of a search, in any layout that keeps what is pushed.
structure BinaryHeaps where
  candidates : Heap Candidate
  results : Heap Candidate
  keepsCandidates : candidates.Keeps
  keepsResults : results.Keeps

def listHeaps : BinaryHeaps where
  candidates := listHeap minCandidateCmp
  results := listHeap candidateCmp
  keepsCandidates := keeps_listHeap minCandidateCmp
  keepsResults := keeps_listHeap candidateCmp

def DEFAULT_EF_SEARCH : Nat := 50

structure HnswGraph where
  nodes : List (UInt64 × List (List UInt64))
  vectors : List (UInt64 × List F32)
  deleted : Finset UInt64
  entryPoint : Option UInt64
  maxLevel : Nat
  m : Nat
  mMax0 : Nat
  efConstruction : Nat
  efSearch : Nat
  distance : DistanceMetric

namespace HnswGraph

def new (m efConstruction : Nat) (distance : DistanceMetric) : HnswGraph where
  nodes := []
  vectors := []
  deleted := ∅
  entryPoint := none
  maxLevel := 0
  m := m
  mMax0 := m * 2
  efConstruction := efConstruction
  efSearch := DEFAULT_EF_SEARCH
  distance := distance

def keys (g : HnswGraph) : List UInt64 := g.nodes.map Prod.fst

def len (g : HnswGraph) : Nat := g.nodes.length - g.deleted.card

-- The level that was drawn is capped.
def randomLevel (drawn : Nat) : Nat := min drawn 16

def neighbours (g : HnswGraph) (layer : Nat) (id : UInt64) : List UInt64 :=
  ((g.nodes.lookup id).getD []).getD layer []

def dist (g : HnswGraph) (query : List F32) (nodeId : UInt64) : Float32 :=
  match g.vectors.lookup nodeId with
  | some v => g.distance.distance query v
  | none => F32_MAX

-- Every node but the entry is named in some list of the layer when it is visited.
def named (g : HnswGraph) (layer : Nat) : List UInt64 := g.nodes.flatMap fun e => e.2.getD layer []

variable (heaps : BinaryHeaps)

def searchLayer (g : HnswGraph) (query : List F32) (entry : UInt64) (ef layer : Nat) : List Candidate :=
  match searchLoop heaps.candidates heaps.results (g.neighbours layer) (g.dist query) F32_MAX ef
    ((g.named layer).length + 1) (.start heaps.candidates heaps.results (g.dist query) entry) with
  | some s => sorted s
  | none => []

def selectNeighboursGreedy (candidates : List Candidate) (m : Nat) : List Candidate := candidates.take m

-- The list of a node at a layer is changed in place, behind empty ones for missing layers.
def setLayer (g : HnswGraph) (id : UInt64) (lc : Nat) (f : List UInt64 → List UInt64) : HnswGraph :=
  { g with
    nodes :=
      match g.nodes.lookup id with
      | some adj =>
          let adj := adj ++ List.replicate (lc + 1 - adj.length) []
          put id (adj.set lc (f (adj.getD lc []))) g.nodes
      | none => g.nodes }

def prune (g : HnswGraph) (id : UInt64) (lc mLayer : Nat) : HnswGraph :=
  let nbVec := (g.vectors.lookup id).getD []
  let linked := (g.neighbours lc id).filterMap fun cid =>
    (g.vectors.lookup cid).map fun cv => (g.distance.distance nbVec cv, cid)
  g.setLayer id lc fun _ => (selectNeighboursGreedy linked mLayer).map Prod.snd

def connectBack (rowid : UInt64) (lc mLayer : Nat) (g : HnswGraph) (nb : Candidate) : HnswGraph :=
  let g := g.setLayer nb.2 lc fun list => list ++ [rowid]
  if (g.neighbours lc nb.2).length > mLayer then g.prune nb.2 lc mLayer else g

def connectLayer (g : HnswGraph) (rowid : UInt64) (vec : List F32) (epCur : UInt64) (lc : Nat) :
    HnswGraph × UInt64 :=
  let candidates := g.searchLayer heaps vec epCur g.efConstruction lc
  let epCur :=
    match candidates.head? with
    | some best => best.2
    | none => epCur
  let mLayer := if lc = 0 then g.mMax0 else g.m
  let selected := selectNeighboursGreedy candidates mLayer
  let g := g.setLayer rowid lc fun _ => selected.map Prod.snd
  (selected.foldl (connectBack rowid lc mLayer) g, epCur)

def connect (rowid : UInt64) (vec : List F32) : Nat → HnswGraph → UInt64 → HnswGraph
  | 0, g, _ => g
  | lc + 1, g, epCur =>
      let (g, epCur) := g.connectLayer heaps rowid vec epCur lc
      connect rowid vec lc g epCur

def descend (g : HnswGraph) (vec : List F32) (level : Nat) : Nat → UInt64 → UInt64
  | 0, epCur => epCur
  | lc + 1, epCur =>
      if lc + 1 ≤ level then epCur
      else
        match (g.searchLayer heaps vec epCur 1 (lc + 1)).head? with
        | some best => g.descend vec level lc best.2
        | none => g.descend vec level lc epCur

def addNode (g : HnswGraph) (rowid : UInt64) (vec : List F32) (level : Nat) : HnswGraph :=
  { g with
    deleted := if rowid ∈ g.keys then insert rowid g.deleted else g.deleted
    vectors := put rowid vec g.vectors
    nodes := put rowid (List.replicate (level + 1) []) g.nodes }

def insert (g : HnswGraph) (rowid : UInt64) (vec : List F32) (drawn : Nat) : HnswGraph :=
  let level := randomLevel drawn
  let g := g.addNode rowid vec level
  match g.entryPoint with
  | none => { g with entryPoint := some rowid, maxLevel := level }
  | some ep =>
      let epCur := g.descend heaps vec level g.maxLevel ep
      let g := connect heaps rowid vec (min level g.maxLevel + 1) g epCur
      if level > g.maxLevel then { g with maxLevel := level, entryPoint := some rowid } else g

def lazyDelete (g : HnswGraph) (rowid : UInt64) : HnswGraph :=
    { g with deleted := Insert.insert rowid g.deleted }

def rebuildFromIter (g : HnswGraph) (items : List (UInt64 × List F32 × Nat)) : HnswGraph :=
  items.foldl (fun g item => g.insert heaps item.1 item.2.1 item.2.2)
    { g with nodes := [], vectors := [], deleted := ∅, entryPoint := none, maxLevel := 0 }

def findValidEntry (g : HnswGraph) (ep : UInt64) : Option UInt64 :=
  if ep ∉ g.deleted then some ep
  else
    match (g.neighbours 0 ep).find? fun nb => nb ∉ g.deleted with
    | some nb => some nb
    | none => g.keys.find? fun id => id ∉ g.deleted

-- The greedy descent of a search, which stays where the closest node is a deleted one.
def descendLive (g : HnswGraph) (query : List F32) : Nat → UInt64 → UInt64
  | 0, epCur => epCur
  | lc + 1, epCur =>
      match (g.searchLayer heaps query epCur 1 (lc + 1)).head? with
      | some best => g.descendLive query lc (if best.2 ∉ g.deleted then best.2 else epCur)
      | none => g.descendLive query lc epCur

def entryUsed (g : HnswGraph) (query : List F32) : Option UInt64 :=
  match g.entryPoint with
  | none => none
  | some ep =>
      if ep ∈ g.deleted ∧ g.nodes.length = g.deleted.card then none
      else (g.findValidEntry ep).map (g.descendLive heaps query g.maxLevel)

def searchWithEf (g : HnswGraph) (query : List F32) (topK ef : Nat) : List (UInt64 × Float32) :=
  match g.entryUsed heaps query with
  | none => []
  | some epCur =>
      let candidates := g.searchLayer heaps query epCur (max ef topK) 0
      let results := ((candidates.filter fun c => c.2 ∉ g.deleted).take topK).map fun c =>
        (c.2, g.distance.similarity query ((g.vectors.lookup c.2).getD []))
      results.mergeSort fun a b => partialCmp b.2 a.2 ≠ .gt

def search (g : HnswGraph) (query : List F32) (topK : Nat) : List (UInt64 × Float32) :=
  g.searchWithEf heaps query topK g.efSearch

end HnswGraph

end Kkdb.Vector
