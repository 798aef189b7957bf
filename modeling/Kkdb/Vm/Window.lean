import Kkdb.Lib.Grouping
import Kkdb.Vm.Aggregate

namespace Kkdb

open Lib

def asUsize (v : Int64) : Nat := v.toUInt64.toNat

def usizeCount : Nat := 18446744073709551616

def saturatingAdd (a b : Nat) : Nat := min (a + b) (usizeCount - 1)

def keysEq : List Value → List Value → Bool
  | [], [] => true
  | v :: vs, w :: ws => v.eq w && keysEq vs ws
  | _, _ => false

-- `max_by` keeps the last of equal values and `min_by` the first.
def maxBy (best : Option Value) (v : Value) : Option Value :=
  match best with
  | none => some v
  | some current => if (current.partialCmp v).getD .eq = .gt then some current else some v

def minBy (best : Option Value) (v : Value) : Option Value :=
  match best with
  | none => some v
  | some current => if (current.partialCmp v).getD .eq = .gt then some v else some current

def Summing.addWrapping (ops : SumOps) (s : Summing) : Value → Summing
  | .Integer v =>
      if s.isInt then { s with intSum := s.intSum + v, hasValue := true } else s.addReal ops (Double.ofInt64 v)
  | .Real bits => s.addReal ops bits
  | _ => s

def windowAvg (ops : SumOps) (values : List Value) : Value :=
  let nonNull := values.filter fun v => v ≠ .Null
  if nonNull = [] then .Null
  else
    let sum := nonNull.foldl (fun sum v =>
      match v with
      | .Integer x => ops.add sum (Double.ofInt64 x)
      | .Real bits => ops.add sum bits
      | _ => sum) 0
    .Real (ops.div sum (Double.ofInt64 (Int64.ofNat nonNull.length)))

def windowAggregateValue (ops : SumOps) (name : String) (values : List Value) : Value :=
  if eqIgnoreCase name "SUM" then (values.foldl (Summing.addWrapping ops) Summing.start).result
  else if eqIgnoreCase name "COUNT" then
    .Integer (Int64.ofNat (values.filter fun v => v ≠ .Null).length)
  else if eqIgnoreCase name "AVG" then windowAvg ops values
  else if eqIgnoreCase name "MAX" then ((values.filter fun v => v ≠ .Null).foldl maxBy none).getD .Null
  else if eqIgnoreCase name "MIN" then ((values.filter fun v => v ≠ .Null).foldl minBy none).getD .Null
  else .Null

-- The list of the values that `SELECT` groups together, in the order of the window. A vector has no more
-- elements than `isize::MAX`.
structure Partition where
  groups : List (List Row)
  length_le : groups.length ≤ 9223372036854775807

namespace ScalarEnv

variable (env : ScalarEnv) (ops : SumOps) (colMap : ColMap)

-- `eval_expr_with_aggregates(..).unwrap_or(Value::Null)` on the first row of a group.
def groupValue (e : Expr) (group : List Row) : Value :=
  (env.evalExprWithAggregates ops group e (group.headD []) colMap).toOption.getD .Null

def orderKeys (orderBy : List OrderByItem) (group : List Row) : List Value :=
  orderBy.map fun item => env.groupValue ops colMap item.expr group

def constantOr (default : Value) (e : Expr) : Value := (env.evalConstantExpr e).getD default

def rowsStart (n p : Nat) : WindowBound → Nat
  | .CurrentRow => p
  | .UnboundedPreceding => 0
  | .Preceding e =>
      match env.constantOr (.Integer 0) e with
      | .Integer v => p - asUsize v
      | _ => 0
  | .Following e =>
      match env.constantOr (.Integer 0) e with
      | .Integer v => saturatingAdd p (asUsize v)
      | _ => p
  | .UnboundedFollowing => n - 1

def rowsEnd (n p : Nat) : WindowBound → Nat
  | .CurrentRow => p
  | .UnboundedPreceding => 0
  | .Preceding e =>
      match env.constantOr (.Integer 0) e with
      | .Integer v => p - asUsize v
      | _ => p
  | .Following e =>
      match env.constantOr (.Integer 0) e with
      | .Integer v => saturatingAdd p (asUsize v)
      | _ => p
  | .UnboundedFollowing => n - 1

-- The number of the peer group that bounds a GROUPS frame.
def groupBound (count current : Nat) : WindowBound → Nat
  | .UnboundedPreceding => 0
  | .CurrentRow => current
  | .Preceding e =>
      match env.constantOr (.Integer 0) e with
      | .Integer v => current - asUsize v
      | _ => current
  | .Following e =>
      match env.constantOr (.Integer 0) e with
      | .Integer v => min ((current + asUsize v) % usizeCount) (count - 1)
      | _ => min current (count - 1)
  | .UnboundedFollowing => count - 1

section Frame

variable (orderBy : List OrderByItem) (part : Partition)

def keysAt (p : Nat) : List Value := env.orderKeys ops colMap orderBy (part.groups.getD p [])

def firstPeer (p : Nat) : Nat :=
  p - (((List.range p).reverse.takeWhile fun q =>
    keysEq (env.keysAt ops colMap orderBy part q) (env.keysAt ops colMap orderBy part p)).length)

def lastPeer (p : Nat) : Nat :=
  p + (((List.range' (p + 1) (part.groups.length - (p + 1))).takeWhile fun q =>
    keysEq (env.keysAt ops colMap orderBy part q) (env.keysAt ops colMap orderBy part p)).length)

def rangeStart (p : Nat) : WindowBound → Nat
  | .CurrentRow => env.firstPeer ops colMap orderBy part p
  | _ => 0

def rangeEnd (p : Nat) : WindowBound → Nat
  | .CurrentRow => env.lastPeer ops colMap orderBy part p
  | _ => part.groups.length - 1

-- Whether the peers of a position are others than those of the position before it.
def changesAt (q : Nat) : Bool :=
  !keysEq (env.keysAt ops colMap orderBy part q) (env.keysAt ops colMap orderBy part (q - 1))

def groupsFrame (p : Nat) (start stop : WindowBound) : Nat × Nat :=
  let bounds := Runs.bounds (env.changesAt ops colMap orderBy part) part.groups.length
  let current := Runs.locate (env.changesAt ops colMap orderBy part) part.groups.length p
  let groupStart := env.groupBound bounds.length current start
  let groupEnd := env.groupBound bounds.length current stop
  ((bounds.getD groupStart (0, 0)).1, (bounds.getD (max groupEnd groupStart) (0, 0)).2)

-- The bounds of the frame of a position before they are clamped.
def frameBounds (frame : Option WindowFrame) (p : Nat) : Nat × Nat :=
  match frame with
  | some wf =>
      match wf.unit with
      | .Rows =>
          (env.rowsStart part.groups.length p wf.start,
            match wf.stop with
            | some stop => env.rowsEnd part.groups.length p stop
            | none => p)
      | .Range =>
          (env.rangeStart ops colMap orderBy part p wf.start,
            env.rangeEnd ops colMap orderBy part p (wf.stop.getD .CurrentRow))
      | .Groups => env.groupsFrame ops colMap orderBy part p wf.start (wf.stop.getD .CurrentRow)
  | none => (0, if orderBy.isEmpty then part.groups.length - 1 else p)

-- The positions from `start` to `end`, of which there is always one.
def framePositions (frame : Option WindowFrame) (p : Nat) : List Nat :=
  let bounds := env.frameBounds ops colMap orderBy part frame p
  let start := min bounds.1 (part.groups.length - 1)
  let stop := max (min bounds.2 (part.groups.length - 1)) start
  List.range' start (stop - start + 1)

-- The rank of a position is that of the first position with its keys.
def rankAt (p : Nat) : Nat :=
  if orderBy.isEmpty then p + 1
  else
    ((List.range p).find? fun q =>
      keysEq (env.keysAt ops colMap orderBy part q) (env.keysAt ops colMap orderBy part p)).getD p + 1

def denseRankAt (p : Nat) : Nat :=
  if orderBy.isEmpty then p + 1
  else
    ((List.range (p + 1)).foldl (fun seen q =>
      let keys := env.keysAt ops colMap orderBy part q
      if seen.any fun other => keysEq other keys then seen else seen ++ [keys]) []).length

def ntileAt (buckets p : Nat) : Nat :=
  let size := part.groups.length / buckets
  let larger := part.groups.length % buckets
  let bucket :=
    if p < larger * (size + 1) then p / (size + 1) + 1
    else (p - larger * (size + 1)) / max size 1 + larger + 1
  min bucket buckets

-- How far LAG and LEAD look, and what they give outside the partition.
def offsetOf (offset : Option Expr) : Nat :=
  match offset with
  | some e =>
      match env.constantOr (.Integer 1) e with
      | .Integer v => asUsize v
      | _ => 1
  | none => 1

def defaultOf (default : Option Expr) : Value :=
  match default with
  | some e => env.constantOr .Null e
  | none => .Null

def ratio (a b : Nat) : Value :=
  .Real (ops.div (Double.ofInt64 (Int64.ofNat a)) (Double.ofInt64 (Int64.ofNat b)))

def frameVals (args : List Expr) (frame : List (List Row)) : List Value :=
  match args with
  | [] => []
  | arg :: _ => frame.map fun group => env.groupValue ops colMap arg group

-- The functions that read the groups of the frame.
def frameValue (func : WindowFunc) (frame : List (List Row)) : Value :=
  match func with
  | .FirstValue e =>
      match frame.head? with
      | some group => env.groupValue ops colMap e group
      | none => .Null
  | .LastValue e =>
      match frame.getLast? with
      | some group => env.groupValue ops colMap e group
      | none => .Null
  | .NthValue e n =>
      let nth := match env.constantOr (.Integer 1) n with
        | .Integer v => if 1 ≤ v then asUsize (v - 1) else 0
        | _ => 0
      match frame[nth]? with
      | some group => env.groupValue ops colMap e group
      | none => .Null
  | .Aggregate name args _ => windowAggregateValue ops name (env.frameVals ops colMap args frame)
  | _ => .Null

def windowFuncValue (func : WindowFunc) (frame : Option WindowFrame) (p : Nat) : Value :=
  match func with
  | .RowNumber => .Integer (Int64.ofNat (p + 1))
  | .Rank => .Integer (Int64.ofNat (env.rankAt ops colMap orderBy part p))
  | .DenseRank => .Integer (Int64.ofNat (env.denseRankAt ops colMap orderBy part p))
  | .PercentRank =>
      if part.groups.length ≤ 1 then .Real 0
      else ratio ops (env.rankAt ops colMap orderBy part p - 1) (part.groups.length - 1)
  | .CumeDist =>
      if part.groups.length = 0 then .Real 0
      else ratio ops (env.lastPeer ops colMap orderBy part p + 1) part.groups.length
  | .Ntile n =>
      let buckets := match env.constantOr (.Integer 1) n with
        | .Integer v => if 0 < v then asUsize v else 1
        | _ => 1
      .Integer (Int64.ofNat (ntileAt part buckets p))
  | .Lag e offset default =>
      if env.offsetOf offset ≤ p then
        env.groupValue ops colMap e (part.groups.getD (p - env.offsetOf offset) [])
      else env.defaultOf default
  | .Lead e offset default =>
      match part.groups[(p + env.offsetOf offset) % usizeCount]? with
      | some group => env.groupValue ops colMap e group
      | none => env.defaultOf default
  | func =>
      env.frameValue ops colMap func
        ((env.framePositions ops colMap orderBy part frame p).map fun q => part.groups.getD q [])

end Frame

end ScalarEnv

end Kkdb
