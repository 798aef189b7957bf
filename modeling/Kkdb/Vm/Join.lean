import Kkdb.Vm.Schema
import Kkdb.Vm.TypedKey

namespace Kkdb

open Lib

namespace Schema

variable (schema : Schema)

mutual

-- `count_select_output_columns` and `count_from_columns`.
def countSelectOutputColumns : SelectStmt → Option Nat
  | ⟨_, columns, fromClause, _, _, _, _, _, _, _, _, _⟩ =>
      columns.foldlM (fun count column =>
        match column with
        | .Expr _ _ => some (count + 1)
        | .AllColumns => (countOptionalFrom fromClause).map (count + ·)
        | .TableAllColumns table => (schema.getTable table).map (count + ·.columns.length)) 0

def countFromColumns : FromClause → Option Nat
  | .Table name _ => (schema.getTable name).map (·.columns.length)
  | .Join left _ right _ => do
      let l ← countFromColumns left
      let r ← countFromColumns right
      return l + r
  | .Subquery query _ => countSelectOutputColumns query
  | .SetOp _ _ => none
  | .TableFunction _ _ _ _ => some 1

def countOptionalFrom : Option FromClause → Option Nat
  | some fromClause => countFromColumns fromClause
  | none => none

end

end Schema

-- The names and what the map says of them, before the columns at the given offset and beyond are added.
structure NameMap where
  colMap : ColMap
  offset : Nat

namespace NameMap

-- `col_map.insert`: a later entry of one name wins.
def insert (m : NameMap) (name : List Char) (index : Nat) : NameMap :=
  { m with colMap := (name, index) :: m.colMap }

def qualify (table column : String) : List Char := lowerBytes table ++ '.' :: lowerBytes column

def columns (colNames : List String) (count : Nat) (add : NameMap → String → Nat → NameMap) (m : NameMap) :
    NameMap :=
  let m' := (List.range' m.offset count).foldl (fun m index =>
    match colNames[index]? with
    | some column => add m column index
    | none => m) m
  { m' with offset := m.offset + count }

def addTable (name : String) (aliasName : Option String) (m : NameMap) (column : String) (index : Nat) :
    NameMap :=
  let m := m.insert (qualify name column) index
  match aliasName with
  | some a => m.insert (qualify a column) index
  | none => m

def addSubquery (aliasName : String) (m : NameMap) (column : String) (index : Nat) : NameMap :=
  let m := m.insert (qualify aliasName column) index
  match m.colMap.lookup (toAsciiLowercase column) with
  | some _ => m
  | none => m.insert (toAsciiLowercase column) index

def functionColumn (name : String) (column : Option String) : String :=
  column.getD
    (if toAsciiLowercase name = "unnest".toList then "unnest"
     else if toAsciiLowercase name = "generate_series".toList then "generate_series"
     else "value")

end NameMap

-- `inject_qualified_names`.
def injectQualifiedNames (schema : Schema) (colNames : List String) : FromClause → NameMap → NameMap
  | .Table name aliasName, m =>
      match schema.getTable name with
      | some table => m.columns colNames table.columns.length (NameMap.addTable name aliasName)
      | none => m
  | .Join left _ right _, m =>
      injectQualifiedNames schema colNames right (injectQualifiedNames schema colNames left m)
  | .Subquery query aliasName, m =>
      match schema.countSelectOutputColumns query with
      | some count => m.columns colNames count (NameMap.addSubquery aliasName)
      | none => m
  | .SetOp _ _, m => m
  | .TableFunction name _ aliasName column, m =>
      let label := (aliasName.getD name).toLower.toList ++
        '.' :: (NameMap.functionColumn name column).toLower.toList
      let m' := if m.offset < colNames.length then m.insert label m.offset else m
      { m' with offset := m.offset + 1 }

def combinedColMap (schema : Schema) (left right : FromClause) (combinedCols : List String) : ColMap :=
  let names : NameMap := { colMap := buildColMap combinedCols, offset := 0 }
  (injectQualifiedNames schema combinedCols right
    (injectQualifiedNames schema combinedCols left names)).colMap

def joinColumn (colMap : ColMap) (table : Option String) (column : String) : Option Nat :=
  ((table.bind fun t => colMap.lookup (NameMap.qualify t column)).or
    (colMap.lookup (lowerBytes column))).or (colMap.lookup column.toList)

def detectEquiJoin (on : Option Expr) (colMap : ColMap) (leftColCount : Nat) : Option (Nat × Nat) :=
  match on with
  | some (.BinaryOp (.ColumnRef lt lc) .Equal (.ColumnRef rt rc)) => do
      let li ← joinColumn colMap lt lc
      let ri ← joinColumn colMap rt rc
      if li < leftColCount ∧ leftColCount ≤ ri then some (li, ri - leftColCount)
      else if ri < leftColCount ∧ leftColCount ≤ li then some (ri, li - leftColCount)
      else none
  | _ => none

-- One side of a join as `eval_from` returns it.
structure Source where
  rows : List Row
  cols : List String
  deriving DecidableEq

namespace Source

def width (s : Source) : Nat := s.cols.length

def nulls (s : Source) : Row := List.replicate s.width .Null

end Source

-- An index into a row that is too short panics.
def keyAt (row : Row) (index : Nat) : Res Value :=
  match row[index]? with
  | some v => .ok v
  | none => .error .Panic

section Hash

variable (fmt : RealText)

-- The loop that fills a hash table with the keys of a side. `add` gives the new entry of a key.
def hashRows {β : Type} (add : Option β → Nat → β) (index : Nat) (rows : List Row) :
    Res (List (List UInt8 × β)) :=
  rows.zipIdx.foldlM (fun hash (row, i) => do
    let v ← keyAt row index
    if v = .Null then return hash
    return put (typedKey fmt v) (add (hash.lookup (typedKey fmt v)) i) hash) []

def addIndex (indices : Option (List Nat)) (i : Nat) : List Nat := indices.getD [] ++ [i]

-- The rows that one probing row gives: one for each match, or the padding.
def probeRow (hash : List (List UInt8 × List Nat)) (index : Nat) (combine : Nat → Row) (pad : List Row)
    (row : Row) : Res (List Row) := do
  let v ← keyAt row index
  if v = .Null then return pad
  match hash.lookup (typedKey fmt v) with
  | some indices => return indices.map combine
  | none => return pad

def probeSemi (hash : List (List UInt8 × Unit)) (index : Nat) (row : Row) : Res (List Row) := do
  let v ← keyAt row index
  if v = .Null then return []
  return if (hash.lookup (typedKey fmt v)).isSome then [row] else []

def hashJoin (joinType : JoinType) (left right : Source) (leftIndex rightIndex : Nat) : Res (List Row) :=
  match joinType with
  | .Left => do
      let hash ← hashRows fmt addIndex rightIndex right.rows
      let found ← left.rows.mapM fun l =>
        probeRow fmt hash leftIndex (fun i => l ++ right.rows.getD i []) [l ++ right.nulls] l
      return found.flatten
  | .Right => do
      let hash ← hashRows fmt addIndex leftIndex left.rows
      let found ← right.rows.mapM fun r =>
        probeRow fmt hash rightIndex (fun i => left.rows.getD i [] ++ r) [left.nulls ++ r] r
      return found.flatten
  | .LeftSemi => do
      let hash ← hashRows fmt (fun _ _ => ()) rightIndex right.rows
      let found ← left.rows.mapM (probeSemi fmt hash leftIndex)
      return found.flatten
  | .RightSemi => do
      let hash ← hashRows fmt (fun _ _ => ()) leftIndex left.rows
      let found ← right.rows.mapM (probeSemi fmt hash rightIndex)
      return found.flatten
  | _ => do
      let hash ← hashRows fmt addIndex rightIndex right.rows
      let found ← left.rows.mapM fun l =>
        probeRow fmt hash leftIndex (fun i => l ++ right.rows.getD i []) [] l
      return found.flatten

end Hash

section NestedLoop

variable (env : EvalEnv) (colMap : ColMap) (on : Option Expr)

def onHolds (combined : Row) : Res Bool :=
  match on with
  | some e => do
      let v ← env.evalExpr e combined colMap
      return v.isTruthy
  | none => return true

def matching (combine : Row → Row) (others : List Row) : Res (List Row) := do
  let found ← others.mapM fun other => do
    let holds ← onHolds env colMap on (combine other)
    return if holds then [combine other] else []
  return found.flatten

-- The inner loop of a semi join stops at the first match.
def anyMatching (combine : Row → Row) : List Row → Res Bool
  | [] => return false
  | other :: others => do
      let holds ← onHolds env colMap on (combine other)
      if holds then return true
      anyMatching combine others

def padded (pad : Row) (found : List Row) : List Row := if found = [] then [pad] else found

def nestedLoop (joinType : JoinType) (left right : Source) : Res (List Row) :=
  match joinType with
  | .Left => do
      let found ← left.rows.mapM fun l => do
        let found ← matching env colMap on (l ++ ·) right.rows
        return padded (l ++ right.nulls) found
      return found.flatten
  | .Right => do
      let found ← right.rows.mapM fun r => do
        let found ← matching env colMap on (· ++ r) left.rows
        return padded (left.nulls ++ r) found
      return found.flatten
  | .LeftSemi => do
      let found ← left.rows.mapM fun l => do
        let holds ← anyMatching env colMap on (l ++ ·) right.rows
        return if holds then [l] else []
      return found.flatten
  | .RightSemi => do
      let found ← right.rows.mapM fun r => do
        let holds ← anyMatching env colMap on (· ++ r) left.rows
        return if holds then [r] else []
      return found.flatten
  | _ => do
      let found ← left.rows.mapM fun l => matching env colMap on (l ++ ·) right.rows
      return found.flatten

-- FULL JOIN: a left join, and then the right rows that no left row matched.
def fullJoin (left right : Source) : Res (List Row) := do
  let marks ← left.rows.mapM fun l => right.rows.mapM fun r => onHolds env colMap on (l ++ r)
  let found := (left.rows.zip marks).flatMap fun (l, marks) =>
    padded (l ++ right.nulls) (((right.rows.zip marks).filter (·.2)).map (l ++ ·.1))
  let unmatched := right.rows.zipIdx.filter fun (_, i) => marks.all fun marks => !marks.getD i false
  return found ++ unmatched.map (left.nulls ++ ·.1)

end NestedLoop

def commonCols (left right : Source) : List (Nat × Nat) :=
  left.cols.zipIdx.filterMap fun (name, li) =>
    (right.cols.findIdx? fun other => sameName other name).map fun ri => (li, ri)

def allEqual (l r : Row) : List (Nat × Nat) → Res Bool
  | [] => return true
  | (li, ri) :: common => do
      let v ← keyAt l li
      let w ← keyAt r ri
      if v.eq w then allEqual l r common else return false

def unshared {α : Type} (common : List (Nat × Nat)) (items : List α) : List α :=
  (items.zipIdx.filter fun (_, i) => !common.any (·.2 = i)).map (·.1)

def naturalJoin (left right : Source) : Res (List Row) := do
  let common := commonCols left right
  let found ← left.rows.mapM fun l => do
    let found ← right.rows.mapM fun r => do
      let equal ← allEqual l r common
      return if equal then [l ++ unshared common r] else []
    return found.flatten
  return found.flatten

-- The arm of `eval_from` for joins, with the key columns that `detect_equi_join` found.
def joinSources (fmt : RealText) (env : EvalEnv) (colMap : ColMap) (on : Option Expr)
    (equi : Option (Nat × Nat)) (joinType : JoinType) (left right : Source) : Res Source :=
  match joinType with
  | .Full => do
      let rows ← fullJoin env colMap on left right
      return { rows := rows, cols := left.cols ++ right.cols }
  | .Natural => do
      let rows ← naturalJoin left right
      return { rows := rows, cols := left.cols ++ unshared (commonCols left right) right.cols }
  | _ => do
      let rows ← match equi with
        | some (leftIndex, rightIndex) => hashJoin fmt joinType left right leftIndex rightIndex
        | none => nestedLoop env colMap on joinType left right
      let cols := match joinType with
        | .LeftSemi => left.cols
        | .RightSemi => right.cols
        | _ => left.cols ++ right.cols
      return { rows := rows, cols := cols }

def evalJoin (fmt : RealText) (env : EvalEnv) (colMap : ColMap) (on : Option Expr) (joinType : JoinType)
    (left right : Source) : Res Source :=
  joinSources fmt env colMap on (detectEquiJoin on colMap left.width) joinType left right

end Kkdb
