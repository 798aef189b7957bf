import Kkdb.Vm.Select

namespace Kkdb

namespace Cte

-- The lower-cased names under which `cte_cache` keeps its entries.
abbrev Key := List Char

def key (name : String) : Key := toAsciiLowercase name

abbrev CteCache := Key → Option Source

structure TableInfo where
  colNames : List String
  viewSelect : Option SelectStmt
  rlsEnabled : Bool

-- Code that reaches `cte_cache` only through the statements it runs. It takes what they answer, also their
-- errors, and it reads and writes the rest of the VM. A statement is stored when its text is no part of the
-- statement being executed: views and policies are.
inductive Program (σ α : Type) where
  | ret (a : α)
  | fail (fault : Fault)
  | select (stored : Bool) (q : SelectStmt) (next : Except KkdbError Source → Program σ α)
  | get (next : σ → Program σ α)
  | put (s : σ) (next : Program σ α)

class VmMonad (σ : outParam Type) (m : Type → Type) extends Monad m where
  rest : m σ
  setRest : σ → m Unit
  fault {α : Type} : Fault → m α
  attempt {α : Type} : m α → m (Except KkdbError α)

-- The parts of `exec_select` and of the functions it calls that do not name `cte_cache`.
structure Vm (σ : Type) where
  getTable : σ → String → Res TableInfo
  reorderJoins : σ → FromClause → FromClause
  countRows : String → Program σ Nat
  scanRowsLimit : String → Nat → Program σ (List Row)
  scanRows : String → Program σ (List Row)
  evalConst : Expr → Program σ Value
  tryIndexScan : String → Expr → Program σ (Option Source)
  join : FromClause → JoinType → FromClause → Option Expr → Source → Source → Program σ Source
  setOp : SetOpStmt → Source → Source → Program σ Source
  tableFunction : String → List Expr → Option String → Program σ Source
  -- From the policies and WHERE to LIMIT: the result and the ids of the rows it comes from.
  finish : SelectStmt → Option FromClause → (cached indexed : Bool) → Source →
    Program σ (Source × List Int64)
  lockRows : SelectStmt → Option FromClause → List Int64 → Program σ Unit

section Pieces

variable {σ : Type} {m : Type → Type} [VmMonad σ m]

def Program.run {α : Type} (select : Bool → SelectStmt → m Source) : Program σ α → m α
  | .ret a => pure a
  | .fail fault => VmMonad.fault fault
  | .select stored q next => do
      let answer ← VmMonad.attempt (select stored q)
      (next answer).run select
  | .get next => do
      let s ← VmMonad.rest
      (next s).run select
  | .put s next => do
      VmMonad.setRest s
      next.run select

variable (vm : Vm σ) (select : Bool → SelectStmt → m Source)

def getTable (name : String) : m TableInfo := do
  let s ← VmMonad.rest
  match vm.getTable s name with
  | .ok table => return table
  | .error fault => VmMonad.fault fault

-- `eval_from` for a table or a view of the schema.
def storedTable (name : String) : m Source := do
  let table ← getTable vm name
  match table.viewSelect with
  | some q => select true q
  | none => do
      let rows ← (vm.scanRows name).run select
      return { rows := rows, cols := table.colNames }

-- The other arms of `eval_from`.
def evalFrom (table : String → m Source) : FromClause → m Source
  | .Table name _ => table name
  | .Join left joinType right on => do
      let l ← evalFrom table left
      let r ← evalFrom table right
      (vm.join left joinType right on l r).run select
  | .Subquery q _ => select false q
  | .SetOp stmt _ => do
      let l ← select false stmt.left
      let r ← select false stmt.right
      (vm.setOp stmt l r).run select
  | .TableFunction name args _ column => (vm.tableFunction name args column).run select

def rlsOn (s : σ) (name : String) : Bool :=
  match vm.getTable s name with
  | .ok table => table.rlsEnabled
  | .error _ => false

def shortcutTable (applies : Bool) (s : σ) : Option FromClause → Option String
  | some (.Table name _) => if applies && !rlsOn vm s name then some name else none
  | _ => none

def countStar (name : String) : m Source := do
  let _ ← getTable vm name
  let count ← (vm.countRows name).run select
  return { rows := [[.Integer (Int64.ofNat count)]], cols := ["COUNT(*)"] }

def evalCount (count : Value → Nat) (absent : Nat) : Option Expr → m Nat
  | some e => do
      let v ← (vm.evalConst e).run select
      return count v
  | none => return absent

def limitRows (q : SelectStmt) (name : String) : m Source := do
  let limit ← evalCount vm select (fun v => (SelectStmt.limitOf v).getD SelectStmt.usizeMax)
    SelectStmt.usizeMax q.limit
  let offset ← evalCount vm select SelectStmt.offsetCount 0 q.offset
  let table ← getTable vm name
  let rows ← (vm.scanRowsLimit name (min (limit + offset) SelectStmt.usizeMax)).run select
  return { rows := rows, cols := table.colNames }

def indexProbe (q : SelectStmt) : Option FromClause → Option (String × Expr)
  | some (.Table name _) => q.whereClause.map fun e => (name, e)
  | _ => none

def wholeSource (table : String → m Source) : Option FromClause → m Source
  | some fromClause => evalFrom vm select table fromClause
  | none => return { rows := [[]], cols := [] }

end Pieces

structure VmState (σ : Type) where
  cteCache : CteCache
  rest : σ

abbrev VmM (σ : Type) := EStateM Fault (VmState σ)

instance (σ : Type) : VmMonad σ (VmM σ) where
  rest := fun s => .ok s.rest s
  setRest rest := fun s => .ok () { s with rest := rest }
  fault f := fun s => .error f s
  attempt x := fun s =>
    match x s with
    | .ok a s' => .ok (.ok a) s'
    | .error (.Err e) s' => .ok (.error e) s'
    | .error f s' => .error f s'

section Code

variable {σ : Type} (vm : Vm σ) (query : SelectStmt → VmM σ Source)

def insertCte (name : String) (source : Source) : VmM σ Unit :=
  modify fun s => { s with cteCache := Function.update s.cteCache (key name) (some source) }

def removeCte (name : String) : VmM σ Unit :=
  modify fun s => { s with cteCache := Function.update s.cteCache (key name) none }

-- The declared names of a CTE replace the first columns of its query.
def declared (columns cols : List String) : List String :=
  columns.take cols.length ++ cols.drop columns.length

def recursiveParts (q : SelectStmt) : Option (SelectStmt × SelectStmt) :=
  match q.fromClause with
  | some (.SetOp stmt _) =>
      if stmt.kind = .UnionAll ∨ stmt.kind = .UnionDistinct then some (stmt.left, stmt.right) else none
  | _ => none

def maxRecursionDepth : Nat := 1000

-- The loop of `eval_recursive_cte`, with the rows so far and those of the last iteration.
def iterate (name : String) (cols : List String) (part : SelectStmt) :
    Nat → (all last : List Row) → VmM σ (List Row)
  | 0, all, _ => return all
  | n + 1, all, last =>
      if last = [] then return all
      else do
        insertCte name { rows := last, cols := cols }
        let next ← query part
        if next.rows = [] then return all
        else iterate name cols part n (all ++ next.rows) next.rows

def evalRecursiveCte (cte : CteDefinition) : VmM σ Source :=
  match recursiveParts cte.query with
  | none => query cte.query
  | some (anchor, part) => do
      let first ← query anchor
      let cols := declared cte.columns first.cols
      let rows ← iterate query cte.name cols part maxRecursionDepth first.rows first.rows
      return { rows := rows, cols := cols }

def evalCte (cte : CteDefinition) : VmM σ Source :=
  if cte.isRecursive then evalRecursiveCte query cte else query cte.query

def evalCtes : List CteDefinition → VmM σ Unit
  | [] => return ()
  | cte :: ctes => do
      let source ← evalCte query cte
      insertCte cte.name { source with cols := declared cte.columns source.cols }
      evalCtes ctes

def removeCtes : List CteDefinition → VmM σ Unit
  | [] => return ()
  | cte :: ctes => do
      removeCte cte.name
      removeCtes ctes

-- `eval_from` for a name: CTEs shadow the tables and views of the schema.
def evalTable (name : String) : VmM σ Source := do
  let s ← get
  match s.cteCache (key name) with
  | some source => return source
  | none => storedTable vm (fun _ => query) name

def sourceRows (q : SelectStmt) (fromClause : Option FromClause) : VmM σ (Source × Bool) := do
  let whole := wholeSource vm (fun _ => query) (evalTable vm query) fromClause
  let s ← VmMonad.rest
  match shortcutTable vm q.limitPushdown s fromClause with
  | some name => do
      let source ← limitRows vm (fun _ => query) q name
      return (source, false)
  | none =>
      match indexProbe q fromClause with
      | some (name, e) => do
          let answer ← (vm.tryIndexScan name e).run (fun _ => query)
          match answer with
          | some source => return (source, true)
          | none => do
              let source ← whole
              return (source, false)
      | none => do
          let source ← whole
          return (source, false)

-- Whether the rows of the result have no row ids because they come from a CTE.
def isCached (fromClause : Option FromClause) : VmM σ Bool := do
  let s ← get
  match fromClause with
  | some (.Table name _) => return (s.cteCache (key name)).isSome
  | _ => return false

def resultRows (q : SelectStmt) (fromClause : Option FromClause) : VmM σ (Source × List Int64) := do
  let (source, indexed) ← sourceRows vm query q fromClause
  let cached ← isCached fromClause
  (vm.finish q fromClause cached indexed source).run (fun _ => query)

def finishSelect (q : SelectStmt) (fromClause : Option FromClause) : VmM σ Source := do
  let (source, ids) ← resultRows vm query q fromClause
  removeCtes q.ctes
  (vm.lockRows q fromClause ids).run (fun _ => query)
  return source

-- The shortcut of COUNT(*) returns before the end of the function.
def countOrFinish (q : SelectStmt) (fromClause : Option FromClause) : Option String → VmM σ Source
  | some name => countStar vm (fun _ => query) name
  | none => finishSelect vm query q fromClause

-- `exec_select`, given what runs the statements inside the statement.
def selectBody (q : SelectStmt) : VmM σ Source := do
  evalCtes query q.ctes
  let s ← VmMonad.rest
  let fromClause := q.fromClause.map (vm.reorderJoins s)
  countOrFinish vm query q fromClause (shortcutTable vm q.isCountStar s fromClause)

end Code

-- The nesting of statements is bounded by the fuel.
def execSelect {σ : Type} (vm : Vm σ) : Nat → SelectStmt → VmM σ Source
  | 0, _ => throw .Hang
  | n + 1, q => selectBody vm (execSelect vm n) q

end Cte

end Kkdb
