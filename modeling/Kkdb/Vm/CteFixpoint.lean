import Kkdb.Lib.Iterates
import Kkdb.Lib.State
import Kkdb.Vm.Cte

namespace Kkdb.Cte

open Lib

section Fixpoint

variable {σ : Type} (query : SelectStmt → VmM σ Source)

-- The recursive part sees the rows of the last iteration under the name of the CTE.
def readWorking (name : String) (cols : List String) (part : SelectStmt) (last : List Row) : VmM σ Source := do
  insertCte name { rows := last, cols := cols }
  query part

def Iteration (name : String) (cols : List String) (part : SelectStmt) (last : List Row) (s : VmState σ)
    (next : List Row) (s' : VmState σ) : Prop :=
  ∃ source, readWorking query name cols part last s = .ok source s' ∧ next = source.rows

def RecursiveCte (cte : CteDefinition) (stmt : SetOpStmt) : Prop :=
  (stmt.kind = .UnionAll ∨ stmt.kind = .UnionDistinct) ∧ ∃ name, cte.query.fromClause = some (.SetOp stmt name)

-- The rows that are meant: all the iterations, or for UNION what they derive, each row once.
def IsFixpoint (cte : CteDefinition) (stmt : SetOpStmt) (first : Source) (s : VmState σ)
    (rows : List Row) : Prop :=
  let step := Iteration query cte.name (declared cte.columns first.cols) stmt.right
  if stmt.kind = .UnionAll then ∃ its, Iterates step first.rows s its ∧ rows = first.rows ++ its.flatten
  else rows.Nodup ∧ ∃ out, Saturates step first.rows.dedup first.rows.dedup s out ∧ ∀ r, r ∈ rows ↔ r ∈ out

-- A recursive CTE that is evaluated without an error gives all its rows.
def Complete (cte : CteDefinition) (s : VmState σ) : Prop :=
  ∀ stmt, RecursiveCte cte stmt → ∀ source s', evalRecursiveCte query cte s = .ok source s' →
    ∃ first s₁, query stmt.left s = .ok first s₁ ∧ IsFixpoint query cte stmt first s₁ source.rows

-- Nothing is left for the iterations after the bound. For UNION no row comes up twice.
def Settled (step : List Row → VmState σ → List Row → VmState σ → Prop) (kind : SetOpKind)
    (rows last : List Row)
    (s : VmState σ) : Prop :=
  if kind = .UnionAll then last = [] ∨ ∃ s', step last s [] s'
  else rows.Nodup ∧ (last = [] ∨ ∃ next s', step last s next s' ∧ next ⊆ rows)

def SettledInTime (cte : CteDefinition) (s : VmState σ) : Prop :=
  ∀ stmt, RecursiveCte cte stmt → ∀ first s₁, query stmt.left s = .ok first s₁ →
    let step := Iteration query cte.name (declared cte.columns first.cols) stmt.right
    ∀ its last s', Turns step maxRecursionDepth first.rows s₁ its last s' →
      Settled step stmt.kind (first.rows ++ its.flatten) last s'

variable {query} {name : String} {cols : List String} {part : SelectStmt}

theorem iteration_functional : Functional (Iteration query name cols part) := by
  rintro last s next₁ s₁ next₂ s₂ ⟨source₁, h₁, rfl⟩ ⟨source₂, h₂, rfl⟩
  rw [h₁] at h₂
  cases h₂
  exact ⟨rfl, rfl⟩

theorem iterate_succ {n : Nat} {all last : List Row} (hlast : last ≠ []) :
    iterate query name cols part (n + 1) all last = (readWorking query name cols part last >>= fun next =>
      if next.rows = [] then pure all else iterate query name cols part n (all ++ next.rows) next.rows) := by
  rw [iterate, if_neg hlast, readWorking, bind_assoc]

theorem iterate_ok_iff {n : Nat} {all last rows : List Row} {s s' : VmState σ} :
    iterate query name cols part n all last s = .ok rows s' ↔
      ∃ its last', Turns (Iteration query name cols part) n last s its last' s' ∧ rows =
        all ++ its.flatten := by
  induction n generalizing all last s with
  | zero =>
      rw [iterate]
      constructor
      · intro h
        cases h
        exact ⟨[], last, .limit _ _, (List.append_nil _).symm⟩
      · rintro ⟨its, last', hturns, rfl⟩
        cases hturns with
        | stop => rw [List.flatten_nil, List.append_nil]; rfl
        | limit => rw [List.flatten_nil, List.append_nil]; rfl
  | succ n ih =>
      by_cases hlast : last = []
      · subst hlast
        rw [iterate, if_pos rfl]
        constructor
        · intro h
          cases h
          exact ⟨[], [], .stop _ _, (List.append_nil _).symm⟩
        · rintro ⟨its, last', hturns, rfl⟩
          cases hturns with
          | stop => rw [List.flatten_nil, List.append_nil]; rfl
          | turn hne => exact absurd rfl hne
      · rw [iterate_succ hlast]
        constructor
        · intro h
          obtain ⟨next, s₁, hread, h⟩ := ok_of_bind_state h
          have hturn : Iteration query name cols part last s next.rows s₁ := ⟨next, hread, rfl⟩
          split_ifs at h with hnext
          · cases h
            rw [hnext] at hturn
            exact ⟨[[]], [], .turn hlast hturn (.stop _ _), (List.append_nil _).symm⟩
          · obtain ⟨its, last', hturns, rfl⟩ := ih.mp h
            exact ⟨_, _, .turn hlast hturn hturns, List.append_assoc ..⟩
        · rintro ⟨its, last', hturns, rfl⟩
          cases hturns with
          | stop => exact absurd rfl hlast
          | @turn _ _ _ next s₁ its _ _ _ hturn hrest =>
              obtain ⟨source, hread, rfl⟩ := hturn
              rw [bind_ok hread]
              split_ifs with hnext
              · rw [hnext] at hrest ⊢
                cases hrest with
                | stop => rw [List.flatten_cons, List.nil_append, List.flatten_nil, List.append_nil]; rfl
                | limit => rw [List.flatten_cons, List.nil_append, List.flatten_nil, List.append_nil]; rfl
                | turn hne => exact absurd rfl hne
              · exact ih.mpr ⟨its, last', hrest, (List.append_assoc ..).symm⟩

theorem evalRecursiveCte_ok_iff {cte : CteDefinition} {stmt : SetOpStmt} (hcte : RecursiveCte cte stmt)
    {source : Source} {s s' : VmState σ} :
    evalRecursiveCte query cte s = .ok source s' ↔ ∃ first s₁ its last,
      query stmt.left s = .ok first s₁ ∧
      Turns (Iteration query cte.name (declared cte.columns first.cols) stmt.right) maxRecursionDepth
        first.rows s₁ its last s' ∧
      source = { rows := first.rows ++ its.flatten, cols := declared cte.columns first.cols } := by
  obtain ⟨hkind, name, hfrom⟩ := hcte
  have hparts : recursiveParts cte.query = some (stmt.left, stmt.right) := by
    rw [recursiveParts, hfrom]
    exact if_pos hkind
  rw [evalRecursiveCte, hparts]
  constructor
  · intro h
    obtain ⟨first, s₁, hfirst, h⟩ := ok_of_bind_state h
    obtain ⟨rows, s₂, hrows, h⟩ := ok_of_bind_state h
    cases h
    obtain ⟨its, last, hturns, rfl⟩ := iterate_ok_iff.mp hrows
    exact ⟨first, s₁, its, last, hfirst, hturns, rfl⟩
  · rintro ⟨first, s₁, its, last, hfirst, hturns, rfl⟩
    dsimp only
    rw [bind_ok hfirst, bind_ok (iterate_ok_iff.mpr ⟨its, last, hturns, rfl⟩)]
    rfl

theorem isFixpoint_iff {cte : CteDefinition} {stmt : SetOpStmt} {first : Source} {s s' : VmState σ} {n : Nat}
    {its : List (List Row)} {last : List Row}
    (hturns : Turns (Iteration query cte.name (declared cte.columns first.cols) stmt.right) n first.rows s its
      last s') :
    IsFixpoint query cte stmt first s (first.rows ++ its.flatten) ↔
      Settled (Iteration query cte.name (declared cte.columns first.cols) stmt.right) stmt.kind
        (first.rows ++ its.flatten) last s' := by
  unfold IsFixpoint Settled
  dsimp only
  split_ifs with hkind
  · simp only [hturns.iterates_iff iteration_functional]
    constructor
    · rintro ⟨_, ⟨rest, hrest, rfl⟩, hrows⟩
      rw [List.flatten_append, ← List.append_assoc, List.self_eq_append_right] at hrows
      exact hrest.flatten_eq_nil hrows
    · rintro (rfl | ⟨s'', hlast⟩)
      · exact ⟨its, ⟨[], .stop s', (List.append_nil _).symm⟩, rfl⟩
      · by_cases hne : last = []
        · subst hne
          exact ⟨its, ⟨[], .stop s', (List.append_nil _).symm⟩, rfl⟩
        · refine ⟨its ++ [[]], ⟨[[]], .turn hne hlast (.stop s''), rfl⟩, ?_⟩
          rw [List.flatten_append, List.flatten_singleton, List.append_nil]
  · refine and_congr_right fun hnodup => ?_
    rw [hnodup.of_append_left.dedup]
    simp only [hturns.saturates_iff iteration_functional hnodup]
    constructor
    · rintro ⟨out, hout, hsame⟩
      exact hout.last_iff hsame
    · intro hlast
      refine ⟨first.rows ++ its.flatten, ?_, fun r => Iff.rfl⟩
      by_cases hne : last = []
      · subst hne
        exact .stop _ _
      · obtain ⟨next, s'', hnext, hold⟩ := hlast.resolve_left hne
        have hfresh := fresh_eq_nil.mpr hold
        refine .turn hne hnext ?_
        rw [hfresh, List.append_nil]
        exact .stop _ _

-- Where the recursive part treats each row by itself, UNION means the rows within reach of the anchor.
theorem IsFixpoint.mem_iff {cte : CteDefinition} {stmt : SetOpStmt} {first : Source} {s : VmState σ}
    {rows : List Row} {f : Row → List Row} {r : Row} (hkind : stmt.kind ≠ .UnionAll)
    (hlinear : ∀ ⦃last s next s'⦄,
      Iteration query cte.name (declared cte.columns first.cols) stmt.right last s next s' → next =
        last.flatMap f)
    (h : IsFixpoint query cte stmt first s rows) :
    r ∈ rows ↔ ∃ a ∈ first.rows, Relation.ReflTransGen (fun x y => y ∈ f x) a r := by
  unfold IsFixpoint at h
  rw [if_neg hkind] at h
  obtain ⟨-, out, hout, hsame⟩ := h
  rw [hsame, hout.mem_iff hlinear (List.Subset.refl _) fun x hx hno => absurd hx hno]
  simp only [List.mem_dedup]

theorem Complete.settled {cte : CteDefinition} {stmt : SetOpStmt} {first : Source} {s s₁ s' : VmState σ}
    {its : List (List Row)} {last : List Row} (h : Complete query cte s) (hcte : RecursiveCte cte stmt)
    (hfirst : query stmt.left s = .ok first s₁)
    (hturns : Turns (Iteration query cte.name (declared cte.columns first.cols) stmt.right) maxRecursionDepth
      first.rows s₁ its last s') :
    Settled (Iteration query cte.name (declared cte.columns first.cols) stmt.right) stmt.kind
      (first.rows ++ its.flatten) last s' := by
  obtain ⟨first', s₁', hfirst', hfix⟩ := h stmt hcte _ s'
    ((evalRecursiveCte_ok_iff hcte).mpr ⟨first, s₁, its, last, hfirst, hturns, rfl⟩)
  rw [hfirst] at hfirst'
  cases hfirst'
  exact (isFixpoint_iff hturns).mp hfix

-- A recursive CTE stops at its bound without an error, and UNION removes no duplicates.
theorem complete_iff (query : SelectStmt → VmM σ Source) (cte : CteDefinition) (s : VmState σ) :
    Complete query cte s ↔ SettledInTime query cte s := by
  constructor
  · intro h stmt hcte first s₁ hfirst step its last s' hturns
    exact h.settled hcte hfirst hturns
  · intro h stmt hcte source s' hok
    obtain ⟨first, s₁, its, last, hfirst, hturns, rfl⟩ := (evalRecursiveCte_ok_iff hcte).mp hok
    exact ⟨first, s₁, hfirst, (isFixpoint_iff hturns).mpr (h stmt hcte first s₁ hfirst its last s' hturns)⟩

end Fixpoint

section Looping

def oneRow : Source := { rows := [[.Integer 1]], cols := ["1"] }

-- A statement without FROM gives the row 1, one with FROM the rows of the CTE `t`.
def oneOrWorking (q : SelectStmt) : VmM Unit Source :=
  match q.fromClause with
  | none => pure oneRow
  | some _ => fun s => .ok ((s.cteCache (key "t")).getD { rows := [], cols := [] }) s

def plainSelect (fromClause : Option FromClause) : SelectStmt where
  distinct := false
  columns := [.AllColumns]
  fromClause := fromClause
  whereClause := none
  groupBy := []
  having := none
  orderBy := []
  limit := none
  offset := none
  ctes := []
  windowDefs := []
  forUpdate := false

def loopStmt (kind : SetOpKind) : SetOpStmt where
  kind := kind
  left := plainSelect none
  right := plainSelect (some (.Table "t" none))
  orderBy := []
  limit := none
  offset := none

-- `WITH RECURSIVE t(n) AS (SELECT 1 UNION [ALL] SELECT n FROM t)`.
def loopCte (kind : SetOpKind) : CteDefinition where
  name := "t"
  columns := ["n"]
  query := plainSelect (some (.SetOp (loopStmt kind) "__setop__"))
  isRecursive := true

def noCtes : VmState Unit := ⟨fun _ => none, ()⟩

def loopIteration (kind : SetOpKind) : List Row → VmState Unit → List Row → VmState Unit → Prop :=
  Iteration oneOrWorking (loopCte kind).name (declared (loopCte kind).columns oneRow.cols) (loopStmt kind).right

theorem loop_iteration (kind : SetOpKind) (last : List Row) (s : VmState Unit) :
    ∃ s', loopIteration kind last s last s' := by
  let working : Source := { rows := last, cols := ["n"] }
  refine ⟨{ s with cteCache := Function.update s.cteCache (key "t") (some working) }, working, ?_, rfl⟩
  have hread : readWorking oneOrWorking "t" ["n"] (plainSelect (some (.Table "t" none))) last s =
      .ok ((Function.update s.cteCache (key "t") (some working) (key "t")).getD { rows := [], cols := [] })
        { s with cteCache := Function.update s.cteCache (key "t") (some working) } := rfl
  rw [Function.update_self] at hread
  exact hread

theorem loop_turns (kind : SetOpKind) (n : Nat) (s : VmState Unit) :
    ∃ s', Turns (loopIteration kind) n oneRow.rows s (List.replicate n oneRow.rows) oneRow.rows s' := by
  induction n generalizing s with
  | zero => exact ⟨s, .limit _ s⟩
  | succ n ih =>
      obtain ⟨s₁, hturn⟩ := loop_iteration kind oneRow.rows s
      obtain ⟨s', hturns⟩ := ih s₁
      exact ⟨s', .turn (List.cons_ne_nil _ _) hturn hturns⟩

theorem loop_settled {kind : SetOpKind} (hkind : kind = .UnionAll ∨ kind = .UnionDistinct)
    (h : Complete oneOrWorking (loopCte kind) noCtes) :
    ∃ s', Settled (loopIteration kind) kind
      (oneRow.rows ++ (List.replicate maxRecursionDepth oneRow.rows).flatten) oneRow.rows s' := by
  obtain ⟨s', hturns⟩ := loop_turns kind maxRecursionDepth noCtes
  exact ⟨s', h.settled ⟨hkind, "__setop__", rfl⟩ rfl hturns⟩

-- After a thousand iterations that all give the row again the result is returned as if it were complete.
theorem loopCte_cutOff : ¬Complete oneOrWorking (loopCte .UnionAll) noCtes ∧
    ¬Complete oneOrWorking (loopCte .UnionDistinct) noCtes := by
  constructor
  · intro h
    obtain ⟨s', hnil | ⟨s'', hnone⟩⟩ := loop_settled (.inl rfl) h
    · cases hnil
    · obtain ⟨s₃, hagain⟩ := loop_iteration .UnionAll oneRow.rows s'
      cases (iteration_functional hnone hagain).1
  · intro h
    obtain ⟨s', hnodup, -⟩ := loop_settled (.inr rfl) h
    obtain ⟨n, hn⟩ : ∃ n, maxRecursionDepth = n + 1 := ⟨999, rfl⟩
    rw [hn, List.replicate_succ, oneRow, List.singleton_append, List.nodup_cons] at hnodup
    exact hnodup.1 (List.mem_flatten.mpr ⟨_, List.mem_cons_self, List.mem_singleton_self _⟩)

end Looping

end Kkdb.Cte
