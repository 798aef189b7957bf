import Kkdb.Lib.State
import Kkdb.Vm.Cte

namespace Kkdb.Cte

-- The CTEs that a name may mean, and all those of the statements that are being executed.
structure Scope where
  visible : CteCache
  active : CteCache

namespace Scope

-- A statement whose text is elsewhere sees none of the CTEs around its use.
def hidden (scope : Scope) : Scope := { scope with visible := fun _ => none }

def bind (scope : Scope) (name : String) (source : Source) : Scope where
  visible := Function.update scope.visible (key name) (some source)
  active := Function.update scope.active (key name) (some source)

def of (scope : Scope) (stored : Bool) : Scope := if stored then scope.hidden else scope

end Scope

-- What a lexically scoped execution does with the CTEs of a statement.
inductive Step where
  | opened (keys : List Key) (scope : Scope)
  | read (name : Key) (scope : Scope)
  | bypassed (name : Key) (scope : Scope)
  | counted (keys : List Key)
  | failed (inserted : List Key)

-- The steps that one flat map of CTEs, emptied at the normal end of a statement, can follow: no name is
-- opened inside a CTE of that name, no stored statement reads a name of the statement that uses it, no
-- shortcut takes the table behind a CTE, and a statement with entries in the map neither fails nor takes
-- the shortcut of COUNT(*).
def Step.Confined : Step → Prop
  | .opened keys scope => ∀ k ∈ keys, scope.active k = none
  | .read name scope => scope.active name = scope.visible name
  | .bypassed name scope => scope.visible name = none
  | .counted keys => keys = []
  | .failed inserted => inserted = []

instance : ∀ step : Step, Decidable step.Confined
  | .opened keys scope => inferInstanceAs (Decidable (∀ k ∈ keys, scope.active k = none))
  | .read name scope => inferInstanceAs (Decidable (scope.active name = scope.visible name))
  | .bypassed name scope => inferInstanceAs (Decidable (scope.visible name = none))
  | .counted keys => inferInstanceAs (Decidable (keys = []))
  | .failed inserted => inferInstanceAs (Decidable (inserted = []))

structure Outcome (σ α : Type) where
  result : Except Fault α
  rest : σ
  steps : List Step

abbrev Outcome.Confined {σ α : Type} (o : Outcome σ α) : Prop := ∀ step ∈ o.steps, step.Confined

def LexM (σ α : Type) := σ → Outcome σ α

instance (σ : Type) : Monad (LexM σ) where
  pure a := fun s => ⟨.ok a, s, []⟩
  bind x f := fun s =>
    match (x s).result with
    | .ok a => { f a (x s).rest with steps := (x s).steps ++ (f a (x s).rest).steps }
    | .error fault => ⟨.error fault, (x s).rest, (x s).steps⟩

instance (σ : Type) : VmMonad σ (LexM σ) where
  rest := fun s => ⟨.ok s, s, []⟩
  setRest rest := fun _ => ⟨.ok (), rest, []⟩
  fault f := fun s => ⟨.error f, s, []⟩
  attempt x := fun s =>
    match (x s).result with
    | .ok a => ⟨.ok (.ok a), (x s).rest, (x s).steps⟩
    | .error (.Err e) => ⟨.ok (.error e), (x s).rest, (x s).steps⟩
    | .error f => ⟨.error f, (x s).rest, (x s).steps⟩

section Lexical

variable {σ : Type}

def note (step : Step) : LexM σ Unit := fun s => ⟨.ok (), s, [step]⟩

-- A part of a statement during which the map holds entries of the statement.
def during {α : Type} (inserted : List Key) (x : LexM σ α) : LexM σ α := fun s =>
  match (x s).result with
  | .ok _ => x s
  | .error _ => { x s with steps := (x s).steps ++ [.failed inserted] }

variable (vm : Vm σ) (query : Scope → SelectStmt → LexM σ Source) (scope : Scope)

def lexQuery (stored : Bool) (q : SelectStmt) : LexM σ Source := query (scope.of stored) q

def lexIterate (inserted : List Key) (name : String) (cols : List String) (part : SelectStmt) :
    Nat → (all last : List Row) → LexM σ (List Row)
  | 0, all, _ => return all
  | n + 1, all, last =>
      if last = [] then return all
      else do
        let next ← during (key name :: inserted) (query (scope.bind name { rows := last, cols := cols }) part)
        if next.rows = [] then return all
        else lexIterate inserted name cols part n (all ++ next.rows) next.rows

def lexRecursiveCte (inserted : List Key) (cte : CteDefinition) : LexM σ Source :=
  match recursiveParts cte.query with
  | none => during inserted (query scope cte.query)
  | some (anchor, part) => do
      let first ← during inserted (query scope anchor)
      let cols := declared cte.columns first.cols
      let rows ← lexIterate query scope inserted cte.name cols part maxRecursionDepth first.rows first.rows
      return { rows := rows, cols := cols }

def lexCte (inserted : List Key) (cte : CteDefinition) : LexM σ Source :=
  if cte.isRecursive then lexRecursiveCte query scope inserted cte
  else during inserted (query scope cte.query)

def lexCtes : Scope → List Key → List CteDefinition → LexM σ Scope
  | scope, _, [] => return scope
  | scope, inserted, cte :: ctes => do
      let source ← lexCte query scope inserted cte
      lexCtes (scope.bind cte.name { source with cols := declared cte.columns source.cols })
        (key cte.name :: inserted) ctes

def lexTable (name : String) : LexM σ Source := do
  note (.read (key name) scope)
  match scope.visible (key name) with
  | some source => return source
  | none => storedTable vm (lexQuery query scope) name

def lexWhole (fromClause : Option FromClause) : LexM σ Source :=
  wholeSource vm (lexQuery query scope) (lexTable vm query scope) fromClause

-- An index of the table behind a CTE has an answer, or fails.
def noteAnswer (step : Step) : Except KkdbError (Option Source) → LexM σ Unit
  | .ok none => return ()
  | _ => note step

-- A shortcut is for tables only.
def lexSourceRows (q : SelectStmt) (fromClause : Option FromClause) : LexM σ (Source × Bool) := do
  let s ← VmMonad.rest
  match shortcutTable vm q.limitPushdown s fromClause with
  | some name => do
      note (.bypassed (key name) scope)
      let source ← if (scope.visible (key name)).isSome then lexWhole vm query scope fromClause
        else limitRows vm (lexQuery query scope) q name
      return (source, false)
  | none =>
      match indexProbe q fromClause with
      | some (name, e) =>
          if (scope.visible (key name)).isSome then do
            let answer ← VmMonad.attempt ((vm.tryIndexScan name e).run (lexQuery query scope))
            noteAnswer (.bypassed (key name) scope) answer
            let source ← lexWhole vm query scope fromClause
            return (source, false)
          else do
            let answer ← (vm.tryIndexScan name e).run (lexQuery query scope)
            match answer with
            | some source => return (source, true)
            | none => do
                let source ← lexWhole vm query scope fromClause
                return (source, false)
      | none => do
          let source ← lexWhole vm query scope fromClause
          return (source, false)

def lexIsCached (fromClause : Option FromClause) : LexM σ Bool :=
  match fromClause with
  | some (.Table name _) => do
      note (.read (key name) scope)
      return (scope.visible (key name)).isSome
  | _ => return false

def lexResultRows (q : SelectStmt) (fromClause : Option FromClause) : LexM σ (Source × List Int64) := do
  let (source, indexed) ← lexSourceRows vm query scope q fromClause
  let cached ← lexIsCached scope fromClause
  (vm.finish q fromClause cached indexed source).run (lexQuery query scope)

def keysOf (q : SelectStmt) : List Key := q.ctes.map fun cte => key cte.name

-- The statement without shortcuts, in the scope `inner` of its CTEs.
def lexPlain (inner : Scope) (q : SelectStmt) (fromClause : Option FromClause) : LexM σ Source := do
  let (source, ids) ← during (keysOf q) (lexResultRows vm query inner q fromClause)
  (vm.lockRows q fromClause ids).run (lexQuery query scope)
  return source

def lexCountOrPlain (inner : Scope) (q : SelectStmt) (fromClause : Option FromClause) :
    Option String → LexM σ Source
  | some name => do
      note (.counted (keysOf q))
      note (.bypassed (key name) inner)
      if (inner.visible (key name)).isSome then lexPlain vm query scope inner q fromClause
      else during (keysOf q) (countStar vm (lexQuery query inner) name)
  | none => lexPlain vm query scope inner q fromClause

def lexBody (q : SelectStmt) : LexM σ Source := do
  note (.opened (keysOf q) scope)
  let inner ← lexCtes query scope [] q.ctes
  let s ← VmMonad.rest
  let fromClause := q.fromClause.map (vm.reorderJoins s)
  lexCountOrPlain vm query scope inner q fromClause (shortcutTable vm q.isCountStar s fromClause)

end Lexical

-- Execution under lexical scope: the CTEs in scope are an argument, and no entry outlives its statement.
def lexSelect {σ : Type} (vm : Vm σ) : Nat → Scope → SelectStmt → LexM σ Source
  | 0, _, _ => VmMonad.fault .Hang
  | n + 1, scope, q => lexBody vm (lexSelect vm n) scope q

open Lib

section Relation

variable {σ α β : Type}

def Outcome.under (o : Outcome σ α) (cache : CteCache) : EStateM.Result Fault (VmState σ) α :=
  match o.result with
  | .ok a => .ok a ⟨cache, o.rest⟩
  | .error fault => .error fault ⟨cache, o.rest⟩

theorem Outcome.under_ok {o : Outcome σ α} {a : α} (h : o.result = .ok a) (cache : CteCache) :
    o.under cache = .ok a ⟨cache, o.rest⟩ := by
  rw [Outcome.under, h]

theorem Outcome.under_error {o : Outcome σ α} {fault : Fault} (h : o.result = .error fault)
    (cache : CteCache) : o.under cache = .error fault ⟨cache, o.rest⟩ := by
  rw [Outcome.under, h]

section Bind

variable {y : LexM σ α} {g : α → LexM σ β} {s : σ}

theorem lex_bind_ok {a : α} (h : (y s).result = .ok a) :
    (y >>= g) s = { g a (y s).rest with steps := (y s).steps ++ (g a (y s).rest).steps } := by
  simp only [bind, h]

theorem lex_bind_error {fault : Fault} (h : (y s).result = .error fault) :
    (y >>= g) s = ⟨.error fault, (y s).rest, (y s).steps⟩ := by
  simp only [bind, h]

theorem lex_pure_bind (a : α) (g : α → LexM σ β) : (pure a >>= g) = g a := by
  funext s
  rw [lex_bind_ok rfl]
  rfl

theorem confined_bind_left (h : ((y >>= g) s).Confined) : (y s).Confined := by
  cases hres : (y s).result with
  | ok a =>
      rw [lex_bind_ok hres] at h
      exact fun step hstep => h step (List.mem_append_left _ hstep)
  | error fault =>
      rw [lex_bind_error hres] at h
      exact h

theorem confined_bind_right {a : α} (hres : (y s).result = .ok a) (h : ((y >>= g) s).Confined) :
    (g a (y s).rest).Confined := by
  rw [lex_bind_ok hres] at h
  exact fun step hstep => h step (List.mem_append_right _ hstep)

end Bind

-- The code does what the confined lexical execution does, and leaves the second map instead of the first.
def Leaves (before after : CteCache) (x : VmM σ α) (y : LexM σ α) : Prop :=
  ∀ s, (y s).Confined → x ⟨before, s⟩ = (y s).under after

abbrev Keeps (cache : CteCache) (x : VmM σ α) (y : LexM σ α) : Prop := Leaves cache cache x y

variable {cache : CteCache}

theorem keeps_pure (a : α) : Keeps cache (pure a : VmM σ α) (pure a) := fun _ _ => rfl

theorem keeps_fault (fault : Fault) : Keeps cache (VmMonad.fault fault : VmM σ α) (VmMonad.fault fault) :=
  fun _ _ => rfl

theorem keeps_rest : Keeps cache (VmMonad.rest : VmM σ σ) VmMonad.rest := fun _ _ => rfl

theorem keeps_setRest (rest : σ) : Keeps cache (VmMonad.setRest rest : VmM σ Unit) (VmMonad.setRest rest) :=
  fun _ _ => rfl

theorem Leaves.bind {x : VmM σ α} {y : LexM σ α} {f : α → VmM σ β} {g : α → LexM σ β}
    (hx : Keeps cache x y) (hf : ∀ a, Keeps cache (f a) (g a)) : Keeps cache (x >>= f) (y >>= g) := by
  intro s h
  have hrun := hx s (confined_bind_left h)
  cases hres : (y s).result with
  | ok a =>
      rw [Outcome.under_ok hres] at hrun
      rw [bind_ok hrun, hf a _ (confined_bind_right hres h), lex_bind_ok hres]
      rfl
  | error fault =>
      rw [Outcome.under_error hres] at hrun
      rw [bind_error hrun, lex_bind_error hres]
      rfl

theorem Leaves.attempt {x : VmM σ α} {y : LexM σ α} (h : Keeps cache x y) :
    Keeps cache (VmMonad.attempt x) (VmMonad.attempt y) := by
  intro s hsteps
  have hconf : (y s).Confined := by
    simp only [VmMonad.attempt] at hsteps
    split at hsteps <;> exact hsteps
  have hrun := h s hconf
  simp only [VmMonad.attempt]
  cases hres : (y s).result with
  | ok a =>
      rw [Outcome.under_ok hres] at hrun
      rw [hrun]
      rfl
  | error fault =>
      rw [Outcome.under_error hres] at hrun
      rw [hrun]
      cases fault <;> rfl

theorem bind_attempt (x : VmM σ α) (f : α → VmM σ β) :
    x >>= f = VmMonad.attempt x >>= fun answer =>
      match answer with
      | .ok a => f a
      | .error e => VmMonad.fault (.Err e) := by
  funext s
  simp only [bind, EStateM.bind, VmMonad.attempt]
  cases x s with
  | ok a s' => rfl
  | error fault s' => cases fault <;> rfl

theorem keeps_run {select : Bool → SelectStmt → VmM σ Source} {select' : Bool → SelectStmt → LexM σ Source}
    (hselect : ∀ stored q, Keeps cache (select stored q) (select' stored q)) (p : Program σ α) :
    Keeps cache (p.run select) (p.run select') := by
  induction p with
  | ret a => exact keeps_pure a
  | fail fault => exact keeps_fault fault
  | select stored q next ih => exact (hselect stored q).attempt.bind ih
  | get next ih => exact keeps_rest.bind ih
  | put s next ih => exact (keeps_setRest s).bind fun _ => ih

-- A note of the lexical execution has no counterpart, and what it says holds in what follows.
theorem Leaves.note {before after : CteCache} {x : VmM σ α} {y : LexM σ α} {step : Step}
    (h : step.Confined → Leaves before after x y) :
    Leaves before after x (note step >>= fun _ => y) := by
  intro s hsteps
  have hstep : step.Confined := by
    apply confined_bind_left hsteps
    exact List.mem_singleton_self step
  exact h hstep s (confined_bind_right (a := ()) rfl hsteps)

end Relation

section Pieces

variable {σ : Type} {vm : Vm σ} {cache : CteCache} {select : Bool → SelectStmt → VmM σ Source}
  {select' : Bool → SelectStmt → LexM σ Source}

theorem keeps_getTable (name : String) : Keeps cache (getTable vm name : VmM σ TableInfo)
    (getTable vm name) := by
  apply keeps_rest.bind
  intro s
  cases vm.getTable s name with
  | ok table => exact keeps_pure table
  | error fault => exact keeps_fault fault

variable (hselect : ∀ stored q, Keeps cache (select stored q) (select' stored q))
include hselect

theorem keeps_storedTable (name : String) :
    Keeps cache (storedTable vm select name) (storedTable vm select' name) := by
  apply (keeps_getTable name).bind
  intro table
  cases table.viewSelect with
  | some q => exact hselect true q
  | none => exact (keeps_run hselect _).bind fun rows => keeps_pure _

theorem keeps_evalFrom {table : String → VmM σ Source} {table' : String → LexM σ Source}
    (htable : ∀ name, Keeps cache (table name) (table' name)) (fromClause : FromClause) :
    Keeps cache (evalFrom vm select table fromClause) (evalFrom vm select' table' fromClause) := by
  fun_induction evalFrom vm select table fromClause with
  | case1 name => exact htable name
  | case2 left joinType right on ihl ihr =>
      apply ihl.bind
      intro l
      apply ihr.bind
      intro r
      exact keeps_run hselect _
  | case3 q => exact hselect false q
  | case4 stmt =>
      apply (hselect false stmt.left).bind
      intro l
      apply (hselect false stmt.right).bind
      intro r
      exact keeps_run hselect _
  | case5 name args _ column => exact keeps_run hselect _

theorem keeps_wholeSource {table : String → VmM σ Source} {table' : String → LexM σ Source}
    (htable : ∀ name, Keeps cache (table name) (table' name)) (fromClause : Option FromClause) :
    Keeps cache (wholeSource vm select table fromClause) (wholeSource vm select' table' fromClause) := by
  cases fromClause with
  | some fromClause => exact keeps_evalFrom hselect htable fromClause
  | none => exact keeps_pure _

theorem keeps_countStar (name : String) :
    Keeps cache (countStar vm select name) (countStar vm select' name) := by
  apply (keeps_getTable name).bind
  intro table
  apply (keeps_run hselect _).bind
  intro count
  exact keeps_pure _

theorem keeps_evalCount (count : Value → Nat) (absent : Nat) (e : Option Expr) :
    Keeps cache (evalCount vm select count absent e) (evalCount vm select' count absent e) := by
  cases e with
  | some e => exact (keeps_run hselect _).bind fun v => keeps_pure _
  | none => exact keeps_pure absent

theorem keeps_limitRows (q : SelectStmt) (name : String) :
    Keeps cache (limitRows vm select q name) (limitRows vm select' q name) := by
  apply (keeps_evalCount hselect _ _ _).bind
  intro limit
  apply (keeps_evalCount hselect _ _ _).bind
  intro offset
  apply (keeps_getTable name).bind
  intro table
  exact (keeps_run hselect _).bind fun rows => keeps_pure _

end Pieces

theorem keeps_isCached {σ : Type} (scope : Scope) (fromClause : Option FromClause) :
    Keeps scope.active (isCached fromClause : VmM σ Bool) (lexIsCached scope fromClause) := by
  cases fromClause with
  | none => exact keeps_pure false
  | some fromClause =>
      cases fromClause with
      | Table name aliasName =>
          apply Leaves.note
          intro hread s hsteps
          rw [isCached, get_bind]
          simp only [show scope.active (key name) = scope.visible (key name) from hread]
          rfl
      | _ => exact keeps_pure false

theorem keeps_probe {σ : Type} {scope : Scope} {x : VmM σ (Option Source)} {y : LexM σ (Option Source)}
    {whole : VmM σ Source}
    {whole' : LexM σ Source} {name : Key} (hx : Keeps scope.active x y)
    (hwhole : Keeps scope.active whole whole') (hvisible : (scope.visible name).isSome) :
    Keeps scope.active
      (do
        let answer ← x
        match answer with
        | some source => return (source, true)
        | none => do
            let source ← whole
            return (source, false))
      (do
        let answer ← VmMonad.attempt y
        noteAnswer (.bypassed name scope) answer
        let source ← whole'
        return (source, false)) := by
  have hbypass : ¬ (Step.bypassed name scope).Confined := by
    intro hnone
    rw [show scope.visible name = none from hnone] at hvisible
    cases hvisible
  rw [bind_attempt]
  apply hx.attempt.bind
  intro answer
  match answer with
  | .ok none =>
      rw [noteAnswer, lex_pure_bind]
      exact hwhole.bind fun source => keeps_pure _
  | .ok (some source) => exact Leaves.note fun h => (hbypass h).elim
  | .error e => exact Leaves.note fun h => (hbypass h).elim

section Resolution

variable {σ : Type} {vm : Vm σ} {query : SelectStmt → VmM σ Source} {query' : Scope → SelectStmt →
  LexM σ Source}
  (hquery : ∀ scope q, Keeps scope.active (query q) (query' scope q)) (scope : Scope)
include hquery

theorem keeps_select (stored : Bool) (q : SelectStmt) :
    Keeps scope.active (query q) (lexQuery query' scope stored q) := by
  cases stored with
  | true => exact hquery scope.hidden q
  | false => exact hquery scope q

-- The map says of a name what the scope says, when no stored statement is led astray.
theorem keeps_evalTable (name : String) :
    Keeps scope.active (evalTable vm query name) (lexTable vm query' scope name) := by
  apply Leaves.note
  intro hread s hsteps
  rw [evalTable, get_bind]
  simp only [show scope.active (key name) = scope.visible (key name) from hread]
  cases hv : scope.visible (key name) with
  | some source => rfl
  | none =>
      simp only [hv] at hsteps
      exact keeps_storedTable (keeps_select hquery scope) name s hsteps

theorem keeps_whole (fromClause : Option FromClause) :
    Keeps scope.active (wholeSource vm (fun _ => query) (evalTable vm query) fromClause)
      (lexWhole vm query' scope fromClause) :=
  keeps_wholeSource (keeps_select hquery scope) (keeps_evalTable hquery scope) fromClause

theorem keeps_sourceRows (q : SelectStmt) (fromClause : Option FromClause) :
    Keeps scope.active (sourceRows vm query q fromClause) (lexSourceRows vm query' scope q fromClause) := by
  have hwhole : Keeps scope.active (wholeSource vm (fun _ => query) (evalTable vm query) fromClause)
      (lexWhole vm query' scope fromClause) := keeps_whole hquery scope fromClause
  apply keeps_rest.bind
  intro s
  cases shortcutTable vm q.limitPushdown s fromClause with
  | some name =>
      apply Leaves.note
      intro hbypass
      simp only [show scope.visible (key name) = none from hbypass, Option.isSome_none, Bool.false_eq_true,
        if_false]
      exact (keeps_limitRows (keeps_select hquery scope) q name).bind fun source => keeps_pure _
  | none =>
      cases indexProbe q fromClause with
      | none => exact hwhole.bind fun source => keeps_pure _
      | some probe =>
          have hanswer := keeps_run (keeps_select hquery scope) (vm.tryIndexScan probe.1 probe.2)
          by_cases hvisible : (scope.visible (key probe.1)).isSome
          · simp only [hvisible, if_true]
            exact keeps_probe hanswer hwhole hvisible
          · simp only [hvisible, Bool.false_eq_true, if_false]
            apply hanswer.bind
            intro answer
            cases answer with
            | some source => exact keeps_pure _
            | none => exact hwhole.bind fun source => keeps_pure _

theorem keeps_resultRows (q : SelectStmt) (fromClause : Option FromClause) :
    Keeps scope.active (resultRows vm query q fromClause) (lexResultRows vm query' scope q fromClause) := by
  apply (keeps_sourceRows hquery scope q fromClause).bind
  intro source
  apply (keeps_isCached scope fromClause).bind
  intro cached
  exact keeps_run (keeps_select hquery scope) _

end Resolution

section Definitions

variable {σ α β γ δ : Type}

-- The code does what the confined lexical execution does, while the map may grow. It fails only as long as
-- the statement has put nothing into the map.
def Follows (cache : CteCache) (inserted : List Key) (x : VmM σ α) (y : LexM σ β)
    (after : α → β → CteCache → Prop) : Prop :=
  ∀ s, (y s).Confined →
    match (y s).result with
    | .ok b => ∃ a cache', x ⟨cache, s⟩ = .ok a ⟨cache', (y s).rest⟩ ∧ after a b cache'
    | .error fault => inserted = [] ∧ x ⟨cache, s⟩ = .error fault ⟨cache, (y s).rest⟩

variable {cache : CteCache} {inserted : List Key}

theorem Leaves.during {x : VmM σ α} {y : LexM σ α} (h : Keeps cache x y) :
    Follows cache inserted x (during inserted y) fun a b cache' => a = b ∧ cache' = cache := by
  intro s hsteps
  cases hres : (y s).result with
  | ok a =>
      have heq : Cte.during inserted y s = y s := by simp only [Cte.during, hres]
      rw [heq] at hsteps ⊢
      rw [hres]
      exact ⟨a, cache, (h s hsteps).trans (Outcome.under_ok hres cache), rfl, rfl⟩
  | error fault =>
      have heq : Cte.during inserted y s = { y s with steps := (y s).steps ++ [.failed inserted] } := by
        simp only [Cte.during, hres]
      rw [heq] at hsteps ⊢
      have hinserted : inserted = [] := hsteps (.failed inserted) (by simp)
      have hrun := h s fun step hstep => hsteps step (List.mem_append_left _ hstep)
      simp only [hres]
      exact ⟨hinserted, hrun.trans (Outcome.under_error hres cache)⟩

theorem Follows.pure {a : α} {b : β} {after : α → β → CteCache → Prop} (h : after a b cache) :
    Follows cache inserted (pure a : VmM σ α) (pure b) after := fun _ _ => ⟨a, cache, rfl, h⟩

theorem Follows.mono {x : VmM σ α} {y : LexM σ β} {mid after : α → β → CteCache → Prop}
    (h : Follows cache inserted x y mid) (hmid : ∀ a b cache', mid a b cache' → after a b cache') :
    Follows cache inserted x y after := by
  intro s hsteps
  have hrun := h s hsteps
  cases hres : (y s).result with
  | ok b =>
      rw [hres] at hrun
      obtain ⟨a, cache', hx, ha⟩ := hrun
      exact ⟨a, cache', hx, hmid a b cache' ha⟩
  | error fault =>
      rw [hres] at hrun
      exact hrun

-- The second part may have put more into the map than the first, or runs on the same map.
theorem Follows.bind {x : VmM σ α} {y : LexM σ β} {f : α → VmM σ γ} {g : β → LexM σ δ}
    {mid : α → β → CteCache → Prop} {after : γ → δ → CteCache → Prop}
    (hx : Follows cache inserted x y mid)
    (hf : ∀ a b cache', mid a b cache' → Follows cache' inserted (f a) (g b) after ∧ cache' = cache ∨
      ∃ k, Follows cache' (k :: inserted) (f a) (g b) after) :
    Follows cache inserted (x >>= f) (y >>= g) after := by
  intro s hsteps
  have hrun := hx s (confined_bind_left hsteps)
  cases hres : (y s).result with
  | error fault =>
      rw [hres] at hrun
      rw [lex_bind_error hres]
      exact ⟨hrun.1, bind_error hrun.2⟩
  | ok b =>
      rw [hres] at hrun
      obtain ⟨a, cache', hx', hmid⟩ := hrun
      have hright := confined_bind_right hres hsteps
      rw [lex_bind_ok hres, bind_ok hx']
      rcases hf a b cache' hmid with ⟨hfollows, rfl⟩ | ⟨k, hfollows⟩
      · exact hfollows _ hright
      · have hsecond := hfollows _ hright
        cases hres' : (g b (y s).rest).result with
        | ok d =>
            rw [hres'] at hsecond
            simpa only [hres'] using hsecond
        | error fault =>
            rw [hres'] at hsecond
            cases hsecond.1

theorem Follows.insert {name : String} {source : Source} {f : Unit → VmM σ α} {y : LexM σ β}
    {after : α → β → CteCache → Prop} {k : Key} {inserted' : List Key}
    (h : Follows (Function.update cache (key name) (some source)) (k :: inserted') (f ()) y after) :
    Follows cache inserted (insertCte name source >>= f) y after := by
  intro s hsteps
  have hsecond := h s hsteps
  cases hres : (y s).result with
  | ok b =>
      rw [hres] at hsecond
      exact hsecond
  | error fault =>
      rw [hres] at hsecond
      cases hsecond.1

end Definitions

section Recursion

variable {σ : Type} {query : SelectStmt → VmM σ Source} {query' : Scope → SelectStmt → LexM σ Source}
  (hquery : ∀ scope q, Keeps scope.active (query q) (query' scope q)) (scope : Scope)
include hquery

-- The map is that of the scope but for the entry of the CTE that is being evaluated.
def AgreesOff (cache : CteCache) (scope : Scope) (name : String) : Prop :=
  ∀ source, Function.update cache (key name) (some source) = (scope.bind name source).active

theorem follows_iterate (inserted : List Key) (name : String) (cols : List String) (part : SelectStmt) (n : Nat)
    {all last : List Row} {cache : CteCache} {inserted' : List Key} (hcache : AgreesOff cache scope name) :
    Follows cache inserted' (iterate query name cols part n all last)
      (lexIterate query' scope inserted name cols part n all last)
      fun a b cache' => a = b ∧ AgreesOff cache' scope name := by
  induction n generalizing all last cache inserted' with
  | zero => exact Follows.pure ⟨rfl, hcache⟩
  | succ n ih =>
      rw [iterate, lexIterate]
      split_ifs with hlast
      · exact Follows.pure ⟨rfl, hcache⟩
      · apply Follows.insert
        rw [hcache]
        apply (hquery (scope.bind name { rows := last, cols := cols }) part).during.bind
        rintro next _ _ ⟨rfl, rfl⟩
        left
        refine ⟨?_, rfl⟩
        have hbind : AgreesOff (scope.bind name { rows := last, cols := cols }).active scope name :=
          fun source => Function.update_idem _ _ _
        split_ifs
        · exact Follows.pure ⟨rfl, hbind⟩
        · exact ih hbind

theorem follows_evalCte (inserted : List Key) (cte : CteDefinition) :
    Follows scope.active inserted (evalCte query cte) (lexCte query' scope inserted cte)
      fun a b cache' => a = b ∧ AgreesOff cache' scope cte.name := by
  have hself : AgreesOff scope.active scope cte.name := fun _ => rfl
  have hplain : Follows scope.active inserted (query cte.query) (during inserted (query' scope cte.query))
      fun a b cache' => a = b ∧ AgreesOff cache' scope cte.name :=
    (hquery scope cte.query).during.mono fun a b cache' h => ⟨h.1, h.2 ▸ hself⟩
  rw [evalCte, lexCte]
  split_ifs
  · rw [evalRecursiveCte, lexRecursiveCte]
    cases recursiveParts cte.query with
    | none => exact hplain
    | some parts =>
        apply (hquery scope parts.1).during.bind
        rintro first _ _ ⟨rfl, rfl⟩
        left
        refine ⟨?_, rfl⟩
        apply (follows_iterate hquery scope inserted cte.name _ parts.2 _ hself).bind
        rintro rows _ cache' ⟨rfl, hoff⟩
        right
        exact ⟨[], Follows.pure ⟨rfl, hoff⟩⟩
  · exact hplain

theorem follows_evalCtes (ctes : List CteDefinition) (scope : Scope) (inserted : List Key) :
    Follows scope.active inserted (evalCtes query ctes) (lexCtes query' scope inserted ctes)
      fun _ inner cache' => cache' = inner.active ∧
        ∀ k ∉ ctes.map fun cte => key cte.name, inner.active k = scope.active k := by
  induction ctes generalizing scope inserted with
  | nil => exact Follows.pure ⟨rfl, fun _ _ => rfl⟩
  | cons cte ctes ih =>
      apply (follows_evalCte hquery scope inserted cte).bind
      rintro source _ cache' ⟨rfl, hoff⟩
      right
      refine ⟨key cte.name, ?_⟩
      apply Follows.insert
      rw [hoff]
      apply (ih _ _).mono
      rintro _ inner cache'' ⟨hcache, hsame⟩
      refine ⟨hcache, fun k hk => ?_⟩
      rw [List.map_cons, List.mem_cons, not_or] at hk
      rw [hsame k hk.2]
      exact Function.update_of_ne hk.1 _ _

end Recursion

theorem removeCtes_run {σ : Type} (ctes : List CteDefinition) (s : σ) {cache before : CteCache}
    (hsame : ∀ k ∉ ctes.map fun cte => key cte.name, cache k = before k)
    (habsent : ∀ k ∈ ctes.map fun cte => key cte.name, before k = none) :
    removeCtes ctes ⟨cache, s⟩ = .ok () ⟨before, s⟩ := by
  induction ctes generalizing cache with
  | nil =>
      have heq : cache = before := funext fun k => hsame k (by simp)
      rw [heq]
      rfl
  | cons cte ctes ih =>
      have hnext : removeCtes (cte :: ctes) ⟨cache, s⟩ =
          removeCtes ctes ⟨Function.update cache (key cte.name) none, s⟩ := rfl
      rw [hnext]
      apply ih
      · intro k hk
        by_cases hkey : k = key cte.name
        · rw [hkey, Function.update_self, habsent _ (by simp)]
        · rw [Function.update_of_ne hkey]
          exact hsame k (by simpa [hkey] using hk)
      · exact fun k hk => habsent k (List.mem_cons_of_mem _ hk)

section Statement

variable {σ : Type} {vm : Vm σ} {query : SelectStmt → VmM σ Source}
  {query' : Scope → SelectStmt → LexM σ Source}

theorem Follows.leaves {α β γ : Type} {before after : CteCache} {inserted : List Key} {x : VmM σ α}
    {y : LexM σ β} {f : α → VmM σ γ} {g : β → LexM σ γ} {mid : α → β → CteCache → Prop}
    (hx : Follows before inserted x y mid) (hnone : inserted = [] → before = after)
    (hf : ∀ a b cache', mid a b cache' → Leaves cache' after (f a) (g b)) :
    Leaves before after (x >>= f) (y >>= g) := by
  intro s hsteps
  have hrun := hx s (confined_bind_left hsteps)
  cases hres : (y s).result with
  | ok b =>
      rw [hres] at hrun
      obtain ⟨a, cache', hx', hmid⟩ := hrun
      rw [bind_ok hx', hf a b cache' hmid _ (confined_bind_right hres hsteps), lex_bind_ok hres]
      rfl
  | error fault =>
      rw [hres] at hrun
      rw [bind_error hrun.2, lex_bind_error hres, ← hnone hrun.1]
      rfl

theorem keeps_during {α : Type} {cache : CteCache} (inserted : List Key) {x : VmM σ α} {y : LexM σ α}
    (h : Keeps cache x y) : Keeps cache x (during inserted y) := by
  intro s hsteps
  have hfollows : Follows cache inserted x (during inserted y) _ := h.during
  have hrun := hfollows s hsteps
  cases hres : (during inserted y s).result with
  | ok b =>
      rw [hres] at hrun
      obtain ⟨a, cache', hx, rfl, rfl⟩ := hrun
      exact hx.trans (Outcome.under_ok hres _).symm
  | error fault =>
      rw [hres] at hrun
      exact hrun.2.trans (Outcome.under_error hres _).symm

theorem Leaves.rest {α : Type} {before after : CteCache} {f : σ → VmM σ α} {g : σ → LexM σ α}
    (h : ∀ s, Leaves before after (f s) (g s)) :
    Leaves before after (VmMonad.rest >>= f) (VmMonad.rest >>= g) := fun s hsteps => h s s hsteps

variable (hquery : ∀ scope q, Keeps scope.active (query q) (query' scope q)) {scope inner : Scope}
include hquery

theorem leaves_plain {q : SelectStmt} (fromClause : Option FromClause)
    (hopened : ∀ k ∈ keysOf q, scope.active k = none)
    (hsame : ∀ k ∉ keysOf q, inner.active k = scope.active k) :
    Leaves inner.active scope.active (finishSelect vm query q fromClause)
      (lexPlain vm query' scope inner q fromClause) := by
  apply (keeps_resultRows hquery inner q fromClause).during.leaves
  · intro hnone
    exact funext fun k => hsame k (by rw [hnone]; simp)
  · rintro ⟨source, ids⟩ _ _ ⟨rfl, rfl⟩ s hsteps
    have hremoved := removeCtes_run q.ctes s hsame hopened
    simp only [bind_ok hremoved]
    have hlock := (keeps_run (keeps_select hquery scope) (vm.lockRows q fromClause ids)).bind
      fun _ => keeps_pure source
    exact hlock s hsteps

theorem leaves_countOrPlain {q : SelectStmt} (fromClause : Option FromClause) (table : Option String)
    (hopened : ∀ k ∈ keysOf q, scope.active k = none)
    (hsame : ∀ k ∉ keysOf q, inner.active k = scope.active k) :
    Leaves inner.active scope.active (countOrFinish vm query q fromClause table)
      (lexCountOrPlain vm query' scope inner q fromClause table) := by
  cases table with
  | none => exact leaves_plain hquery fromClause hopened hsame
  | some name =>
      apply Leaves.note
      intro hcounted
      apply Leaves.note
      intro hbypassed
      have hactive : inner.active = scope.active :=
        funext fun k => hsame k (by rw [show keysOf q = [] from hcounted]; simp)
      simp only [show inner.visible (key name) = none from hbypassed, Option.isSome_none, Bool.false_eq_true,
        if_false]
      rw [← hactive]
      exact keeps_during (keysOf q) (keeps_countStar (keeps_select hquery inner) name)

theorem keeps_selectBody (scope : Scope) (q : SelectStmt) :
    Keeps scope.active (selectBody vm query q) (lexBody vm query' scope q) := by
  apply Leaves.note
  intro hopened
  apply (follows_evalCtes hquery q.ctes scope []).leaves fun _ => rfl
  rintro _ inner cache' ⟨rfl, hsame⟩
  apply Leaves.rest
  intro s
  exact leaves_countOrPlain hquery _ _ hopened hsame

end Statement

-- A confined statement resolves each name to the innermost CTE in scope, and leaves the map as it was.
theorem keeps_execSelect {σ : Type} (vm : Vm σ) (n : Nat) (scope : Scope) (q : SelectStmt) :
    Keeps scope.active (execSelect vm n q) (lexSelect vm n scope q) := by
  induction n generalizing scope q with
  | zero => exact keeps_fault .Hang
  | succ n ih => exact keeps_selectBody ih scope q

def Scope.outermost (cache : CteCache) : Scope where
  visible := fun _ => none
  active := cache

-- A session runs its statements one after another, with other work between them. What it does may depend on
-- what the statements have answered. If all its steps are confined, no statement sees a CTE of another.
theorem session_scoped {σ α : Type} (vm : Vm σ) (n : Nat) (session : Program σ α) (cache : CteCache) (s : σ)
    (h : (session.run (fun _ => lexSelect vm n (Scope.outermost cache)) s).Confined) :
    session.run (fun _ => execSelect vm n) ⟨cache, s⟩ =
      (session.run (fun _ => lexSelect vm n (Scope.outermost cache)) s).under cache :=
  keeps_run (fun _ q => keeps_execSelect vm n (Scope.outermost cache) q) session s h

section Leak

-- `SELECT *` over tables in memory, without policies, indexes and locks.
def memory : Vm (List (Key × Source)) where
  getTable tables name :=
    match tables.lookup (key name) with
    | some source => .ok { colNames := source.cols, viewSelect := none, rlsEnabled := false }
    | none => .error (.Err (.TableNotFound name))
  reorderJoins _ fromClause := fromClause
  countRows name := .get fun tables => .ret ((tables.lookup (key name)).elim 0 fun source => source.rows.length)
  scanRowsLimit name n := .get fun tables =>
    .ret ((tables.lookup (key name)).elim [] fun source => source.rows.take n)
  scanRows name := .get fun tables => .ret ((tables.lookup (key name)).elim [] Source.rows)
  evalConst _ := .ret .Null
  tryIndexScan _ _ := .ret none
  join _ _ _ _ left _ := .ret left
  setOp _ left _ := .ret left
  tableFunction _ _ _ := .ret { rows := [], cols := [] }
  finish _ _ _ _ source := .ret (source, [])
  lockRows _ _ _ := .ret ()

def selectFrom (ctes : List CteDefinition) (columns : List SelectColumn) (table : String) : SelectStmt where
  distinct := false
  columns := columns
  fromClause := some (.Table table none)
  whereClause := none
  groupBy := []
  having := none
  orderBy := []
  limit := none
  offset := none
  ctes := ctes
  windowDefs := []
  forUpdate := false

-- `WITH t AS (SELECT * FROM u)`.
def withT : List CteDefinition :=
  [{ name := "t", columns := [], query := selectFrom [] [.AllColumns] "u", isRecursive := false }]

def tableU : List (Key × Source) := [("u".toList, { rows := [[.Integer 1]], cols := ["a"] })]

-- Runs a statement and then `SELECT * FROM t`, whatever the first one answers.
def thenReadT (q : SelectStmt) : Program (List (Key × Source)) (Except KkdbError Source) :=
  .select false q fun _ => .select false (selectFrom [] [.AllColumns] "t") .ret

-- The CTE is gone when the second statement asks for it.
theorem session_scoped_read :
    (((thenReadT (selectFrom withT [.AllColumns] "t")).run
      (fun _ => lexSelect memory 2 (Scope.outermost fun _ => none))) tableU).Confined ∧
    (thenReadT (selectFrom withT [.AllColumns] "t")).run (fun _ => execSelect memory 2)
        ⟨fun _ => none, tableU⟩ =
      .ok (.error (.TableNotFound "t")) ⟨fun _ => none, tableU⟩ := by
  have h : (((thenReadT (selectFrom withT [.AllColumns] "t")).run
      (fun _ => lexSelect memory 2 (Scope.outermost fun _ => none))) tableU).Confined := by decide
  exact ⟨h, session_scoped memory 2 _ _ tableU h⟩

-- `WITH t AS (SELECT * FROM u) SELECT COUNT(*) FROM u` leaves its CTE behind, and `SELECT * FROM t`, which
-- has no table to read, answers with its rows.
theorem count_leaks_cte :
    ∃ cache, (thenReadT (selectFrom withT [.Expr (.Function "COUNT" [] false) none] "u")).run
        (fun _ => execSelect memory 2) ⟨fun _ => none, tableU⟩ =
      .ok (.ok { rows := [[.Integer 1]], cols := ["a"] }) ⟨cache, tableU⟩ ∧ cache (key "t") ≠ none :=
  ⟨_, rfl, by decide⟩

end Leak

end Kkdb.Cte
