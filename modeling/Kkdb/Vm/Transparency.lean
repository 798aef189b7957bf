import Kkdb.Vm.Execute

namespace Kkdb

open Lib

section Conditions

variable {σ : Type} (E : Engine σ)

-- The two states give the SELECT the same result.
def Keeps (sel : SelectStmt) (s s' : σ) : Prop := (E.execSelect sel s').1 = (E.execSelect sel s).1

-- The two SELECTs have the same result in every state.
def SameQuery (sel sel' : SelectStmt) : Prop := ∀ s, (E.execSelect sel s).1 = (E.execSelect sel' s).1

-- A statement still running will drop the SELECT's entry if it succeeds.
def Pending (stack : List (Frame σ)) (sel : SelectStmt) : Prop :=
  ∃ tableName, Frame.arm (some tableName) ∈ stack ∧
    toAsciiLowercase tableName ∈ extractTableNamesFromSelect sel

-- The cache holds a result of this SELECT, from when it ran in this state.
def Vm.Cached (vm : Vm σ) (sel : SelectStmt) (s : σ) : Prop :=
  ∃ key saved, vm.queryCache.content key = some saved ∧ vm.origin key = some (sel, s)

-- The engine goes over to another state. A cached SELECT may notice only inside a
-- statement on one of the tables its entry is filed under.
def Tracks (vm : Vm σ) (stack : List (Frame σ)) (s' : σ) : Prop :=
  ∀ sel s, vm.Cached sel s → Keeps E sel vm.engine s' ∨ Pending stack sel

-- A SELECT that finds an entry is the query the entry was stored for, and no statement
-- on a table of that entry is unfinished.
def Finds (vm : Vm σ) (stack : List (Frame σ)) (sel : SelectStmt) (sql : String) : Prop :=
  ∀ sel' s, vm.origin (QueryCache.normalizeKey sql) = some (sel', s) →
    SameQuery E sel sel' ∧ ¬ Pending stack sel'

-- A SELECT that runs changes no cached result, nor its own when that is going to be cached.
def Runs (vm : Vm σ) (stack : List (Frame σ)) (sel : SelectStmt) : Prop :=
  Tracks E vm stack (E.execSelect sel vm.engine).2 ∧
    (cacheEligible E vm.engine vm.queryCache = true →
      Keeps E sel vm.engine (E.execSelect sel vm.engine).2 ∨ Pending stack sel)

def Hits (vm : Vm σ) (sql : String) : Bool :=
  cacheEligible E vm.engine vm.queryCache && (vm.queryCache.get sql).1.isSome

-- A statement that fails leaves the cached SELECTs on its table as they were cached.
def Fails (vm : Vm σ) (stack : List (Frame σ)) (tableName : String) : Prop :=
  ∀ sel s, vm.Cached sel s → toAsciiLowercase tableName ∈ extractTableNamesFromSelect sel →
    Keeps E sel s vm.engine ∨ Pending stack sel

def Tracked (move : Option Request) (vm : Vm σ) : Prop :=
  match move, vm.prog, vm.stack with
  | none, .act change _, stack => Tracks E vm stack (change vm.engine)
  | none, .ret _, .dispatch (.Select sel) sql :: stack =>
      if Hits E vm sql then Finds E vm stack sel sql else Runs E vm stack sel
  | none, .ret (.error _), .arm (some tableName) :: stack => Fails E vm stack tableName
  | _, _, _ => True

-- The SELECT about to be executed returns what it would with the cache disabled.
def Transparent (vm : Vm σ) : Prop :=
  match vm.prog, vm.stack with
  | .ret _, .dispatch (.Select sel) sql :: _ =>
      (executeSelect E sel sql vm.engine vm.queryCache).1 =
        (executeSelect E sel sql vm.engine (vm.queryCache.setEnabled false)).1
  | _, _ => True

-- Every entry holds the result of the SELECT it was stored for, as it was then; it is
-- still that result unless a running statement is about to drop the entry.
def Fresh (vm : Vm σ) : Prop :=
  ∀ key saved, vm.queryCache.content key = some saved →
    ∃ sel s, vm.origin key = some (sel, s) ∧ saved.2.2 = extractTableNamesFromSelect sel ∧
      (E.execSelect sel s).1 = .ok (.QueryResult saved.1 saved.2.1) ∧
      (Keeps E sel s vm.engine ∨ Pending vm.stack sel)

variable {E}
variable {vm vm' : Vm σ} {stack : List (Frame σ)} {sel : SelectStmt}

theorem pending_cons {frame : Frame σ} (h : Pending stack sel) : Pending (frame :: stack) sel := by
  obtain ⟨tableName, hmem, htable⟩ := h
  exact ⟨tableName, List.mem_cons_of_mem _ hmem, htable⟩

-- Only the frame of a statement with a table of its own can be what a SELECT waits for.
theorem pending_of_cons {frame : Frame σ} (hframe : ∀ tableName, frame ≠ .arm (some tableName))
    (h : Pending (frame :: stack) sel) : Pending stack sel := by
  obtain ⟨tableName, hmem, htable⟩ := h
  refine ⟨tableName, ?_, htable⟩
  rcases List.mem_cons.mp hmem with heq | hmem
  · exact absurd heq.symm (hframe tableName)
  · exact hmem

theorem pending_arm {tableName : String} (h : Pending (.arm (some tableName) :: stack) sel) :
    toAsciiLowercase tableName ∈ extractTableNamesFromSelect sel ∨ Pending stack sel := by
  obtain ⟨name, hmem, htable⟩ := h
  rcases List.mem_cons.mp hmem with heq | hmem
  · cases heq
    exact .inl htable
  · exact .inr ⟨name, hmem, htable⟩

theorem fresh_new (s : σ) (maxEntries : Nat) : Fresh E (Vm.new s maxEntries) := by
  intro key saved hsaved
  simp [Vm.new] at hsaved

variable {saved : List String × List Row × List (List Char)}

theorem Fresh.entry {s' : σ} {key : CacheKey} (h : Fresh E vm) (htracks : Tracks E vm stack s')
    (hstack : ∀ sel, Pending vm.stack sel → Pending stack sel)
    (hsaved : vm.queryCache.content key = some saved) :
    ∃ sel s, vm.origin key = some (sel, s) ∧ saved.2.2 = extractTableNamesFromSelect sel ∧
      (E.execSelect sel s).1 = .ok (.QueryResult saved.1 saved.2.1) ∧
      (Keeps E sel s s' ∨ Pending stack sel) := by
  obtain ⟨sel, s, horigin, htables, hresult, hkeeps⟩ := h key saved hsaved
  refine ⟨sel, s, horigin, htables, hresult, ?_⟩
  rcases hkeeps with hkeeps | hpending
  · exact (htracks sel s ⟨key, saved, hsaved, horigin⟩).imp_left fun hnow => hnow.trans hkeeps
  · exact .inr (hstack sel hpending)

theorem Fresh.track (h : Fresh E vm) (htracks : Tracks E vm vm'.stack vm'.engine)
    (horigin : vm'.origin = vm.origin)
    (hcontent : ∀ key saved, vm'.queryCache.content key = some saved →
      vm.queryCache.content key = some saved)
    (hstack : ∀ sel, Pending vm.stack sel → Pending vm'.stack sel) : Fresh E vm' := by
  intro key saved hsaved
  rw [horigin]
  exact h.entry htracks hstack (hcontent key saved hsaved)

-- A step that only drops entries and forgets no running statement keeps the cache fresh.
theorem Fresh.mono (h : Fresh E vm) (hengine : vm'.engine = vm.engine)
    (horigin : vm'.origin = vm.origin)
    (hcontent : ∀ key saved, vm'.queryCache.content key = some saved →
      vm.queryCache.content key = some saved)
    (hstack : ∀ sel, Pending vm.stack sel → Pending vm'.stack sel) : Fresh E vm' := by
  refine h.track ?_ horigin hcontent hstack
  intro sel s _
  rw [hengine]
  exact .inl rfl

variable {sql : String}

theorem fresh_enter (h : Fresh E vm) (hstack : vm.stack = .entry sql :: stack) :
    Fresh E (vm.enter E sql stack) := by
  have hpop : ∀ sel, Pending vm.stack sel → Pending stack sel := by
    intro sel hpending
    rw [hstack] at hpending
    exact pending_of_cons (by simp) hpending
  rw [Vm.enter]
  cases command sql with
  | ShowAuditLog => exact h.mono rfl rfl (fun _ _ hsaved => hsaved) hpop
  | WalCheckpoint => exact h.mono rfl rfl (fun _ _ hsaved => hsaved) hpop
  | Reindex => exact h.mono rfl rfl (fun _ _ hsaved => hsaved) hpop
  | Shutdown =>
      exact h.mono rfl rfl (fun _ _ hsaved => hsaved) fun sel hpending =>
        pending_cons (hpop sel hpending)
  | Sql =>
      cases E.parseSql sql with
      | error e => exact h.mono rfl rfl (fun _ _ hsaved => hsaved) hpop
      | ok stmt =>
          exact h.mono rfl rfl (fun _ _ hsaved => hsaved) fun sel hpending =>
            pending_cons (pending_cons (hpop sel hpending))

variable {cache : QueryCache}

theorem content_switchCache {stmt : Statement} {key : CacheKey}

    (h : (stmt.switchCache cache).content key = some saved) : cache.content key = some saved := by
  unfold Statement.switchCache at h
  split at h
  · dsimp only at h
    split_ifs at h
    · exact QueryCache.content_setEnabled cache _ h
    · exact h
  · exact h

theorem executeSelect_hit (sel : SelectStmt) {columns : List String}
    {rows : List Row} {s : σ} (heligible : cacheEligible E s cache = true)
    (hget : (cache.get sql).1 = some (columns, rows)) :
    executeSelect E sel sql s cache = (.ok (.QueryResult columns rows), s, (cache.get sql).2) := by
  rw [executeSelect, if_pos heligible]
  rcases hfound : cache.get sql with ⟨found, cache'⟩
  rw [hfound] at hget
  cases hget
  rfl

theorem executeSelect_miss (sel : SelectStmt) {s : σ}
    (heligible : cacheEligible E s cache = true) (hget : (cache.get sql).1 = none) :
    executeSelect E sel sql s cache =
      ((E.execSelect sel s).1, (E.execSelect sel s).2,
        storeResult (cache.get sql).2 sel sql (E.execSelect sel s).1) := by
  rw [executeSelect, if_pos heligible]
  rcases hfound : cache.get sql with ⟨found, cache'⟩
  rw [hfound] at hget
  cases hget
  rfl

theorem executeSelect_uncached (sel : SelectStmt) (sql : String) {s : σ}
    (heligible : cacheEligible E s cache = false) :
    executeSelect E sel sql s cache = ((E.execSelect sel s).1, (E.execSelect sel s).2, cache) := by
  rw [executeSelect, heligible]
  rfl

theorem enabled_of_eligible {s : σ} (h : cacheEligible E s cache = true) :
    cache.enabled = true := by
  simp only [cacheEligible, Bool.and_eq_true] at h
  exact h.2

theorem enabled_get (cache : QueryCache) (sql : String) : (cache.get sql).2.enabled = cache.enabled := by
  rw [QueryCache.get]
  cases cache.entries.lookup (QueryCache.normalizeKey sql) with
  | none => rfl
  | some entry => rfl

theorem content_storeResult {result : Outcome} {key : CacheKey} (henabled : cache.enabled = true)
    (hmiss : cache.content (QueryCache.normalizeKey sql) = none)
    (h : (storeResult cache sel sql result).content key = some saved) :
    (key = QueryCache.normalizeKey sql ∧ saved.2.2 = extractTableNamesFromSelect sel ∧
      result = .ok (.QueryResult saved.1 saved.2.1)) ∨
    (key ≠ QueryCache.normalizeKey sql ∧ cache.content key = some saved) := by
  have hold : cache.content key = some saved → key ≠ QueryCache.normalizeKey sql ∧
      cache.content key = some saved := by
    intro hcontent
    refine ⟨fun hkey => ?_, hcontent⟩
    rw [hkey, hmiss] at hcontent
    cases hcontent
  cases result with
  | error e => exact .inr (hold h)
  | ok r =>
      cases r with
      | Ok message => exact .inr (hold h)
      | RowsAffected count message => exact .inr (hold h)
      | Explain plan => exact .inr (hold h)
      | QueryResult columns rows =>
          rw [storeResult] at h
          split_ifs at h
          · exact .inr (hold h)
          · by_cases hkey : key = QueryCache.normalizeKey sql
            · rw [hkey, QueryCache.content_put_self cache sql _ columns rows henabled] at h
              cases h
              exact .inl ⟨hkey, rfl, rfl⟩
            · exact .inr ⟨hkey, QueryCache.content_put_of_ne cache sql _ columns rows hkey h⟩

theorem content_none_of_miss (h : (cache.get sql).1 = none) :
    cache.content (QueryCache.normalizeKey sql) = none := by
  rw [QueryCache.get_fst] at h
  exact Option.map_eq_none_iff.mp h

theorem fresh_select_hit {columns : List String} {rows : List Row} (h : Fresh E vm)
    (hpop : ∀ sel, Pending vm.stack sel → Pending stack sel)
    (heligible : cacheEligible E vm.engine vm.queryCache = true)
    (hget : (vm.queryCache.get sql).1 = some (columns, rows)) : Fresh E (vm.select E sel sql stack) := by
  have hrun := executeSelect_hit sel heligible hget
  refine h.mono ?_ ?_ ?_ hpop
  · rw [Vm.select, hrun]
  · rw [Vm.select, hget]
    exact if_neg (by simp)
  · intro key saved hsaved
    rw [Vm.select, hrun, QueryCache.content_get] at hsaved
    exact hsaved

theorem fresh_select_miss (h : Fresh E vm) (hpop : ∀ sel, Pending vm.stack sel → Pending stack sel)
    (heligible : cacheEligible E vm.engine vm.queryCache = true)
    (hget : (vm.queryCache.get sql).1 = none) (hruns : Runs E vm stack sel) :
    Fresh E (vm.select E sel sql stack) := by
  intro key saved hsaved
  have hrun := executeSelect_miss sel heligible hget
  have horigin : (vm.select E sel sql stack).origin =
      Function.update vm.origin (QueryCache.normalizeKey sql) (some (sel, vm.engine)) := by
    rw [Vm.select, hget]
    exact if_pos ⟨heligible, rfl⟩
  have hengine : (vm.select E sel sql stack).engine = (E.execSelect sel vm.engine).2 := by
    rw [Vm.select, hrun]
  have hcache : (vm.select E sel sql stack).queryCache =
      storeResult (vm.queryCache.get sql).2 sel sql (E.execSelect sel vm.engine).1 := by
    rw [Vm.select, hrun]
  have hstack : (vm.select E sel sql stack).stack = stack := rfl
  rw [horigin, hengine, hstack]
  rw [hcache] at hsaved
  have henabled := enabled_get vm.queryCache sql
  rw [enabled_of_eligible heligible] at henabled
  have hmiss := content_none_of_miss hget
  rw [← QueryCache.content_get vm.queryCache sql] at hmiss
  rcases content_storeResult henabled hmiss hsaved with ⟨hkey, htables, hresult⟩ | ⟨hkey, hold⟩
  · rw [hkey]
    exact ⟨sel, vm.engine, Function.update_self _ _ _, htables, hresult, hruns.2 heligible⟩
  · rw [QueryCache.content_get] at hold
    rw [Function.update_of_ne hkey]
    exact h.entry hruns.1 hpop hold

theorem fresh_select_uncached (h : Fresh E vm) (hpop : ∀ sel, Pending vm.stack sel → Pending stack sel)
    (heligible : cacheEligible E vm.engine vm.queryCache = false) (hruns : Runs E vm stack sel) :
    Fresh E (vm.select E sel sql stack) := by
  have hrun := executeSelect_uncached sel sql heligible
  refine h.track ?_ ?_ ?_ hpop
  · rw [Vm.select, hrun]
    exact hruns.1
  · rw [Vm.select]
    exact if_neg (by simp [heligible])
  · intro key saved hsaved
    rw [Vm.select, hrun] at hsaved
    exact hsaved

theorem fresh_select (h : Fresh E vm) (hpop : ∀ sel, Pending vm.stack sel → Pending stack sel)
    (hruns : Hits E vm sql = false → Runs E vm stack sel) : Fresh E (vm.select E sel sql stack) := by
  cases heligible : cacheEligible E vm.engine vm.queryCache with
  | false => exact fresh_select_uncached h hpop heligible (hruns (by simp [Hits, heligible]))
  | true =>
      cases hget : (vm.queryCache.get sql).1 with
      | none => exact fresh_select_miss h hpop heligible hget (hruns (by simp [Hits, hget]))
      | some found => exact fresh_select_hit h hpop heligible hget

theorem fresh_dispatch {stmt : Statement} (h : Fresh E vm)
    (hpop : ∀ sel, Pending vm.stack sel → Pending stack sel)
    (hruns : ∀ sel, stmt = .Select sel → Hits E vm sql = false → Runs E vm stack sel) :
    Fresh E (vm.dispatch E stmt sql stack) := by
  unfold Vm.dispatch
  split
  · exact fresh_select h hpop (hruns _ rfl)
  · exact h.mono rfl rfl (fun _ _ hsaved => content_switchCache hsaved) fun sel hpending =>
      pending_cons (hpop sel hpending)

-- A statement that succeeds has just dropped the entries that waited for it.
theorem fresh_invalidate {tableName : String} (h : Fresh E vm)
    (hstack : vm.stack = .arm (some tableName) :: stack) :
    Fresh E { vm with
      queryCache := vm.queryCache.invalidateTable tableName
      stack := stack } := by
  intro key saved hsaved
  obtain ⟨hcontent, hnot⟩ := QueryCache.content_invalidateTable vm.queryCache tableName hsaved
  obtain ⟨sel, s, horigin, htables, hresult, hkeeps⟩ := h key saved hcontent
  refine ⟨sel, s, horigin, htables, hresult, hkeeps.imp_right fun hpending => ?_⟩
  rw [hstack] at hpending
  rw [htables] at hnot
  exact (pending_arm hpending).resolve_left hnot

theorem fresh_fail {tableName : String} (h : Fresh E vm)
    (hstack : vm.stack = .arm (some tableName) :: stack) (hfails : Fails E vm stack tableName) :
    Fresh E { vm with stack := stack } := by
  intro key saved hsaved
  obtain ⟨sel, s, horigin, htables, hresult, hkeeps⟩ := h key saved hsaved
  refine ⟨sel, s, horigin, htables, hresult, ?_⟩
  rcases hkeeps with hkeeps | hpending
  · exact .inl hkeeps
  · rw [hstack] at hpending
    rcases pending_arm hpending with htable | hpending
    · exact hfails sel s ⟨key, saved, hsaved, horigin⟩ htable
    · exact .inr hpending

theorem fresh_resume {result : Outcome} (h : Fresh E vm) (hprog : vm.prog = .ret result)
    (htracked : Tracked E none vm) : Fresh E (vm.resume E result) := by
  have hpop : ∀ frame stack, vm.stack = frame :: stack →
      (∀ tableName, frame ≠ .arm (some tableName)) →
      ∀ sel, Pending vm.stack sel → Pending stack sel := by
    intro frame stack hstack hframe sel hpending
    rw [hstack] at hpending
    exact pending_of_cons hframe hpending
  unfold Tracked at htracked
  rw [hprog] at htracked
  unfold Vm.resume
  cases hstack : vm.stack with
  | nil => exact h
  | cons frame stack =>
      rw [hstack] at htracked
      cases frame with
      | caller next => exact h.mono rfl rfl (fun _ _ hsaved => hsaved) (hpop _ _ hstack (by simp))
      | entry sql => exact fresh_enter h hstack
      | dispatch stmt sql =>
          refine fresh_dispatch h (hpop _ _ hstack (by simp)) fun sel hsel hhits => ?_
          subst hsel
          simp only [hhits] at htracked
          exact htracked
      | arm tableName =>
          cases tableName with
          | none =>
              refine h.mono rfl rfl ?_ (hpop _ _ hstack (by simp))
              intro key saved hsaved
              cases result with
              | ok r => exact hsaved
              | error e => exact hsaved
          | some tableName =>
              cases result with
              | ok r => exact fresh_invalidate h hstack
              | error e => exact fresh_fail h hstack htracked
      | shutdown =>
          refine h.mono rfl rfl ?_ (hpop _ _ hstack (by simp))
          intro key saved hsaved
          dsimp only at hsaved
          split_ifs at hsaved
          · simp at hsaved
          · exact hsaved
      | finish sql =>
          exact h.mono rfl rfl (fun _ _ hsaved => hsaved) fun sel hpending =>
            pending_cons (hpop _ _ hstack (by simp) sel hpending)
      | result r => exact h.mono rfl rfl (fun _ _ hsaved => hsaved) (hpop _ _ hstack (by simp))

theorem fresh_step {move : Option Request} (h : Fresh E vm) (htracked : Tracked E move vm) :
    Fresh E (vm.step E move) := by
  cases hprog : vm.prog with
  | ret result =>
      cases move with
      | none =>
          unfold Vm.step
          rw [hprog]
          exact fresh_resume h hprog htracked
      | some request =>
          unfold Vm.step
          rw [hprog]
          dsimp only
          split_ifs
          · exact h.mono rfl rfl (fun _ _ hsaved => hsaved) fun _ hpending => hpending
          · exact h
  | act change next =>
      cases move with
      | none =>
          unfold Tracked at htracked
          unfold Vm.step
          rw [hprog] at htracked ⊢
          exact h.track htracked rfl (fun _ _ hsaved => hsaved) fun _ hpending => hpending
      | some request =>
          unfold Vm.step
          rw [hprog]
          exact h
  | executeSql sql next =>
      cases move with
      | none =>
          unfold Vm.step
          rw [hprog]
          exact h.mono rfl rfl (fun _ _ hsaved => hsaved) fun _ hpending =>
            pending_cons (pending_cons hpending)
      | some request =>
          unfold Vm.step
          rw [hprog]
          exact h

theorem executeSelect_disabled (sel : SelectStmt) (sql : String) (s : σ) (cache : QueryCache) :
    (executeSelect E sel sql s (cache.setEnabled false)).1 = (E.execSelect sel s).1 := by
  have heligible : cacheEligible E s (cache.setEnabled false) = false := by
    simp [cacheEligible, QueryCache.setEnabled, QueryCache.clear]
  rw [executeSelect_uncached sel sql heligible]

theorem Fresh.serves (h : Fresh E vm) (stack : List (Frame σ))
    (hpop : ∀ sel, Pending vm.stack sel → Pending stack sel)
    (hfinds : Hits E vm sql = true → Finds E vm stack sel sql) :
    (executeSelect E sel sql vm.engine vm.queryCache).1 = (E.execSelect sel vm.engine).1 := by
  cases heligible : cacheEligible E vm.engine vm.queryCache with
  | false => rw [executeSelect_uncached sel sql heligible]
  | true =>
      cases hget : (vm.queryCache.get sql).1 with
      | none => rw [executeSelect_miss sel heligible hget]
      | some found =>
          have hfinds := hfinds (by simp [Hits, heligible, hget])
          rw [QueryCache.get_fst] at hget
          obtain ⟨saved, hsaved, rfl⟩ := Option.map_eq_some_iff.mp hget
          obtain ⟨sel', s, horigin, -, hresult, hkeeps⟩ := h _ _ hsaved
          obtain ⟨hsame, hnot⟩ := hfinds sel' s horigin
          have hnow := hkeeps.resolve_right fun hpending => hnot (hpop sel' hpending)
          rw [← QueryCache.get_fst] at hget
          rw [executeSelect_hit sel heligible hget, hsame vm.engine, hnow, hresult]

theorem transparent_of_fresh (h : Fresh E vm) (htracked : Tracked E none vm) : Transparent E vm := by
  unfold Tracked at htracked
  unfold Transparent
  split
  · rename_i sel sql stack hprog hstack
    rw [hprog, hstack] at htracked
    rw [executeSelect_disabled]
    refine h.serves stack (fun sel' hpending => ?_) fun hhits => ?_
    · rw [hstack] at hpending
      exact pending_of_cons (by simp) hpending
    · simp only [hhits] at htracked
      exact htracked
  · trivial

-- Every SELECT of a run whose steps are tracked returns what it would with the cache disabled.
theorem transparent_run (E : Engine σ) (s : σ) (maxEntries : Nat) (moves : List (Option Request))
    (h : Meets (Vm.step E) (Tracked E) moves (Vm.new s maxEntries)) :
    ∀ before after, moves = before ++ none :: after →
      Transparent E (run (Vm.step E) before (Vm.new s maxEntries)) := by
  rintro before after rfl
  have hfresh : Fresh E (run (Vm.step E) before (Vm.new s maxEntries)) :=
    run_invariant (Fresh E) (fresh_new s maxEntries)
      (fun _ _ hfresh htracked => fresh_step hfresh htracked) (meets_append h).1
  exact transparent_of_fresh hfresh h.at

end Conditions

section OneTable

def selectName (name : String) : SelectStmt where
  distinct := false
  columns := [.Expr (.ColumnRef none "name") none]
  fromClause := some (.Table "t" none)
  whereClause := some (.BinaryOp (.ColumnRef none "name") .Equal (.StringLiteral name))
  groupBy := []
  having := none
  orderBy := []
  limit := none
  offset := none
  ctes := []
  windowDefs := []
  forUpdate := false

-- A database with the one table `t(name TEXT)`, kept as its names, for three statements.
def oneTable : Engine (List String) where
  parseSql sql :=
    if sql = "SELECT name FROM t WHERE name = 'a'" then .ok (.Select (selectName "a"))
    else if sql = "SELECT name FROM t WHERE name = 'A'" then .ok (.Select (selectName "A"))
    else if sql = "INSERT INTO t VALUES ('a')" then .ok (.Insert "t")
    else .error (.RuntimeError sql)
  mvccSnapshot _ := none
  currentParams _ := []
  bindParams _ names := names
  refreshSnapshot names := names
  execSelect sel names :=
    match sel.whereClause with
    | some (.BinaryOp _ .Equal (.StringLiteral name)) =>
        (.ok (.QueryResult ["name"] ((names.filter fun n => n = name).map fun n => [.Text n])), names)
    | _ => (.ok (.QueryResult ["name"] (names.map fun n => [.Text n])), names)
  drainPendingAutoIndexes _ := .ret (.ok (.Ok ""))
  execShowAuditLog := .ret (.ok (.Ok ""))
  execPragmaWalCheckpoint := .ret (.ok (.Ok ""))
  execReindex _ := .ret (.ok (.Ok ""))
  execShutdown := .ret (.ok (.Ok ""))
  execOther _ _ :=
    .act (fun names => names ++ ["a"]) fun _ => .ret (.ok (.RowsAffected 1 "1 row(s) inserted"))
  finishStatement _ result := .ret result

def requestMoves (sql : String) (steps : Nat) : List (Option Request) :=
  some (.executeSql sql) :: List.replicate steps none

def twoCases : List (Option Request) :=
  requestMoves "SELECT name FROM t WHERE name = 'a'" 7 ++
    requestMoves "SELECT name FROM t WHERE name = 'A'" 3

instance (vm : Vm (List String)) : Decidable (Transparent oneTable vm) := by
  unfold Transparent
  split
  · exact inferInstance
  · exact inferInstance

theorem literal_case_served_alike :
    ¬ Transparent oneTable (run (Vm.step oneTable) twoCases (Vm.new ["a", "A"] 256)) := by
  decide +kernel

def selectInsertSelect : List (Option Request) :=
  requestMoves "SELECT name FROM t WHERE name = 'a'" 7 ++
    requestMoves "SELECT name FROM t WHERE name = 'a'" 7 ++
    requestMoves "INSERT INTO t VALUES ('a')" 9 ++
    requestMoves "SELECT name FROM t WHERE name = 'a'" 4

theorem runs_oneTable (vm : Vm (List String)) (stack : List (Frame (List String))) :
    Runs oneTable vm stack (selectName "a") :=
  ⟨fun _ _ _ => .inl rfl, fun _ => .inl rfl⟩

theorem finds_oneTable {vm : Vm (List String)} {sql sql' : String} {s : List String}
    (horigin : vm.origin (QueryCache.normalizeKey sql) = some (selectName "a", s)) :
    Finds oneTable vm [.finish sql', .caller .ret] (selectName "a") sql := by
  intro sel s' horig
  rw [horigin] at horig
  cases horig
  refine ⟨fun _ => rfl, ?_⟩
  rintro ⟨tableName, hmem, -⟩
  simp at hmem

-- An INSERT changes the cached result, but inside a statement on its table.
theorem tracks_oneTable {vm : Vm (List String)} {stack : List (Frame (List String))}
    {key : CacheKey} {s s' : List String}
    (horigin : vm.origin = Function.update (fun _ => none) key (some (selectName "a", s))) :
    Tracks oneTable vm (.arm (some "t") :: stack) s' := by
  rintro sel s ⟨key', saved, -, horig⟩
  rw [horigin] at horig
  by_cases hkey : key' = key
  · subst hkey
    rw [Function.update_self] at horig
    cases horig
    exact .inr ⟨"t", List.mem_cons_self, by decide +kernel⟩
  · rw [Function.update_of_ne hkey] at horig
    cases horig

theorem selectInsertSelect_tracked :
    Meets (Vm.step oneTable) (Tracked oneTable) selectInsertSelect (Vm.new ["a", "A"] 256) := by
  have tracks_self : ∀ (vm : Vm (List String)) stack, Tracks oneTable vm stack vm.engine :=
    fun _ _ _ _ _ => .inl rfl
  exact ⟨trivial, trivial, trivial, tracks_self _ _, runs_oneTable _ _, trivial, trivial, trivial,
    trivial, trivial, trivial, tracks_self _ _, finds_oneTable rfl, trivial, trivial, trivial,
    trivial, trivial, trivial, tracks_self _ _, trivial, tracks_oneTable rfl, trivial, trivial,
    trivial, trivial, trivial, trivial, trivial, tracks_self _ _, runs_oneTable _ _, trivial⟩

theorem transparent_selectInsertSelect :
    Transparent oneTable
      (run (Vm.step oneTable) selectInsertSelect.dropLast (Vm.new ["a", "A"] 256)) :=
  transparent_run oneTable ["a", "A"] 256 selectInsertSelect selectInsertSelect_tracked
    selectInsertSelect.dropLast [] rfl

end OneTable

end Kkdb
