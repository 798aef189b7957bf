import Kkdb.Catalog.Stored

namespace Kkdb.Catalog

open Lib

section Runs

variable [Lowercase] [Parser]

def TriggerSchema.definition (t : TriggerSchema) : TriggerSchema := { t with rowid := 0 }

inductive Step where
  | CreateTable (name : String) (columnDefs : List ColumnDef) (ifNotExists : Bool) (originalSql : String)
      (extraChecks : List (Option String × Expr)) (isFts : Bool) (rootPage : UInt32)
  | CreateIndex (stmt : CreateIndexStmt) (built : Res UInt32)
  | CreateTrigger (trig : CreateTriggerStmt)
  | DropTrigger (name : String) (ifExists : Bool)
  | DropTable (name : String) (ifExists : Bool)
  | Reload
  | Reopen

def Step.call : Step → DbM Unit
  | CreateTable name columnDefs ifNotExists originalSql extraChecks isFts rootPage =>
      createTable name columnDefs ifNotExists originalSql extraChecks isFts rootPage
  | CreateIndex stmt built => execCreateIndex stmt built
  | CreateTrigger trig => execCreateTrigger trig
  | DropTrigger name ifExists => dropTriggerByName name ifExists
  | DropTable name ifExists => do execDropTable (← get).schema.tables.length name ifExists
  | Reload => do
      let catalog := (← get).catalog
      setSchema (Schema.loadFromPager catalog)
  | Reopen => do
      let catalog := (← get).catalog
      setSchema fun _ => Schema.loadFromPager catalog Schema.new

-- The database, and the triggers that were created and not dropped since.
structure World where
  db : Db
  live : List TriggerSchema

def Dropped (db db' : Db) (key : List Char) : Bool :=
  (db.schema.tables.lookup key).isSome && (db'.schema.tables.lookup key).isNone

-- What a statement that succeeds does to the triggers. They go with their table.
def Step.effect (db db' : Db) (live : List TriggerSchema) : Step → List TriggerSchema
  | CreateTrigger trig =>
      (live.filter fun t => toLowercase t.name ≠ toLowercase trig.name) ++
        [{ name := trig.name, timing := trig.timing, event := trig.event, tableName := trig.tableName,
           bodySql := trig.bodySql, rowid := 0 }]
  | DropTrigger name _ => live.filter fun t => toLowercase t.name ≠ toLowercase name
  | DropTable _ _ => live.filter fun t => !Dropped db db' (toLowercase t.tableName)
  | _ => live

def step (s : Step) (w : World) : World :=
  match s.call w.db with
  | .ok _ db => { db := db, live := s.effect w.db db w.live }
  | .error _ db => { w with db := db }

def World.start : World where
  db := { schema := Schema.new, calls := [] }
  live := []

-- The triggers of every table are those that were created and not dropped since, each once.
def Exact (w : World) : Prop :=
  ∀ tableName timing event, (w.db.schema.getTriggers tableName timing event).map TriggerSchema.definition =
    w.live.filter fun t => toLowercase t.tableName = toLowercase tableName ∧ t.timing = timing ∧ t.event = event

def Db.triggers (db : Db) : List TriggerSchema := db.schema.triggers.flatMap Prod.snd

-- The trigger knows its row in the catalog.
def Filed (db : Db) (t : TriggerSchema) : Prop := (t.rowid, triggerRow t) ∈ db.catalog

-- The two ways to compare names agree on the triggers there are.
def Agrees (db : Db) (name : String) : Prop :=
  ∀ t ∈ db.triggers, toLowercase t.name = toLowercase name ↔ sameName t.name name = true

-- The table has no triggers, and no trigger has its name or the name of one of its indexes.
def Spares (db : Db) (name : String) : Prop :=
  ∀ t ∈ db.triggers, toLowercase t.tableName ≠ toLowercase name ∧ sameName t.name name = false ∧
    ∀ idx ∈ db.schema.indexes, sameName idx.2.tableName name = true → sameName t.name idx.2.name = false

def SparesAll : Nat → String → Db → Prop
  | 0, _, _ => True
  | fuel + 1, name, db =>
      match db.schema.tables.lookup (toLowercase name) with
      | none => True
      | some table =>
          Spares db name ∧ (table.isFts → SparesAll fuel (name ++ "_fts_idx") (left (dropTable name true) db))

-- A trigger is only dropped or replaced before a reload, a table with no triggers and no namesakes among
-- them is dropped, and the schema is only loaded over itself while there are none.
def Guarded : Step → World → Prop
  | .CreateTrigger trig, w =>
      Agrees w.db trig.name ∧ ∀ t ∈ w.db.triggers, sameName t.name trig.name = true → trig.orReplace = true →
        Filed w.db t ∧ (w.db.schema.getTable trig.tableName).isSome ∧ maxRowid w.db.catalog ≠ Int64.maxValue
  | .DropTrigger name _, w => Agrees w.db name ∧ ∀ t ∈ w.db.triggers, sameName t.name name = true → Filed w.db t
  | .DropTable name _, w => SparesAll w.db.schema.tables.length name w.db
  | .Reload, w => w.db.triggers = []
  | _, _ => True

end Runs

section Rows

theorem cut_append {c : Char} {front : List Char} (h : c ∉ front) (rest : List Char) :
    cut c (front ++ c :: rest) = some (front, rest) := by
  have hfront : ∀ x ∈ front, x ≠ c := fun x hx heq => h (heq ▸ hx)
  have htake : (front ++ c :: rest).takeWhile (· ≠ c) = front := by
    rw [List.takeWhile_append_of_pos (by simpa using hfront)]
    simp
  have hdrop : (front ++ c :: rest).dropWhile (· ≠ c) = c :: rest := by
    rw [List.dropWhile_append_of_pos (by simpa using hfront)]
    simp
  rw [cut, if_pos (by simp), htake, hdrop]
  rfl

-- The trigger that a row of the catalog loads.
def rowTrigger (row : Row) : Option TriggerSchema :=
  (readRow row).bind fun row =>
    if row.objType = "trigger" then row.tblName.bind fun tblName =>
      loadTrigger row.name tblName row.rootPage row.sql
    else none

theorem rowTrigger_triggerRow (t : TriggerSchema) : rowTrigger (triggerRow t) = some t.definition := by
  have hsql : (s!"{timingStr t.timing}|{eventStr t.event}|{t.bodySql}").toList =
      (timingStr t.timing).toList ++ '|' :: ((eventStr t.event).toList ++ '|' :: t.bodySql.toList) := by
    simp
    rfl
  have htiming : '|' ∉ (timingStr t.timing).toList := by cases t.timing <;> decide
  have hevent : '|' ∉ (eventStr t.event).toList := by cases t.event <;> decide
  have hload : loadTrigger t.name t.tableName 0
      s!"{timingStr t.timing}|{eventStr t.event}|{t.bodySql}" = some t.definition := by
    have hbefore : (if (timingStr t.timing).toList = "BEFORE".toList then TriggerTiming.Before else .After) =
        t.timing := by cases t.timing <;> decide
    have hinsert : (if (eventStr t.event).toList = "INSERT".toList then TriggerEvent.Insert
        else if (eventStr t.event).toList = "UPDATE".toList then .Update else .Delete) = t.event := by
      cases t.event <;> decide
    rw [loadTrigger, hsql, cut_append htiming]
    simp only [Option.bind_eq_bind, Option.bind_some, cut_append hevent, String.ofList_toList, hbefore, hinsert]
    rfl
  exact hload

theorem rowTrigger_name {row : Row} {t : TriggerSchema} (h : rowTrigger row = some t) :
    rowName row = some t.name := by
  unfold rowTrigger at h
  obtain ⟨fields, hfields, h⟩ := Option.bind_eq_some_iff.mp h
  have hrow : rowName row = some fields.name := rowName_of_readRow hfields
  have hname : t.name = fields.name := by
    split_ifs at h
    obtain ⟨tblName, -, h⟩ := Option.bind_eq_some_iff.mp h
    exact loadTrigger_name h
  rw [hrow, hname]

variable [Lowercase] [Parser]

theorem loadRow_triggers (schema : Schema) (row : Row) :
    (schema.loadRow row).triggers =
      match rowTrigger row with
      | some t => (schema.pushTrigger t).triggers
      | none => schema.triggers := by
  unfold Schema.loadRow rowTrigger
  cases readRow row with
  | none => rfl
  | some row =>
      simp only [Option.bind_some]
      unfold Schema.loadCatalogRow
      by_cases htable : row.objType = "table" ∨ row.objType = "fts_table"
      · have hne : row.objType ≠ "trigger" := by rintro heq; simp [heq] at htable
        rw [if_pos htable, if_neg hne]
      · rw [if_neg htable]
        by_cases hindex : row.objType = "index" ∨ row.objType = "fulltext_index"
        · have hne : row.objType ≠ "trigger" := by rintro heq; simp [heq] at hindex
          rw [if_pos hindex, if_neg hne]
          cases row.tblName <;> rfl
        · rw [if_neg hindex]
          by_cases htrigger : row.objType = "trigger"
          · rw [if_pos htrigger, if_pos htrigger]
            cases row.tblName.bind fun tblName => loadTrigger row.name tblName row.rootPage row.sql <;> rfl
          · rw [if_neg htrigger, if_neg htrigger]
            by_cases hrls : row.objType = "rls_enabled"
            · rw [if_pos hrls]
              cases schema.tables.lookup (toLowercase row.name) <;> rfl
            · rw [if_neg hrls]

theorem foldl_triggers (rows : Rows) (schema : Schema) (hnodup : (schema.triggers.map Prod.fst).Nodup) :
    ((rows.foldl (fun schema r => schema.loadRow r.2) schema).triggers.map Prod.fst).Nodup ∧
      ∀ key, lookupD (rows.foldl (fun schema r => schema.loadRow r.2) schema).triggers key [] =
        lookupD schema.triggers key [] ++
          (rows.filterMap fun r => rowTrigger r.2).filter fun t => toLowercase t.tableName = key := by
  induction rows generalizing schema with
  | nil => exact ⟨hnodup, fun key => by simp⟩
  | cons r rows ih =>
      have hrow := loadRow_triggers schema r.2
      rw [List.foldl_cons, List.filterMap_cons]
      cases htrigger : rowTrigger r.2 with
      | none =>
          rw [htrigger] at hrow
          simp only at hrow
          have hih := ih (schema.loadRow r.2) (by rw [hrow]; exact hnodup)
          rw [hrow] at hih
          exact hih
      | some t =>
          rw [htrigger] at hrow
          simp only [Schema.pushTrigger] at hrow
          obtain ⟨hkeys, hlookup⟩ := ih (schema.loadRow r.2) (by rw [hrow]; exact nodup_put hnodup)
          refine ⟨hkeys, fun key => ?_⟩
          rw [hlookup, hrow, lookupD_put, List.filter_cons]
          by_cases hkey : key = toLowercase t.tableName
          · rw [if_pos hkey, if_pos (by simpa using hkey.symm), hkey]
            simp
          · rw [if_neg hkey, if_neg (by simpa using fun heq => hkey heq.symm)]

theorem load_triggers (rows : Rows) (schema : Schema) (hnodup : (schema.triggers.map Prod.fst).Nodup) :
    ((Schema.loadFromPager rows schema).triggers.map Prod.fst).Nodup ∧
      ∀ key, lookupD (Schema.loadFromPager rows schema).triggers key [] =
        lookupD schema.triggers key [] ++
          (rows.filterMap fun r => rowTrigger r.2).filter fun t => toLowercase t.tableName = key :=
  foldl_triggers rows { schema with tables := [], indexes := [], indexesByTable := [] } hnodup

end Rows

section Kept

def storedTriggers (rows : Rows) : List TriggerSchema :=
  rows.filterMap fun r => (rowTrigger r.2).map TriggerSchema.definition

-- What keeps the triggers and their rows as they are.
structure Kept (db db' : Db) : Prop where
  triggers : db'.schema.triggers = db.schema.triggers
  stored : storedTriggers db'.catalog = storedTriggers db.catalog

theorem Kept.refl (db : Db) : Kept db db := ⟨rfl, rfl⟩

theorem Kept.trans {db db' db'' : Db} (h : Kept db db') (h' : Kept db' db'') : Kept db db'' :=
  ⟨h'.triggers.trans h.triggers, h'.stored.trans h.stored⟩

theorem kept_insert {db : Db} {row : Row} (hrow : rowTrigger row = none)
    (hmax : maxRowid db.catalog ≠ Int64.maxValue)
    {schema : Schema} (htriggers : schema.triggers = db.schema.triggers) :
    Kept db { schema := schema, calls := db.calls ++ [.Append row] } := by
  refine ⟨htriggers, ?_⟩
  rw [catalog_append hmax]
  simp [storedTriggers, hrow]

theorem mem_triggers {db : Db} (hkeys : (db.schema.triggers.map Prod.fst).Nodup) {t : TriggerSchema} :
    t ∈ db.triggers ↔ ∃ key, t ∈ lookupD db.schema.triggers key [] := by
  rw [Db.triggers, List.mem_flatMap]
  constructor
  · rintro ⟨e, he, ht⟩
    exact ⟨e.1, by rw [lookupD, (lookup_eq_some_iff hkeys).mpr he]; exact ht⟩
  · rintro ⟨key, ht⟩
    unfold lookupD at ht
    cases hlook : db.schema.triggers.lookup key with
    | none =>
        rw [hlook] at ht
        cases ht
    | some list =>
        rw [hlook] at ht
        exact ⟨(key, list), mem_of_lookup hlook, ht⟩

end Kept

section Find

theorem findTrigger_some {name : String} {triggers : List (List Char × List TriggerSchema)} {tbl : List Char}
    {i : Nat} {t : TriggerSchema} (h : findTrigger name triggers = some (tbl, i, t)) :
    ∃ list, (tbl, list) ∈ triggers ∧ list[i]? = some t ∧ sameName t.name name = true := by
  obtain ⟨⟨key, list⟩, hmem, hfound⟩ := List.exists_of_findSome?_eq_some h
  dsimp only at hfound
  cases hidx : list.findIdx? fun t => sameName t.name name with
  | none =>
      rw [hidx] at hfound
      cases hfound
  | some j =>
      rw [hidx] at hfound
      obtain ⟨t', ht', heq⟩ := Option.map_eq_some_iff.mp hfound
      cases heq
      obtain ⟨hj, hname, -⟩ := List.findIdx?_eq_some_iff_getElem.mp hidx
      obtain ⟨hi, hget⟩ := List.getElem?_eq_some_iff.mp ht'
      exact ⟨list, hmem, ht', by rw [← hget]; exact hname⟩

theorem findTrigger_none {name : String} {db : Db} (h : findTrigger name db.schema.triggers = none) :
    ∀ t ∈ db.triggers, sameName t.name name = false := by
  intro t ht
  obtain ⟨⟨key, list⟩, he, hin⟩ := List.mem_flatMap.mp ht
  have hentry := List.findSome?_eq_none_iff.mp h _ he
  dsimp only at hentry
  cases hidx : list.findIdx? fun t => sameName t.name name with
  | none =>
      have hall := List.findIdx?_eq_none_iff.mp hidx t hin
      exact hall
  | some i =>
      rw [hidx] at hentry
      obtain ⟨hi, -, -⟩ := List.findIdx?_eq_some_iff_getElem.mp hidx
      simp [List.getElem?_eq_getElem hi] at hentry

-- Taking out the element at a place is taking out all that agree with it, where no two agree.
theorem eraseIdx_eq_filter {α β : Type} [DecidableEq β] (f : α → β) {xs : List α} (hnodup : (xs.map f).Nodup)
    {i : Nat}
    {x : α} (h : xs[i]? = some x) : xs.eraseIdx i = xs.filter fun y => f y ≠ f x := by
  induction xs generalizing i with
  | nil => cases h
  | cons y xs ih =>
      rw [List.map_cons, List.nodup_cons] at hnodup
      cases i with
      | zero =>
          obtain rfl : y = x := Option.some.inj h
          have hrest : ∀ z ∈ xs, decide (f z ≠ f y) = true := by
            intro z hz
            have hne : f z ≠ f y := fun heq => hnodup.1 (heq ▸ List.mem_map_of_mem hz)
            simpa using hne
          rw [List.eraseIdx_cons_zero, List.filter_cons, if_neg (by simp), List.filter_eq_self.mpr hrest]
      | succ i =>
          rw [List.getElem?_cons_succ] at h
          have hne : f y ≠ f x := fun heq => hnodup.1 (heq ▸ List.mem_map_of_mem (List.mem_of_getElem? h))
          rw [List.eraseIdx_cons_succ, List.filter_cons, if_pos (by simpa using hne), ih hnodup.2 h]

end Find

section Dropped

theorem dropped_self (db : Db) (key : List Char) : Dropped db db key = false := by
  unfold Dropped
  cases db.schema.tables.lookup key <;> rfl

theorem dropped_trans {db db' db'' : Db} {key : List Char} (h : Dropped db db' key = false)
    (h' : Dropped db' db'' key = false) : Dropped db db'' key = false := by
  unfold Dropped at h h' ⊢
  cases hl : db.schema.tables.lookup key with
  | none => rfl
  | some table =>
      cases hl' : db'.schema.tables.lookup key with
      | none =>
          rw [hl, hl'] at h
          cases h
      | some table' =>
          rw [hl'] at h'
          cases hl'' : db''.schema.tables.lookup key with
          | none =>
              rw [hl''] at h'
              cases h'
          | some table'' => rfl

end Dropped

section Invariant

variable [Lowercase]

-- The catalog and the schema both hold the triggers that are live, in the order in which they were created.
structure Holds (w : World) : Prop where
  keys : (w.db.schema.triggers.map Prod.fst).Nodup
  stored : storedTriggers w.db.catalog = w.live
  memory : ∀ key, (lookupD w.db.schema.triggers key []).map TriggerSchema.definition =
    w.live.filter fun t => toLowercase t.tableName = key
  names : (w.live.map fun t => toLowercase t.name).Nodup

theorem Holds.exact {w : World} (h : Holds w) : Exact w := by
  intro tableName timing event
  have hsplit : (w.live.filter fun t =>
      toLowercase t.tableName = toLowercase tableName ∧ t.timing = timing ∧ t.event = event) =
      (w.live.filter fun t => toLowercase t.tableName = toLowercase tableName).filter
        fun t => t.timing = timing ∧ t.event = event := by
    rw [List.filter_filter]
    apply List.filter_congr
    intro t _
    simp [Bool.and_comm]
  rw [hsplit, ← h.memory, List.filter_map]
  rfl

theorem Holds.key {w : World} (h : Holds w) {key : List Char} {t : TriggerSchema}
    (ht : t ∈ lookupD w.db.schema.triggers key []) : t.definition ∈ w.live ∧ toLowercase t.tableName = key := by
  have hmem : t.definition ∈ (lookupD w.db.schema.triggers key []).map TriggerSchema.definition :=
    List.mem_map_of_mem ht
  rw [h.memory, List.mem_filter, decide_eq_true_eq] at hmem
  exact hmem

theorem Holds.mem_live {w : World} (h : Holds w) {d : TriggerSchema} :
    d ∈ w.live ↔ ∃ t ∈ w.db.triggers, t.definition = d := by
  constructor
  · intro hd
    have hmem : d ∈ w.live.filter fun t => toLowercase t.tableName = toLowercase d.tableName := by
      rw [List.mem_filter]
      exact ⟨hd, by simp⟩
    rw [← h.memory, List.mem_map] at hmem
    obtain ⟨t, ht, rfl⟩ := hmem
    exact ⟨t, (mem_triggers h.keys).mpr ⟨_, ht⟩, rfl⟩
  · rintro ⟨t, ht, rfl⟩
    obtain ⟨key, hkey⟩ := (mem_triggers h.keys).mp ht
    exact (h.key hkey).1

theorem Holds.name_unique {w : World} (h : Holds w) {d d' : TriggerSchema} (hd : d ∈ w.live) (hd' : d' ∈ w.live)
    (hname : toLowercase d.name = toLowercase d'.name) : d = d' :=
  List.inj_on_of_nodup_map h.names hd hd' hname

theorem Holds.none_named {w : World} (h : Holds w) {name : String}
    (hnone : ∀ t ∈ w.db.triggers, toLowercase t.name ≠ toLowercase name) :
    (w.live.filter fun d => toLowercase d.name ≠ toLowercase name) = w.live := by
  refine List.filter_eq_self.mpr fun d hd => ?_
  obtain ⟨t, ht, rfl⟩ := h.mem_live.mp hd
  exact decide_eq_true (hnone t ht)

theorem Holds.kept {w : World} (h : Holds w) {db : Db} (hkept : Kept w.db db) : Holds { w with db := db } := by
  refine ⟨?_, hkept.stored.trans h.stored, ?_, h.names⟩
  · rw [hkept.triggers]
    exact h.keys
  · dsimp only
    rw [hkept.triggers]
    exact h.memory

theorem holds_start : Holds World.start :=
  ⟨List.nodup_nil, rfl, fun _ => rfl, List.nodup_nil⟩

end Invariant

section Steps

variable [Lowercase]

theorem kept_createTable (name : String) (columnDefs : List ColumnDef) (ifNotExists : Bool)
    (originalSql : String)
    (extraChecks : List (Option String × Expr)) (isFts : Bool) (rootPage : UInt32) (db : Db) :
    Kept db (left (createTable name columnDefs ifNotExists originalSql extraChecks isFts rootPage) db) := by
  rcases createTable_cases name columnDefs ifNotExists originalSql extraChecks isFts rootPage db with
    hsame | ⟨-, hmax, hcall⟩
  · rw [hsame]
    exact Kept.refl db
  · rw [left_ok hcall]
    refine kept_insert ?_ hmax rfl
    cases isFts <;> rfl

theorem kept_createIndex (indexName tableName : String) (columns : List String) (unique ifNotExists : Bool)
    (originalSql : String) (built : Res UInt32) (db : Db) :
    Kept db (left (createIndex indexName tableName columns unique ifNotExists originalSql built) db) := by
  rcases createIndex_cases indexName tableName columns unique ifNotExists originalSql built db with
    hsame | ⟨-, rootPage, hmax, hcall⟩
  · rw [hsame]
    exact Kept.refl db
  · rw [left_ok hcall]
    exact kept_insert rfl hmax rfl

theorem Holds.dropTable {w : World} (h : Holds w) {name : String} (hspares : Spares w.db name)
    (ifExists : Bool) :
    Kept w.db (left (dropTable name ifExists) w.db) ∧
      ∀ d ∈ w.live, Dropped w.db (left (Catalog.dropTable name ifExists) w.db) (toLowercase d.tableName) =
        false := by
  rcases dropTable_cases name ifExists w.db with ⟨hsame, -⟩ | ⟨-, hcall⟩
  · rw [hsame]
    exact ⟨Kept.refl _, fun d _ => by cases hl : w.db.schema.tables.lookup (toLowercase d.tableName) <;>
      simp [Dropped, hl]⟩
  · rw [left_ok hcall]
    refine ⟨⟨rfl, ?_⟩, fun d hd => ?_⟩
    · rw [catalog_deletions]
      unfold storedTriggers
      rw [List.filterMap_filter]
      apply List.filterMap_congr
      intro r hr
      cases htrigger : rowTrigger r.2 with
      | none => simp
      | some t =>
          have hlive : t.definition ∈ w.live := by
            rw [← h.stored]
            exact List.mem_filterMap.mpr ⟨r, hr, by rw [htrigger]; rfl⟩
          obtain ⟨t', ht', hdef⟩ := h.mem_live.mp hlive
          have hname : t'.name = t.name := by injection hdef
          obtain ⟨-, hfree, hindexes⟩ := hspares t' ht'
          rw [hname] at hfree hindexes
          have hself : named name r.2 = false := by rw [named, rowTrigger_name htrigger]; exact hfree
          have hindex : ((indexNames w.db.schema name).any fun i => named i r.2) = false := by
            rw [List.any_eq_false]
            intro i hi
            obtain ⟨idx, hidx, rfl⟩ := List.mem_map.mp hi
            obtain ⟨hmem, htable⟩ := List.mem_filter.mp hidx
            rw [named, rowTrigger_name htrigger]
            simpa using hindexes idx hmem htable
          simp [hself, hindex]
    · obtain ⟨t', ht', hdef⟩ := h.mem_live.mp hd
      have htable : d.tableName = t'.tableName := by rw [← hdef]; rfl
      have hne := (hspares t' ht').1
      simp only [Dropped, lookup_remove, htable, if_neg hne]
      cases w.db.schema.tables.lookup (toLowercase t'.tableName) <;> rfl

theorem Holds.execDropTable {w : World} (h : Holds w) {fuel : Nat} {name : String}
    (hspares : SparesAll fuel name w.db) (ifExists : Bool) :
    Kept w.db (left (execDropTable fuel name ifExists) w.db) ∧
      ∀ d ∈ w.live, Dropped w.db (left (Catalog.execDropTable fuel name ifExists) w.db)
        (toLowercase d.tableName) =
        false := by
  induction fuel generalizing w name ifExists with
  | zero => exact ⟨Kept.refl _, fun d _ => dropped_self _ _⟩
  | succ fuel ih =>
      cases hlook : w.db.schema.tables.lookup (toLowercase name) with
      | none =>
          rw [left_execDropTable_none hlook]
          exact ⟨Kept.refl _, fun d _ => dropped_self _ _⟩
      | some table =>
          rw [SparesAll, hlook] at hspares
          obtain ⟨hself, hinternal⟩ := hspares
          have hdrop := h.dropTable hself true
          rw [left_execDropTable_some hlook]
          split_ifs with hfts
          · have hrest := ih (h.kept hdrop.1) (hinternal hfts) true
            exact ⟨hdrop.1.trans hrest.1, fun d hd => dropped_trans (hdrop.2 d hd) (hrest.2 d hd)⟩
          · exact hdrop

theorem Holds.stored_drop {w : World} (h : Holds w) {t : TriggerSchema} (hfiled : Filed w.db t) :
    storedTriggers (w.db.catalog.filter fun r => r.1 ≠ t.rowid) =
      w.live.filter fun d => toLowercase d.name ≠ toLowercase t.name := by
  rw [← h.stored]
  unfold storedTriggers
  rw [List.filterMap_filter, List.filter_filterMap]
  apply List.filterMap_congr
  intro r hr
  by_cases hrow : r.1 = t.rowid
  · have hsame : r = (t.rowid, triggerRow t) := (ascending_catalog w.db).row_unique hr hfiled hrow
    rw [hsame]
    simp [rowTrigger_triggerRow, TriggerSchema.definition, Option.filter_some]
  · cases htrigger : rowTrigger r.2 with
    | none => simp
    | some t' =>
        have hlive' : t'.definition ∈ w.live := by
          rw [← h.stored]
          exact List.mem_filterMap.mpr ⟨r, hr, by rw [htrigger]; rfl⟩
        have hne : toLowercase t'.name ≠ toLowercase t.name := by
          have hpair := h.names
          rw [← h.stored, List.Nodup, List.pairwise_map, storedTriggers, List.pairwise_filterMap] at hpair
          have hsymm : Std.Symm fun r r' : Int64 × Row =>
              ∀ d, (rowTrigger r.2).map TriggerSchema.definition = some d →
                ∀ d', (rowTrigger r'.2).map TriggerSchema.definition = some d' →
                  toLowercase d.name ≠ toLowercase d'.name := ⟨fun r r' hr d hd d' hd' => (hr d' hd' d hd).symm⟩
          have hdiff : r ≠ (t.rowid, triggerRow t) := fun heq => hrow (by rw [heq])
          exact hpair.forall hr hfiled hdiff t'.definition (by rw [htrigger]; rfl) t.definition
            (by rw [rowTrigger_triggerRow]; rfl)
        simp [hrow, hne, TriggerSchema.definition, Option.filter_some]

theorem Holds.memory_drop {w : World} (h : Holds w) {tbl : List Char} {list : List TriggerSchema}
    (hlist : (tbl, list) ∈ w.db.schema.triggers) {i : Nat} {t : TriggerSchema} (ht : list[i]? = some t)
    (key : List Char) :
    (lookupD (put tbl ((lookupD w.db.schema.triggers tbl []).eraseIdx i) w.db.schema.triggers) key []).map
        TriggerSchema.definition =
      (w.live.filter fun d => toLowercase d.name ≠ toLowercase t.name).filter
        fun d => toLowercase d.tableName = key := by
  have hlookup : lookupD w.db.schema.triggers tbl [] = list := by
    rw [lookupD, (lookup_eq_some_iff h.keys).mpr hlist]
    rfl
  have hin : t ∈ lookupD w.db.schema.triggers tbl [] := by
    rw [hlookup]
    exact List.mem_of_getElem? ht
  obtain ⟨hlive, htbl⟩ := h.key hin
  rw [lookupD_put, List.filter_comm]
  by_cases hkey : key = tbl
  · have hmemory := h.memory tbl
    rw [hlookup] at hmemory
    have hnodup : (list.map fun d => toLowercase d.name).Nodup := by
      have hsub : (list.map TriggerSchema.definition).map (fun d => toLowercase d.name) =
          list.map fun d => toLowercase d.name := by
        rw [List.map_map]
        rfl
      rw [← hsub, hmemory]
      exact h.names.sublist (List.filter_sublist.map _)
    rw [if_pos hkey, hlookup, eraseIdx_eq_filter (fun d : TriggerSchema => toLowercase d.name) hnodup ht, hkey,
      ← hmemory, List.filter_map]
    rfl
  · rw [if_neg hkey, h.memory]
    symm
    rw [List.filter_eq_self]
    intro d hd
    rw [List.mem_filter, decide_eq_true_eq] at hd
    have hne : toLowercase d.name ≠ toLowercase t.name := by
      intro heq
      have hsame := h.name_unique hd.1 hlive heq
      rw [hsame] at hd
      exact hkey (hd.2.symm.trans htbl)
    simpa using hne

theorem Holds.dropTrigger {w : World} (h : Holds w) {name : String} (hagrees : Agrees w.db name)
    (hfiled : ∀ t ∈ w.db.triggers, sameName t.name name = true → Filed w.db t) (ifExists : Bool) :
    (∃ db, dropTriggerByName name ifExists w.db = .ok ⟨⟩ db ∧
      Holds { db := db, live := w.live.filter fun d => toLowercase d.name ≠ toLowercase name } ∧
      db.schema.tables = w.db.schema.tables ∧ ∃ keep, db.catalog = w.db.catalog.filter keep) ∨
    ifExists = false ∧ ∃ e, dropTriggerByName name ifExists w.db = .error e w.db := by
  cases hfind : findTrigger name w.db.schema.triggers with
  | none =>
      have hlive := h.none_named fun t ht heq => by
        have hsame := (hagrees t ht).mp heq
        rw [findTrigger_none hfind t ht] at hsame
        cases hsame
      cases ifExists with
      | true =>
          left
          refine ⟨w.db, ?_, by rw [hlive]; exact h, rfl, fun _ => true, by simp⟩
          rw [dropTriggerByName, get_bind, hfind]
          rfl
      | false =>
          right
          refine ⟨rfl, .Err (.RuntimeError s!"trigger '{name}' does not exist"), ?_⟩
          rw [dropTriggerByName, get_bind, hfind]
          rfl
  | some found =>
      obtain ⟨tbl, i, t⟩ := found
      obtain ⟨list, hlist, ht, hname⟩ := findTrigger_some hfind
      have hmem : t ∈ w.db.triggers := List.mem_flatMap.mpr ⟨_, hlist, List.mem_of_getElem? ht⟩
      have hlower := (hagrees t hmem).mpr hname
      left
      refine ⟨{ schema := { w.db.schema with
                  triggers := put tbl ((lookupD w.db.schema.triggers tbl []).eraseIdx i) w.db.schema.triggers }
                calls := w.db.calls ++ [.Delete t.rowid] }, ?_, ⟨?_, ?_, ?_, ?_⟩, rfl, _, catalog_delete ..⟩
      · rw [dropTriggerByName, get_bind, hfind]
        rfl
      · exact nodup_put h.keys
      · rw [catalog_delete, ← hlower]
        exact h.stored_drop (hfiled t hmem hname)
      · rw [← hlower]
        exact h.memory_drop hlist ht
      · exact h.names.sublist (List.filter_sublist.map _)

theorem Holds.saveTrigger {w : World} (h : Holds w) {t : TriggerSchema}
    (hnew : ∀ d ∈ w.live, toLowercase d.name ≠ toLowercase t.name)
    (hmax : maxRowid w.db.catalog ≠ Int64.maxValue) :
    ∃ db, Catalog.saveTrigger t w.db = .ok ⟨⟩ db ∧ Holds { db := db, live := w.live ++ [t.definition] } := by
  have hinsert := insertNext_eq (triggerRow t) w.db
  rw [if_neg hmax] at hinsert
  refine ⟨_, (bind_ok hinsert).trans rfl, ?_, ?_, ?_, ?_⟩
  · exact nodup_put h.keys
  · have hrow : storedTriggers [(maxRowid w.db.catalog + 1, triggerRow t)] = [t.definition] := by
      simp [storedTriggers, rowTrigger_triggerRow, TriggerSchema.definition]
    have hstored := h.stored
    unfold storedTriggers at hstored hrow ⊢
    dsimp only
    rw [catalog_append hmax, List.filterMap_append, hstored, hrow]
  · intro key
    have hmemory := h.memory key
    dsimp only [Schema.pushTrigger]
    rw [lookupD_put, List.filter_append]
    by_cases hkey : key = toLowercase t.tableName
    · rw [if_pos hkey, List.map_append, ← hkey, hmemory]
      simp [hkey, TriggerSchema.definition]
    · have hother : ¬toLowercase t.definition.tableName = key := fun heq => hkey heq.symm
      rw [if_neg hkey, hmemory]
      simp [hother]
  · rw [List.map_append, List.nodup_append]
    refine ⟨h.names, by simp, fun a ha b hb heq => ?_⟩
    obtain ⟨d, hd, rfl⟩ := List.mem_map.mp ha
    rw [List.map_singleton, List.mem_singleton] at hb
    exact hnew d hd (heq.trans hb)

end Steps

section Statements

variable [Lowercase] [Parser]

theorem Holds.createTrigger {w : World} (h : Holds w) {trig : CreateTriggerStmt}
    (hguard : Guarded (.CreateTrigger trig) w) : Holds (step (.CreateTrigger trig) w) := by
  obtain ⟨hagrees, hfiled⟩ := hguard
  let new : TriggerSchema :=
    { name := trig.name, timing := trig.timing, event := trig.event, tableName := trig.tableName,
      bodySql := trig.bodySql, rowid := 0 }
  by_cases hexists : (w.db.schema.triggers.any fun e => e.2.any fun t =>
    toLowercase t.name = toLowercase trig.name) = true
  · cases hreplace : trig.orReplace with
    | false =>
        have hcall : execCreateTrigger trig w.db =
            .error (.Err (.RuntimeError s!"trigger '{trig.name}' already exists")) w.db := by
          rw [execCreateTrigger, get_bind, if_pos hexists, hreplace]
          rfl
        simp only [step, Step.call, hcall]
        exact h
    | true =>
        obtain ⟨t, ht, hname⟩ : ∃ t ∈ w.db.triggers, toLowercase t.name = toLowercase trig.name := by
          obtain ⟨e, he, hany⟩ := List.any_eq_true.mp hexists
          obtain ⟨t, ht, heq⟩ := List.any_eq_true.mp hany
          exact ⟨t, List.mem_flatMap.mpr ⟨e, he, ht⟩, by simpa using heq⟩
        obtain ⟨-, htable, hmax⟩ := hfiled t ht ((hagrees t ht).mp hname) hreplace
        have hfiled' : ∀ t ∈ w.db.triggers, sameName t.name trig.name = true → Filed w.db t :=
          fun t ht hsame => (hfiled t ht hsame hreplace).1
        rcases h.dropTrigger hagrees hfiled' true with ⟨db, hdrop, hholds, htables, keep, hcatalog⟩ |
          ⟨hfalse, -⟩
        · have hmax' : maxRowid db.catalog ≠ Int64.maxValue := by
            rw [hcatalog]
            exact maxRowid_filter (ascending_catalog w.db) hmax keep
          have hnew : ∀ d ∈ w.live.filter (fun d => toLowercase d.name ≠ toLowercase trig.name),
              toLowercase d.name ≠ toLowercase new.name := by
            intro d hd
            simpa using (List.mem_filter.mp hd).2
          obtain ⟨db', hsave, hholds'⟩ := hholds.saveTrigger (t := new) hnew hmax'
          obtain ⟨table, htable⟩ := Option.isSome_iff_exists.mp htable
          have htable' : db.schema.getTable trig.tableName = some table := by
            rw [← htable, Schema.getTable, Schema.getTable, htables]
          have hcall : execCreateTrigger trig w.db = .ok ⟨⟩ db' := by
            rw [execCreateTrigger, get_bind, if_pos hexists, hreplace, if_pos rfl]
            refine (bind_ok hdrop).trans ?_
            simp only [get_bind, htable']
            exact hsave
          simp only [step, Step.call, hcall]
          exact hholds'
        · cases hfalse
  · have hlive := h.none_named fun t ht heq => by
      obtain ⟨e, he, hin⟩ := List.mem_flatMap.mp ht
      exact hexists (List.any_eq_true.mpr ⟨e, he, List.any_eq_true.mpr ⟨t, hin, decide_eq_true heq⟩⟩)
    have hnew : ∀ d ∈ w.live, toLowercase d.name ≠ toLowercase new.name := by
      intro d hd
      rw [← hlive] at hd
      simpa using (List.mem_filter.mp hd).2
    cases htable : w.db.schema.getTable trig.tableName with
    | none =>
        have hcall : execCreateTrigger trig w.db = .error (.Err (.TableNotFound trig.tableName)) w.db := by
          rw [execCreateTrigger, get_bind, if_neg hexists]
          simp only [get_bind, htable]
          rfl
        simp only [step, Step.call, hcall]
        exact h
    | some table =>
        have hcall : execCreateTrigger trig w.db = Catalog.saveTrigger new w.db := by
          rw [execCreateTrigger, get_bind, if_neg hexists]
          simp only [get_bind, htable]
          rfl
        by_cases hmax : maxRowid w.db.catalog = Int64.maxValue
        · have hinsert := insertNext_eq (triggerRow new) w.db
          rw [if_pos hmax] at hinsert
          have hsave : Catalog.saveTrigger new w.db = .error .Panic w.db := bind_error hinsert
          simp only [step, Step.call, hcall, hsave]
          exact h
        · obtain ⟨db, hsave, hholds⟩ := h.saveTrigger (t := new) hnew hmax
          simp only [step, Step.call, hcall, hsave, Step.effect, hlive]
          exact hholds

theorem Holds.step_kept {w : World} (h : Holds w) {s : Step} (hkept : Kept w.db (left s.call w.db))
    (heffect : s.effect w.db (left s.call w.db) w.live = w.live) : Holds (step s w) := by
  cases hcall : s.call w.db with
  | ok a db =>
      rw [left_ok hcall] at hkept heffect
      simp only [step, hcall, heffect]
      exact h.kept hkept
  | error e db =>
      rw [left_error hcall] at hkept
      simp only [step, hcall]
      exact h.kept hkept

theorem Holds.reopen {w : World} (h : Holds w) :
    Holds { w with db := { w.db with schema := Schema.loadFromPager w.db.catalog Schema.new } } := by
  obtain ⟨hkeys, hlookup⟩ := load_triggers w.db.catalog Schema.new List.nodup_nil
  refine ⟨hkeys, h.stored, fun key => ?_, h.names⟩
  dsimp only
  rw [hlookup, ← h.stored, storedTriggers, Schema.new, lookupD, List.lookup_nil, Option.getD_none,
    List.nil_append,
    ← List.map_filterMap, List.filter_map]
  rfl

theorem Holds.reload {w : World} (h : Holds w) (hempty : w.db.triggers = []) :
    Holds { w with db := { w.db with schema := Schema.loadFromPager w.db.catalog w.db.schema } } := by
  have hlive : w.live = [] := by
    rw [List.eq_nil_iff_forall_not_mem]
    intro d hd
    obtain ⟨t, ht, -⟩ := h.mem_live.mp hd
    rw [hempty] at ht
    cases ht
  obtain ⟨hkeys, hlookup⟩ := load_triggers w.db.catalog w.db.schema h.keys
  have hrows : w.db.catalog.filterMap (fun r => rowTrigger r.2) = [] := by
    rw [← List.map_eq_nil_iff, List.map_filterMap, ← hlive, ← h.stored]
    rfl
  refine ⟨hkeys, h.stored, fun key => ?_, h.names⟩
  dsimp only
  rw [hlookup, hrows, List.filter_nil, List.append_nil]
  exact h.memory key

theorem Holds.step {s : Step} {w : World} (hguard : Guarded s w) (h : Holds w) : Holds (Catalog.step s w) := by
  cases s with
  | CreateTable name columnDefs ifNotExists originalSql extraChecks isFts rootPage =>
      exact h.step_kept (kept_createTable name columnDefs ifNotExists originalSql extraChecks isFts rootPage w.db) rfl
  | CreateIndex stmt built => exact h.step_kept (kept_createIndex _ _ _ _ _ _ _ w.db) rfl
  | CreateTrigger trig => exact h.createTrigger hguard
  | DropTrigger name ifExists =>
      rcases h.dropTrigger hguard.1 hguard.2 ifExists with ⟨db, hcall, hholds, -⟩ | ⟨-, e, hcall⟩
      · simp only [Catalog.step, Step.call, hcall]
        exact hholds
      · simp only [Catalog.step, Step.call, hcall]
        exact h
  | DropTable name ifExists =>
      obtain ⟨hkept, hdropped⟩ := h.execDropTable hguard ifExists
      refine h.step_kept hkept ?_
      refine List.filter_eq_self.mpr fun d hd => ?_
      have hlive := hdropped d hd
      exact (congrArg not hlive).trans rfl
  | Reload => exact h.reload hguard
  | Reopen => exact h.reopen

-- In a run whose steps are all guarded, with a catalog that its calls have made soundly, the triggers are those
-- created and not dropped since.
theorem triggers_exact [Lz4Flex] {steps : List Step} {t : BTree.Table}
    (hmeets : Meets Catalog.step Guarded steps World.start)
    (hstored : Stored (run Catalog.step steps World.start).db.calls t) :
    Exact (run Catalog.step steps World.start) ∧ Served (run Catalog.step steps World.start).db.calls ∧
      Answers t (run Catalog.step steps World.start).db.catalog :=
  ⟨(run_invariant Holds holds_start (fun _ _ h hguard => h.step hguard) hmeets).exact, hstored.served,
    hstored.answers⟩

end Statements

section Reloading

attribute [local instance] Lowercase.ascii Parser.none Lz4Flex.incompressible

def triggerOn (name tableName : String) (orReplace : Bool) : CreateTriggerStmt where
  name := name
  timing := .Before
  event := .Insert
  tableName := tableName
  bodySql := "DELETE FROM t"
  orReplace := orReplace

def replaced : List Step :=
  [.CreateTable "t" [.bare "a" .Integer] false "CREATE TABLE t (a INTEGER)" [] false 2,
    .CreateTrigger (triggerOn "check" "t" false),
    .CreateTrigger (triggerOn "check" "t" true), .Reopen]

set_option maxRecDepth 10000 in
theorem replaced_sound :
    Meets CatalogCall.step CatalogCall.Sound (run step replaced World.start).db.calls (emptyTree Buf.zero) := by
  decide +kernel

theorem triggers_exact_replaced :
    Exact (run step replaced World.start) ∧ Served (run step replaced World.start).db.calls ∧
      Answers (run CatalogCall.step (run step replaced World.start).db.calls (emptyTree Buf.zero)).1
        (run step replaced World.start).db.catalog := by
  have hnone : Agrees (run step (replaced.take 1) World.start).db "check" := by
    unfold Agrees
    decide +kernel
  have hagrees : Agrees (run step (replaced.take 2) World.start).db "check" := by
    unfold Agrees
    decide +kernel
  refine triggers_exact ⟨trivial, ⟨hnone, ?_⟩, ⟨hagrees, ?_⟩, trivial, trivial⟩
    (stored_calls (stored_emptyTree Buf.zero) replaced_sound)
  · intro t ht
    cases ht
  · intro t ht _ _
    obtain rfl := List.mem_singleton.mp ht
    refine ⟨List.mem_cons_of_mem _ (List.mem_singleton.mpr rfl), ?_, ?_⟩ <;> decide +kernel

def droppedLate : List Step :=
  [.CreateTable "t" [.bare "a" .Integer] false "CREATE TABLE t (a INTEGER)" [] false 2,
    .CreateTrigger (triggerOn "check" "t" false),
    .Reopen,
    .DropTrigger "check" false, .Reopen]

set_option maxRecDepth 10000 in
-- It is there once more after the next time.
theorem not_exact_droppedLate :
    Meets CatalogCall.step CatalogCall.Sound (run step droppedLate World.start).db.calls (emptyTree Buf.zero) ∧
      ¬Exact (run step droppedLate World.start) := by
  refine ⟨by decide +kernel, fun h => ?_⟩
  have hcount := congrArg List.length (h "t" .Before .Insert)
  revert hcount
  decide +kernel

end Reloading

end Kkdb.Catalog
