import Kkdb.Catalog.Altered
import Kkdb.Lib.Mirror

namespace Kkdb.Catalog

open Lib

section Entries

variable [Lowercase]

def pageInt (page : UInt32) : Int64 := page.toUInt64.toInt64

def tableEntry (row : Row) : Option (List Char × Int64) :=
  (readRow row).bind fun fields =>
    if fields.objType = "table" ∨ fields.objType = "fts_table" then some (toLowercase fields.name,
      fields.rootPage)
    else none

-- Rows of indexes without the name of a table are passed over.
def indexEntry (row : Row) : Option (List Char × Int64) :=
  (readRow row).bind fun fields =>
    if (fields.objType = "index" ∨ fields.objType = "fulltext_index") ∧ fields.tblName.isSome then
      some (toLowercase fields.name, fields.rootPage)
    else none

def FirstIs (entry : Row → Option (List Char × Int64)) (key : List Char) (p : Row → Bool)
    (rows : Rows) : Prop :=
  ∃ r, (rows.find? fun r => p r.2) = some r ∧ (entry r.2).map Prod.fst = some key

-- Of the rows of tables and indexes, those that pass are those of the keys.
def Picks (p : Int64 × Row → Bool) (tables indexes : List (List Char)) (rows : Rows) : Prop :=
  ∀ r ∈ rows, (∀ e, tableEntry r.2 = some e → (p r = true ↔ e.1 ∈ tables)) ∧
    ∀ e, indexEntry r.2 = some e → (p r = true ↔ e.1 ∈ indexes)

def PicksTable (name : String) (db : Db) : Prop :=
  Picks (fun r => named name r.2 || (indexNames db.schema name).any fun i => named i r.2) [toLowercase name]
    ((indexNames db.schema name).map toLowercase) db.catalog

-- The rows with the names of a table and of its indexes are theirs, and so for the internal table.
def DropsTable : Nat → String → Db → Prop
  | 0, _, _ => True
  | fuel + 1, name, db =>
      match db.schema.tables.lookup (toLowercase name) with
      | none => True
      | some table =>
          PicksTable name db ∧ (table.isFts → DropsTable fuel (name ++ "_fts_idx")
            (left (dropTable name true) db))

def DropsIndexes : List String → Db → Prop
  | [], _ => True
  | name :: rest, db =>
      FirstIs indexEntry (toLowercase name) (named name) db.catalog ∧
        DropsIndexes rest (left (dropIndexes [name]) db)

end Entries

section Shape

theorem shaped_append {rows : Rows} (h : ∀ r ∈ rows, (readRow r.2).isSome) {row : Row}
    (hrow : (readRow row).isSome)
    (rowid : Int64) : ∀ r ∈ rows ++ [(rowid, row)], (readRow r.2).isSome := by
  intro r hr
  rcases List.mem_append.mp hr with hin | hlast
  · exact h r hin
  · rw [List.mem_singleton.mp hlast]
    exact hrow

end Shape

section Entries

variable [Lowercase]

theorem indexEntry_of_tableEntry {row : Row} {e : List Char × Int64} (h : tableEntry row = some e) :
    indexEntry row = none := by
  unfold tableEntry at h
  obtain ⟨fields, hfields, h⟩ := Option.bind_eq_some_iff.mp h
  split_ifs at h with htable
  rw [indexEntry, hfields, Option.bind_some]
  rcases htable with heq | heq <;> rw [heq] <;> rfl

theorem tableEntry_of_indexEntry {row : Row} {e : List Char × Int64} (h : indexEntry row = some e) :
    tableEntry row = none := by
  cases htable : tableEntry row with
  | none => rfl
  | some e' =>
      rw [indexEntry_of_tableEntry htable] at h
      cases h

theorem entries_setSql {row : Row} (h : (readRow row).isSome) (sql : String) :
    (readRow (row.set 4 (.Text sql))).isSome ∧ tableEntry (row.set 4 (.Text sql)) = tableEntry row ∧
      indexEntry (row.set 4 (.Text sql)) = indexEntry row := by
  obtain ⟨objType, name, tbl, root, old, rest, rfl⟩ := row_of_shaped h
  exact ⟨rfl, rfl, rfl⟩

theorem entries_setRoot {row : Row} (h : (readRow row).isSome) (page : UInt32) :
    (readRow (row.set 3 (pageValue page))).isSome ∧
      tableEntry (row.set 3 (pageValue page)) = (tableEntry row).map (fun e => (e.1, pageInt page)) ∧
      indexEntry (row.set 3 (pageValue page)) = (indexEntry row).map (fun e => (e.1, pageInt page)) := by
  obtain ⟨objType, name, tbl, root, sql, rest, rfl⟩ := row_of_shaped h
  refine ⟨rfl, ?_, ?_⟩
  · simp only [tableEntry, readRow, List.set_cons_succ, List.set_cons_zero, pageValue, Option.bind_some]
    split_ifs <;> rfl
  · simp only [indexEntry, readRow, List.set_cons_succ, List.set_cons_zero, pageValue, Option.bind_some]
    split_ifs <;> rfl

theorem entry_renameRow {row : Row} (h : (readRow row).isSome) (oldName newName : String) :
    (readRow (renameRow oldName newName row)).isSome ∧
      tableEntry (renameRow oldName newName row) = (tableEntry row).map
        (fun e => (toLowercase newName, e.2)) := by
  obtain ⟨objType, name, tbl, root, sql, rest, rfl⟩ := row_of_shaped h
  refine ⟨rfl, ?_⟩
  simp only [tableEntry, readRow, renameRow, Option.bind_some]
  split_ifs <;> rfl

end Entries

section Reading

variable [Lowercase]

-- What is read of the rows of tables and of indexes, and what the schema says of
-- the same. The keys are those of the rows.
structure Reading (β γ : Type) where
  tableRow : Row → Option (List Char × β)
  indexRow : Row → Option (List Char × γ)
  table : TableSchema → Option β
  index : IndexSchema → γ
  tableRow_key : ∀ row, (tableRow row).map Prod.fst = (tableEntry row).map Prod.fst
  indexRow_key : ∀ row, (indexRow row).map Prod.fst = (indexEntry row).map Prod.fst

namespace Reading

variable {β γ : Type} (R : Reading β γ)

def tables (schema : Schema) (key : List Char) : Option β := (schema.tables.lookup key).bind R.table

def indexes (schema : Schema) (key : List Char) : Option γ := (schema.indexes.lookup key).map R.index

-- The catalog says of the tables and the indexes what the schema says, once of each, and of no others.
structure Matches (db : Db) : Prop where
  shaped : ∀ r ∈ db.catalog, (readRow r.2).isSome
  tables : Mirrors (fun r : Int64 × Row => R.tableRow r.2) db.catalog (R.tables db.schema)
  indexes : Mirrors (fun r : Int64 × Row => R.indexRow r.2) db.catalog (R.indexes db.schema)

variable {R}

variable {row : Row} {key : List Char}

theorem tableRow_some (h : (tableEntry row).map Prod.fst = some key) :
    ∃ v, R.tableRow row = some (key, v) := by
  rw [← R.tableRow_key] at h
  obtain ⟨⟨k, v⟩, hrow, rfl⟩ := Option.map_eq_some_iff.mp h
  exact ⟨v, hrow⟩

theorem indexRow_some (h : (indexEntry row).map Prod.fst = some key) :
    ∃ v, R.indexRow row = some (key, v) := by
  rw [← R.indexRow_key] at h
  obtain ⟨⟨k, v⟩, hrow, rfl⟩ := Option.map_eq_some_iff.mp h
  exact ⟨v, hrow⟩

theorem tableRow_none (h : tableEntry row = none) : R.tableRow row = none := by
  have hkey := R.tableRow_key row
  rw [h] at hkey
  exact Option.map_eq_none_iff.mp hkey

theorem indexRow_none (h : indexEntry row = none) : R.indexRow row = none := by
  have hkey := R.indexRow_key row
  rw [h] at hkey
  exact Option.map_eq_none_iff.mp hkey

theorem entry_of_tableRow {e : List Char × β} (h : R.tableRow row = some e) :
    ∃ root, tableEntry row = some (e.1, root) := by
  have hkey := R.tableRow_key row
  rw [h] at hkey
  obtain ⟨⟨k, root⟩, hrow, heq⟩ := Option.map_eq_some_iff.mp hkey.symm
  exact ⟨root, by rw [hrow, ← heq]⟩

theorem entry_of_indexRow {e : List Char × γ} (h : R.indexRow row = some e) :
    ∃ root, indexEntry row = some (e.1, root) := by
  have hkey := R.indexRow_key row
  rw [h] at hkey
  obtain ⟨⟨k, root⟩, hrow, heq⟩ := Option.map_eq_some_iff.mp hkey.symm
  exact ⟨root, by rw [hrow, ← heq]⟩

theorem matches_start : R.Matches { schema := Schema.new, calls := [] } :=
  ⟨fun _ h => absurd h List.not_mem_nil, mirrors_nil, mirrors_nil⟩

variable {db : Db}

theorem Matches.schema (h : R.Matches db) {schema : Schema}
    (htables : ∀ key, R.tables schema key = R.tables db.schema key)
    (hindexes : ∀ key, R.indexes schema key = R.indexes db.schema key) : R.Matches { db with schema :=
      schema } :=
  ⟨h.shaped, h.tables.congr htables, h.indexes.congr hindexes⟩

theorem Matches.addOther (h : R.Matches db) (hmax : maxRowid db.catalog ≠ Int64.maxValue)
    (hshape : (readRow row).isSome) (htable : tableEntry row = none) (hindex : indexEntry row = none) :
    R.Matches { db with calls := db.calls ++ [.Append row] } := by
  have hcatalog := catalog_append hmax db.schema row
  refine ⟨?_, ?_, ?_⟩ <;> rw [hcatalog]
  · exact shaped_append h.shaped hshape _
  · exact h.tables.append_other (tableRow_none htable)
  · exact h.indexes.append_other (indexRow_none hindex)

theorem Matches.addTable (h : R.Matches db) (hmax : maxRowid db.catalog ≠ Int64.maxValue)
    (hshape : (readRow row).isSome) {table : TableSchema} {v : β}
    (htable : R.tableRow row = some (key, v)) (hv : R.table table = some v)
    (hfresh : db.schema.tables.lookup key = none) :
    R.Matches
      { schema := { db.schema with tables := put key table db.schema.tables }
        calls := db.calls ++ [.Append row] } := by
  obtain ⟨root, hentry⟩ := entry_of_tableRow htable
  refine ⟨?_, ?_, ?_⟩ <;> rw [catalog_append hmax]
  · exact shaped_append h.shaped hshape _
  swap
  · exact h.indexes.append_other (indexRow_none (indexEntry_of_tableEntry hentry))
  refine h.tables.append_new htable ?_ ?_ fun key' hne => ?_
  · rw [Reading.tables, hfresh]
    rfl
  · rw [Reading.tables, lookup_put, if_pos rfl]
    exact hv
  · rw [Reading.tables, lookup_put, if_neg hne]
    rfl

theorem Matches.addIndex (h : R.Matches db) (hmax : maxRowid db.catalog ≠ Int64.maxValue)
    (hshape : (readRow row).isSome) {index : IndexSchema}
    (hindex : R.indexRow row = some (toLowercase index.name, R.index index))
    (hfresh : db.schema.indexes.lookup (toLowercase index.name) = none) :
    R.Matches
      { schema := db.schema.pushIndex index
        calls := db.calls ++ [.Append row] } := by
  obtain ⟨root, hentry⟩ := entry_of_indexRow hindex
  refine ⟨?_, ?_, ?_⟩ <;> rw [catalog_append hmax]
  · exact shaped_append h.shaped hshape _
  · exact h.tables.append_other (tableRow_none (tableEntry_of_indexEntry hentry))
  refine h.indexes.append_new hindex ?_ ?_ fun key' hne => ?_
  · rw [Reading.indexes, hfresh]
    rfl
  · rw [Reading.indexes, Schema.pushIndex, lookup_put, if_pos rfl]
    rfl
  · rw [Reading.indexes, Schema.pushIndex, lookup_put, if_neg hne]
    rfl

theorem Matches.remove {db' : Db} (h : R.Matches db) {p : Int64 × Row → Bool}
    {tables indexes : List (List Char)} (hpicks : Picks p tables indexes db.catalog)
    (hcatalog : db'.catalog = db.catalog.filter fun r => !p r)
    (htables : ∀ key, R.tables db'.schema key = if key ∈ tables then none else R.tables db.schema key)
    (hindexes : ∀ key, R.indexes db'.schema key = if key ∈ indexes then none else R.indexes db.schema key) :
    R.Matches db' := by
  refine ⟨?_, ?_, ?_⟩ <;> rw [hcatalog]
  · exact fun r hr => h.shaped r (List.mem_filter.mp hr).1
  · refine h.tables.filter (· ∈ tables) (fun r hr e he => ?_) (fun key hkey => ?_) fun key hkey => ?_
    · obtain ⟨root, hentry⟩ := entry_of_tableRow he
      rw [Bool.not_eq_true', ← Bool.not_eq_true, (hpicks r hr).1 _ hentry]
    · rw [htables, if_pos hkey]
    · rw [htables, if_neg hkey]
  · refine h.indexes.filter (· ∈ indexes) (fun r hr e he => ?_) (fun key hkey => ?_) fun key hkey => ?_
    · obtain ⟨root, hentry⟩ := entry_of_indexRow he
      rw [Bool.not_eq_true', ← Bool.not_eq_true, (hpicks r hr).2 _ hentry]
    · rw [hindexes, if_pos hkey]
    · rw [hindexes, if_neg hkey]

-- The first row of a name is that of the index, and both go.
theorem Matches.removeFirst (h : R.Matches db) {name : String}
    (hfirst : FirstIs indexEntry (toLowercase name) (named name) db.catalog) {schema : Schema}
    (htables : ∀ key, R.tables schema key = R.tables db.schema key)
    (hindexes : ∀ key, R.indexes schema key = if key =
      toLowercase name then none else R.indexes db.schema key) :
    R.Matches { schema := schema, calls := db.calls ++ removeCalls name db.catalog } := by
  obtain ⟨r, hfind, hentry⟩ := hfirst
  have hasc := ascending_catalog db
  have hmem := List.mem_of_find?_eq_some hfind
  obtain ⟨v, hr⟩ := indexRow_some (R := R) hentry
  obtain ⟨⟨k, root⟩, hroot, hk⟩ := Option.map_eq_some_iff.mp hentry
  have hpicks : Picks (fun x => x.1 = r.1) [] [toLowercase name] db.catalog := by
    intro x hx
    refine ⟨fun e he => ?_, fun e he => ?_⟩
    · simp only [decide_eq_true_eq, List.not_mem_nil, iff_false]
      intro heq
      rw [hasc.row_unique hx hmem heq, tableEntry_of_indexEntry hroot] at he
      cases he
    · simp only [decide_eq_true_eq, List.mem_singleton]
      constructor
      · intro heq
        rw [hasc.row_unique hx hmem heq, hroot] at he
        cases he
        exact hk
      · intro heq
        have hkey : (indexEntry x.2).map Prod.fst = some (toLowercase name) := by
          rw [he, Option.map_some, heq]
        obtain ⟨v', hx'⟩ := indexRow_some (R := R) hkey
        rw [h.indexes.unique hx hmem hx' hr]
  refine h.remove hpicks ?_ (fun key => by simp [htables key]) fun key => by simp [hindexes key]
  rw [catalog_remove, Catalog.removeFirst, hfind]
  exact List.filter_congr fun x _ => by simp

theorem Matches.rewriteSame (h : R.Matches db) (p : Row → Bool) {f : Row → Row}
    (hf : ∀ row, (readRow row).isSome → (readRow (f row)).isSome ∧ R.tableRow (f row) = R.tableRow row ∧
      R.indexRow (f row) = R.indexRow row) :
    R.Matches { db with calls := db.calls ++ rewriteCalls p f db.catalog } := by
  have hasc := ascending_catalog db
  refine ⟨?_, ?_, ?_⟩ <;> rw [catalog_rewrite]
  · exact rewriteFirst_shaped hasc h.shaped p fun row hrow => (hf row hrow).1
  all_goals
    cases hfind : db.catalog.find? fun r => p r.2 with
    | none =>
        rw [rewriteFirst, hfind]
        first
          | exact h.tables
          | exact h.indexes
    | some r =>
        obtain ⟨g, hg, -, hfound, hrest⟩ := rewriteFirst_some hasc hfind f
        have hmem := List.mem_of_find?_eq_some hfind
        obtain ⟨-, htable, hindex⟩ := hf r.2 (h.shaped r hmem)
        rw [hg]
        first
          | refine h.tables.map_same fun x hx => ?_
          | refine h.indexes.map_same fun x hx => ?_
        by_cases hsame : x = r
        · rw [hsame, hfound]
          first
            | exact htable
            | exact hindex
        · rw [hrest x hx hsame]

theorem Matches.rewriteTable (h : R.Matches db) {p : Row → Bool} {f : Row → Row}
    (hfirst : FirstIs tableEntry key p db.catalog) (key' : List Char) (change : β → β)
    (hshape : ∀ row, (readRow row).isSome → (readRow (f row)).isSome)
    (hf : ∀ r v, (db.catalog.find? fun r => p r.2) = some r → R.tableRow r.2 = some (key, v) →
      R.tableRow (f r.2) = some (key', change v))
    {schema : Schema} (hfree : key' = key ∨ R.tables db.schema key' = none)
    (hlookup : ∀ v, R.tables db.schema key = some v → R.tables schema key' = some (change v))
    (hgone : key' ≠ key → R.tables schema key = none)
    (hother : ∀ x, x ≠ key → x ≠ key' → R.tables schema x = R.tables db.schema x)
    (hindexes : ∀ x, R.indexes schema x = R.indexes db.schema x) :
    R.Matches { schema := schema, calls := db.calls ++ rewriteCalls p f db.catalog } := by
  have hasc := ascending_catalog db
  obtain ⟨r, hfind, hkey⟩ := hfirst
  obtain ⟨v, hentry⟩ := tableRow_some (R := R) hkey
  obtain ⟨g, hg, -, hfound, hrest⟩ := rewriteFirst_some hasc hfind f
  have hmem := List.mem_of_find?_eq_some hfind
  have hnew : R.tableRow (g r).2 = some (key', change v) := by
    rw [hfound]
    exact hf r v hfind hentry
  refine ⟨?_, ?_, ?_⟩ <;> rw [catalog_rewrite]
  · exact rewriteFirst_shaped hasc h.shaped p hshape
  · rw [hg]
    exact h.tables.rewrite hmem hentry hnew (fun x hx hne => by rw [hrest x hx hne]) hfree
      (hlookup v (h.tables.decoded hmem hentry)) hgone hother
  · rw [hg]
    refine (h.indexes.map_same fun x hx => ?_).congr hindexes
    by_cases hsame : x = r
    · obtain ⟨root, hold⟩ := entry_of_tableRow hentry
      obtain ⟨root', hnew⟩ := entry_of_tableRow hnew
      rw [hsame, indexRow_none (indexEntry_of_tableEntry hold), indexRow_none (indexEntry_of_tableEntry hnew)]
    · rw [hrest x hx hsame]

theorem Matches.rewriteIndex (h : R.Matches db) {p : Row → Bool} {f : Row → Row}
    (hfirst : FirstIs indexEntry key p db.catalog) (change : γ → γ)
    (hshape : ∀ row, (readRow row).isSome → (readRow (f row)).isSome)
    (hf : ∀ row v, (readRow row).isSome → R.indexRow row = some (key, v) → R.indexRow (f row) = some
    (key, change v))
    {schema : Schema} (htables : ∀ x, R.tables schema x = R.tables db.schema x)
    (hlookup : ∀ v, R.indexes db.schema key = some v → R.indexes schema key = some (change v))
    (hother : ∀ x, x ≠ key → R.indexes schema x = R.indexes db.schema x) :
    R.Matches { schema := schema, calls := db.calls ++ rewriteCalls p f db.catalog } := by
  have hasc := ascending_catalog db
  obtain ⟨r, hfind, hkey⟩ := hfirst
  obtain ⟨v, hentry⟩ := indexRow_some (R := R) hkey
  obtain ⟨g, hg, -, hfound, hrest⟩ := rewriteFirst_some hasc hfind f
  have hmem := List.mem_of_find?_eq_some hfind
  have hnew : R.indexRow (g r).2 = some (key, change v) := by
    rw [hfound]
    exact hf r.2 v (h.shaped r hmem) hentry
  refine ⟨?_, ?_, ?_⟩ <;> rw [catalog_rewrite]
  · exact rewriteFirst_shaped hasc h.shaped p hshape
  · rw [hg]
    refine (h.tables.map_same fun x hx => ?_).congr htables
    by_cases hsame : x = r
    · obtain ⟨root, hold⟩ := entry_of_indexRow hentry
      obtain ⟨root', hnew⟩ := entry_of_indexRow hnew
      rw [hsame, tableRow_none (tableEntry_of_indexEntry hold), tableRow_none (tableEntry_of_indexEntry hnew)]
    · rw [hrest x hx hsame]
  · rw [hg]
    exact h.indexes.rewrite hmem hentry hnew (fun x hx hne => by rw [hrest x hx hne]) (.inl rfl)
      (hlookup v (h.indexes.decoded hmem hentry)) (fun hne => absurd rfl hne) fun x hx _ => hother x hx

end Reading

end Reading

end Kkdb.Catalog
