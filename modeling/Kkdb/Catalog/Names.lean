import Kkdb.Lib.Casing
import Kkdb.Catalog.Calls

namespace Kkdb.Catalog

open Lib

-- `to_lowercase`, by the tables of Unicode.
instance Lowercase.unicode [Casing] : Lowercase := ⟨fun s => Casing.lowercase s.toList⟩

namespace Schema

variable [Lowercase]

def hasIndexesForTable (schema : Schema) (tableName : String) : Bool :=
  (schema.indexesByTable.lookup (lowercaseKey tableName)).any fun names => !names.isEmpty

def indexesForTable (schema : Schema) (tableName : String) : List IndexSchema :=
  (lookupD schema.indexesByTable (lowercaseKey tableName) []).filterMap fun n => schema.indexes.lookup n

def getTableMut (schema : Schema) (name : String) : Option (TableSchema × (TableSchema → Schema)) :=
  (schema.tables.lookup (lowercaseKey name)).map fun table =>
    (table, fun table' => { schema with tables := put (lowercaseKey name) table' schema.tables })

-- `tables.get(&name.to_ascii_lowercase())`
def getTableAscii (schema : Schema) (name : String) : Option TableSchema :=
    schema.tables.lookup (toAsciiLowercase name)

end Schema

-- The lookups by the name v find the table n and its indexes.
structure Finds [Lowercase] (schema : Schema) (n : String) (table : TableSchema) (v : String) : Prop where
  getTable : schema.getTable v = some table
  getTableMut : (schema.getTableMut v).map Prod.fst = some table
  getTableAscii : schema.getTableAscii v = some table
  indexesForTable : ∀ index : IndexSchema, toLowercase index.tableName = toLowercase n →
    index ∈ (schema.pushIndex index).indexesForTable v
  hasIndexesForTable : ∀ index : IndexSchema, toLowercase index.tableName = toLowercase n →
    (schema.pushIndex index).hasIndexesForTable v = true

-- Once the table is created, every lookup finds it under all the ASCII cases of its name.
def FoundOnceCreated [Lowercase] (n : String) : Prop :=
  ∀ defs ifNotExists originalSql extraChecks isFts rootPage db db', db.schema.tables.lookup
    (toLowercase n) = none →
    createTable n defs ifNotExists originalSql extraChecks isFts rootPage db = .ok () db' →
    ∀ v, sameName v n = true → Finds db'.schema n (tableOf n rootPage defs extraChecks isFts) v

def lookupKeys [Lowercase] (name : String) : List (List Char) :=
  [Schema.lowercaseKey name, toAsciiLowercase name, toLowercase name]

section Keys

variable [Lowercase] {schema : Schema} {n v : String} {table : TableSchema}

theorem Finds.of_keys (htable : schema.tables.lookup (toLowercase n) = some table)
    (hkey : Schema.lowercaseKey v = toLowercase n) (hascii : toAsciiLowercase v = toLowercase n) :
    Finds schema n table v where
  getTable := by rw [Schema.getTable, hkey, htable]
  getTableMut := by rw [Schema.getTableMut, hkey, htable, Option.map_some, Option.map_some]
  getTableAscii := by rw [Schema.getTableAscii, hascii, htable]
  indexesForTable index hindex := by
    rw [Schema.indexesForTable, Schema.pushIndex, hkey, hindex, lookupD_put, if_pos rfl, List.mem_filterMap]
    exact ⟨toLowercase index.name, by simp, by rw [lookup_put, if_pos rfl]⟩
  hasIndexesForTable index hindex := by
    rw [Schema.hasIndexesForTable, Schema.pushIndex, hkey, hindex, lookup_put, if_pos rfl, Option.any_some]
    simp

end Keys

section Unicode

variable [Casing] {n v : String}

theorem toLowercase_congr (h : toAsciiLowercase v = toAsciiLowercase n) : toLowercase v = toLowercase n :=
  Casing.lowercase_congr h

theorem lowercaseKey_cases (v : String) :
    Schema.lowercaseKey v = toAsciiLowercase v ∨ Schema.lowercaseKey v = toLowercase v := by
  unfold Schema.lowercaseKey
  by_cases hupper : v.toList.any Char.isUpper = true
  · rw [if_neg (not_not.mpr hupper)]
    by_cases hlen : v.utf8ByteSize ≤ 128
    · exact .inl (if_pos hlen)
    · exact .inr (if_neg hlen)
  · have hsame : toAsciiLowercase v = v.toList.map id :=
      List.map_congr_left fun c hc =>
        Char.toLower_eq_of_not_isUpper fun hc' => hupper (List.any_eq_true.mpr ⟨c, hc, hc'⟩)
    rw [if_pos hupper, hsame, List.map_id]
    exact .inl rfl

theorem mem_lookupKeys {k : List Char} (h : k ∈ lookupKeys v) : k = toAsciiLowercase v ∨ k = toLowercase v := by
  rcases List.mem_cons.mp h with rfl | h
  · exact lowercaseKey_cases v
  · simpa using h

theorem lowercase_of_mem_lookupKeys {k : List Char} (h : k ∈ lookupKeys v) : Casing.lowercase k =
    toLowercase v := by
  rcases mem_lookupKeys h with rfl | rfl
  · refine Casing.lowercase_congr ?_
    rw [toAsciiLowercase, List.map_map]
    exact List.map_congr_left fun c _ => Char.toLower_toLower_eq_toLower c
  · exact Casing.lowercase_lowercase v.toList

def emptyDb : Db := { schema := Schema.new, calls := [] }

theorem foundOnceCreated_iff (n : String) : FoundOnceCreated n ↔ toLowercase n = toAsciiLowercase n := by
  constructor
  · intro h
    have hcreated : createTable n [] false "" [] false 0 emptyDb = .ok () _ := createTable_fresh rfl (by decide)
    have hfound := (h [] false "" [] false 0 _ _ rfl hcreated n (decide_eq_true rfl)).getTableAscii
    rw [Schema.getTableAscii] at hfound
    have hmem := mem_of_lookup hfound
    exact (congrArg Prod.fst (List.mem_singleton.mp hmem)).symm
  · intro h defs ifNotExists originalSql extraChecks isFts rootPage db db' hfresh hrun v hv
    have hsame : toAsciiLowercase v = toAsciiLowercase n := of_decide_eq_true hv
    have hascii : toAsciiLowercase v = toLowercase n := hsame.trans h.symm
    have hkey : Schema.lowercaseKey v = toLowercase n := by
      rcases lowercaseKey_cases v with hkey | hkey
      · exact hkey.trans hascii
      · exact hkey.trans (toLowercase_congr hsame)
    refine Finds.of_keys ?_ hkey hascii
    by_cases hmax : maxRowid db.catalog = Int64.maxValue
    · rw [createTable_full hfresh hmax] at hrun
      cases hrun
    · rw [createTable_fresh hfresh hmax] at hrun
      cases hrun
      rw [lookup_put, if_pos rfl]

theorem lookupKeys_disjoint {a b : String} (h : toLowercase a ≠ toLowercase b) :
    ∀ k ∈ lookupKeys a, k ∉ lookupKeys b := by
  intro k ha hb
  exact h ((lowercase_of_mem_lookupKeys ha).symm.trans (lowercase_of_mem_lookupKeys hb))

-- A table is found by every lookup exactly where Unicode changes no more of its name than ASCII
-- does, and no two tables are taken for each other.
theorem names_found_iff (n a b : String) :
    (FoundOnceCreated n ↔ toLowercase n = toAsciiLowercase n) ∧
    (toLowercase a ≠ toLowercase b → ∀ k ∈ lookupKeys a, k ∉ lookupKeys b) :=
  ⟨foundOnceCreated_iff n, lookupKeys_disjoint⟩

end Unicode

attribute [local instance] fewLetters

-- CREATE TABLE É, and a lookup of É.
theorem accent_not_found : ¬∀ n : String, FoundOnceCreated n := by
  intro h
  have hsame := (foundOnceCreated_iff "É").mp (h "É")
  exact absurd hsame (by decide)

end Kkdb.Catalog
