import Kkdb.Vm.Mvcc
import Mathlib.Data.List.AList

namespace Kkdb

-- `char::is_whitespace`: the Unicode White_Space property.
def isWhitespace (c : Char) : Bool :=
  (9 ≤ c.toNat && c.toNat ≤ 13) || (0x2000 ≤ c.toNat && c.toNat ≤ 0x200A) ||
    c.toNat ∈ [0x20, 0x85, 0xA0, 0x1680, 0x2028, 0x2029, 0x202F, 0x205F, 0x3000]

def trim (s : String) : String :=
  String.ofList ((s.toList.dropWhile isWhitespace).reverse.dropWhile isWhitespace).reverse

-- Keys and table names are compared as lower-cased characters.
abbrev CacheKey := List Char

structure QueryCacheEntry where
  columns : List String
  rows : List Row
  referencedTables : List (List Char)
  hitCount : Nat
  deriving DecidableEq

-- The counters are 64-bit in the source; 2^64 lookups are out of reach.
structure QueryCache where
  entries : AList fun _ : CacheKey => QueryCacheEntry
  lruOrder : List CacheKey
  maxEntries : Nat
  enabled : Bool
  statLookups : Nat
  statHits : Nat
  statMisses : Nat
  statInserts : Nat
  statInvalidations : Nat
  statEvictions : Nat

namespace QueryCache

def new (maxEntries : Nat) : QueryCache where
  entries := ∅
  lruOrder := []
  maxEntries := maxEntries
  enabled := true
  statLookups := 0
  statHits := 0
  statMisses := 0
  statInserts := 0
  statInvalidations := 0
  statEvictions := 0

def normalizeKey (sql : String) : CacheKey := toAsciiLowercase (trim sql)

def len (cache : QueryCache) : Nat := cache.entries.entries.length

def get (cache : QueryCache) (sql : String) : Option (List String × List Row) × QueryCache :=
  let key := normalizeKey sql
  match cache.entries.lookup key with
  | some entry =>
      (some (entry.columns, entry.rows),
        { cache with
          entries := cache.entries.insert key { entry with hitCount := entry.hitCount + 1 }
          lruOrder := cache.lruOrder.filter (fun k => k ≠ key) ++ [key]
          statLookups := cache.statLookups + 1
          statHits := cache.statHits + 1 })
  | none =>
      (none, { cache with
        statLookups := cache.statLookups + 1
        statMisses := cache.statMisses + 1 })

-- The eviction loop of `put`, over the LRU order.
def evict : List CacheKey → QueryCache → QueryCache
  | [], cache => { cache with lruOrder := [] }
  | oldest :: rest, cache =>
      if cache.maxEntries ≤ cache.len then
        evict rest { cache with
          entries := cache.entries.erase oldest
          statEvictions := cache.statEvictions + 1 }
      else { cache with lruOrder := oldest :: rest }

def put (cache : QueryCache) (sql : String) (referencedTables : List (List Char))
    (columns : List String) (rows : List Row) : QueryCache :=
  if !cache.enabled then cache
  else
    let key := normalizeKey sql
    let evicted := evict cache.lruOrder cache
    { evicted with
      lruOrder := evicted.lruOrder.filter (fun k => k ≠ key) ++ [key]
      entries := evicted.entries.insert key
        { columns := columns, rows := rows, referencedTables := referencedTables, hitCount := 0 }
      statInserts := evicted.statInserts + 1 }

def remove (cache : QueryCache) (key : CacheKey) : QueryCache :=
  { cache with
    entries := cache.entries.erase key
    lruOrder := cache.lruOrder.filter fun k => k ≠ key
    statInvalidations := cache.statInvalidations + 1 }

def invalidateTable (cache : QueryCache) (tableName : String) : QueryCache :=
  let tableLower := toAsciiLowercase tableName
  let keysToRemove :=
    (cache.entries.entries.filter fun e => tableLower ∈ e.2.referencedTables).map Sigma.fst
  keysToRemove.foldl remove cache

def clear (cache : QueryCache) : QueryCache :=
  { cache with entries := ∅, lruOrder := [] }

def setEnabled (cache : QueryCache) (enabled : Bool) : QueryCache :=
  let cache := { cache with enabled := enabled }
  if !enabled then cache.clear else cache

-- What a lookup of the key would serve, with the tables the entry is filed under.
def content (cache : QueryCache) (key : CacheKey) :
    Option (List String × List Row × List (List Char)) :=
  (cache.entries.lookup key).map fun e => (e.columns, e.rows, e.referencedTables)

section Lookup

variable {cache cache' : QueryCache} {key k : CacheKey}
variable {saved : List String × List Row × List (List Char)}

theorem get_fst (cache : QueryCache) (sql : String) :
    (cache.get sql).1 = (cache.content (normalizeKey sql)).map fun saved => (saved.1, saved.2.1) := by
  rw [get, content]
  cases cache.entries.lookup (normalizeKey sql) with
  | none => rfl
  | some entry => rfl

theorem content_get (cache : QueryCache) (sql : String) (key : CacheKey) :
    (cache.get sql).2.content key = cache.content key := by
  rw [get]
  cases hentry : cache.entries.lookup (normalizeKey sql) with
  | none => rfl
  | some entry =>
      by_cases hkey : key = normalizeKey sql
      · rw [hkey]
        simp [content, hentry]
      · simp [content, AList.lookup_insert_ne hkey]

theorem content_erase (hentries : cache'.entries = cache.entries.erase key)
    (h : cache'.content k = some saved) : cache.content k = some saved := by
  rw [content, hentries] at h
  by_cases hkey : k = key
  · subst hkey
    simp at h
  · rwa [AList.lookup_erase_ne hkey] at h

theorem content_evict (order : List CacheKey) (cache : QueryCache)
    (h : (evict order cache).content key = some saved) : cache.content key = some saved := by
  induction order generalizing cache with
  | nil => exact h
  | cons oldest rest ih =>
      rw [evict] at h
      split_ifs at h
      · exact content_erase rfl (ih _ h)
      · exact h

theorem content_put_self (cache : QueryCache) (sql : String) (tables : List (List Char))
    (columns : List String) (rows : List Row) (henabled : cache.enabled = true) :
    (cache.put sql tables columns rows).content (normalizeKey sql) =
      some (columns, rows, tables) := by
  simp [put, henabled, content]

theorem content_put_of_ne (cache : QueryCache) (sql : String) (tables : List (List Char))
    (columns : List String) (rows : List Row) (hkey : key ≠ normalizeKey sql)
    (h : (cache.put sql tables columns rows).content key = some saved) :
    cache.content key = some saved := by
  rw [put] at h
  split_ifs at h
  · exact h
  · apply content_evict cache.lruOrder cache
    simpa [content, AList.lookup_insert_ne hkey] using h

theorem content_removes (keys : List CacheKey) (cache : QueryCache)
    (h : (keys.foldl remove cache).content key = some saved) :
    cache.content key = some saved ∧ key ∉ keys := by
  induction keys generalizing cache with
  | nil => exact ⟨h, List.not_mem_nil⟩
  | cons k keys ih =>
      obtain ⟨hcontent, hnot⟩ := ih _ h
      have hne : key ≠ k := by
        rintro rfl
        simp [content, remove] at hcontent
      exact ⟨content_erase rfl hcontent, by simp [hne, hnot]⟩

theorem content_invalidateTable (cache : QueryCache) (tableName : String)
    (h : (cache.invalidateTable tableName).content key = some saved) :
    cache.content key = some saved ∧ toAsciiLowercase tableName ∉ saved.2.2 := by
  obtain ⟨hcontent, hnot⟩ := content_removes _ cache h
  refine ⟨hcontent, fun hmem => hnot ?_⟩
  obtain ⟨entry, hentry, rfl⟩ := Option.map_eq_some_iff.mp hcontent
  refine List.mem_map.mpr ⟨⟨key, entry⟩, List.mem_filter.mpr ⟨?_, by simpa using hmem⟩, rfl⟩
  exact AList.mem_lookup_iff.mp hentry

@[simp] theorem content_clear (cache : QueryCache) (key : CacheKey) :
    cache.clear.content key = none := by
  simp [content, clear]

theorem content_setEnabled (cache : QueryCache) (enabled : Bool)
    (h : (cache.setEnabled enabled).content key = some saved) :
    cache.content key = some saved := by
  cases enabled with
  | true => exact h
  | false => simp [setEnabled] at h

@[simp] theorem content_new (maxEntries : Nat) (key : CacheKey) :
    (new maxEntries).content key = none := by
  simp [content, new]

end Lookup

end QueryCache

end Kkdb
