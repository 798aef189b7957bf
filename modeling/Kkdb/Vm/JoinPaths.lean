import Kkdb.Lib.Join
import Kkdb.Lib.State
import Kkdb.Vm.Join

namespace Kkdb

open Lib

-- What a join means for a test on pairs of rows: the rows of the five join types.
def joined (joinType : JoinType) (p : Row → Row → Bool) (left right : Source) : List Row :=
  match joinType with
  | .Left => joinOn (fun l => [l ++ right.nulls]) (· ++ ·) p left.rows right.rows
  | .Right => joinOn (fun r => [left.nulls ++ r]) (fun r l => l ++ r) (fun r l => p l r) right.rows left.rows
  | .LeftSemi => semiJoin p left.rows right.rows
  | .RightSemi => semiJoin (fun r l => p l r) right.rows left.rows
  | _ => joinOn (fun _ => []) (· ++ ·) p left.rows right.rows

variable {fmt : RealText}

def cell (row : Row) (index : Nat) : Value := row.getD index .Null

def hasKey (fmt : RealText) (index : Nat) (key : List UInt8) (row : Row) : Bool :=
  cell row index ≠ .Null && typedKey fmt (cell row index) = key

def keyMatch (fmt : RealText) (i j : Nat) (a b : Row) : Bool :=
  cell a i ≠ .Null && hasKey fmt j (typedKey fmt (cell a i)) b

@[simp] theorem hasKey_iff {index : Nat} {key : List UInt8} {row : Row} :
    hasKey fmt index key row = true ↔ cell row index ≠ .Null ∧ typedKey fmt (cell row index) = key := by
  simp [hasKey]

theorem keyMatch_comm (i j : Nat) (a b : Row) : keyMatch fmt i j a b = keyMatch fmt j i b a := by
  rw [Bool.eq_iff_iff]
  simp only [keyMatch, Bool.and_eq_true, decide_eq_true_eq, hasKey_iff]
  constructor
  · rintro ⟨ha, hb, heq⟩
    exact ⟨hb, ha, heq.symm⟩
  · rintro ⟨hb, ha, heq⟩
    exact ⟨ha, hb, heq.symm⟩

theorem keyAt_ok {row : Row} {index : Nat} (h : index < row.length) :
    keyAt row index = .ok (cell row index) := by
  rw [keyAt, cell, List.getElem?_eq_getElem h, List.getD_eq_getElem _ _ h]

theorem keyAt_panic {row : Row} {index : Nat} (h : row.length ≤ index) :
    keyAt row index = .error .Panic := by
  rw [keyAt, List.getElem?_eq_none h]

section Hashing

variable {β : Type} {add : Option β → Nat → β} {index : Nat} {rows : List Row}

def addRow (fmt : RealText) (add : Option β → Nat → β) (index : Nat) (hash : List (List UInt8 × β))
    (item : Row × Nat) : Res (List (List UInt8 × β)) := do
  let v ← keyAt item.1 index
  if v = .Null then return hash
  return put (typedKey fmt v) (add (hash.lookup (typedKey fmt v)) item.2) hash

variable (fmt add) in
theorem addRow_ok {item : Row × Nat} (h : index < item.1.length) (hash : List (List UInt8 × β)) :
    ∃ hash', addRow fmt add index hash item = .ok hash' ∧ ∀ key, hash'.lookup key =
      if hasKey fmt index key item.1 then some (add (hash.lookup key) item.2) else hash.lookup key := by
  rw [addRow, keyAt_ok h]
  by_cases hnull : cell item.1 index = .Null
  · refine ⟨hash, by simp only [hnull]; rfl, ?_⟩
    intro key
    rw [hasKey, hnull]
    rfl
  · refine ⟨put (typedKey fmt (cell item.1 index))
      (add (hash.lookup (typedKey fmt (cell item.1 index))) item.2) hash, ?_, ?_⟩
    · simp only [bind, Except.bind, if_neg hnull]
      rfl
    · intro key
      rw [lookup_put]
      by_cases hkey : key = typedKey fmt (cell item.1 index)
      · subst hkey
        rw [if_pos rfl, if_pos (hasKey_iff.mpr ⟨hnull, rfl⟩)]
      · rw [if_neg hkey, if_neg fun h => hkey (hasKey_iff.mp h).2.symm]

variable (fmt add) in
theorem foldlM_addRow {items : List (Row × Nat)} (h : ∀ item ∈ items, index < item.1.length)
    (hash : List (List UInt8 × β)) :
    ∃ hash', items.foldlM (addRow fmt add index) hash = .ok hash' ∧ ∀ key, hash'.lookup key =
      (items.filter fun item => hasKey fmt index key item.1).foldl (fun e item => some (add e item.2))
        (hash.lookup key) := by
  induction items generalizing hash with
  | nil => exact ⟨hash, rfl, fun _ => rfl⟩
  | cons item items ih =>
      obtain ⟨hash₁, hrun₁, hlookup₁⟩ := addRow_ok fmt add (h item List.mem_cons_self) hash
      obtain ⟨hash₂, hrun₂, hlookup₂⟩ := ih (fun i hi => h i (List.mem_cons_of_mem item hi)) hash₁
      refine ⟨hash₂, ?_, ?_⟩
      · rw [List.foldlM_cons, hrun₁]
        exact hrun₂
      · intro key
        rw [hlookup₂, hlookup₁, List.filter_cons]
        split_ifs <;> rfl

theorem foldlM_addRow_panic {items : List (Row × Nat)} (h : ∃ item ∈ items, item.1.length ≤ index)
    (hash : List (List UInt8 × β)) : items.foldlM (addRow fmt add index) hash = .error .Panic := by
  induction items generalizing hash with
  | nil => simp at h
  | cons item items ih =>
      rw [List.foldlM_cons]
      by_cases hshort : item.1.length ≤ index
      · rw [addRow, keyAt_panic hshort]
        rfl
      · obtain ⟨hash', hrun, -⟩ := addRow_ok fmt add (not_le.mp hshort) hash
        rw [hrun]
        apply ih
        obtain ⟨item', hmem, hlen⟩ := h
        rcases List.mem_cons.mp hmem with rfl | hmem
        · exact absurd hlen hshort
        · exact ⟨item', hmem, hlen⟩

def keyed (fmt : RealText) (index : Nat) (key : List UInt8) (rows : List Row) : List Nat :=
  (rows.zipIdx.filter fun item => hasKey fmt index key item.1).map (·.2)

variable (fmt add) in
theorem hashRows_ok (h : ∀ row ∈ rows, index < row.length) :
    ∃ hash, hashRows fmt add index rows = .ok hash ∧ ∀ key, hash.lookup key =
      (keyed fmt index key rows).foldl (fun e i => some (add e i)) none := by
  have hitems : ∀ item ∈ rows.zipIdx, index < item.1.length := by
    intro item hitem
    exact h item.1 (List.fst_mem_of_mem_zipIdx hitem)
  obtain ⟨hash, hrun, hlookup⟩ := foldlM_addRow fmt add hitems []
  refine ⟨hash, hrun, fun key => ?_⟩
  rw [hlookup, keyed, List.foldl_map]
  rfl

theorem hashRows_panic (h : ∃ row ∈ rows, row.length ≤ index) :
    hashRows fmt add index rows = .error .Panic := by
  apply foldlM_addRow_panic
  obtain ⟨row, hrow, hlen⟩ := h
  obtain ⟨i, hi, rfl⟩ := List.mem_iff_getElem.mp hrow
  exact ⟨(rows[i], i), List.mem_zipIdx_iff_getElem?.mpr (List.getElem?_eq_getElem hi), hlen⟩

theorem foldl_addIndex (indices : List Nat) :
    indices.foldl (fun e i => some (addIndex e i)) none = if indices = [] then none else some indices := by
  have hfrom : ∀ (indices found : List Nat),
      indices.foldl (fun e i => some (addIndex e i)) (some found) = some (found ++ indices) := by
    intro indices
    induction indices with
    | nil => simp
    | cons i indices ih =>
        intro found
        rw [List.foldl_cons, addIndex, ih]
        simp
  cases indices with
  | nil => rfl
  | cons i indices =>
      rw [List.foldl_cons, addIndex, hfrom]
      simp

variable (add) in
theorem isSome_foldl (indices : List Nat) :
    (indices.foldl (fun e i => some (add e i)) none).isSome = !indices.isEmpty := by
  have hfrom : ∀ (indices : List Nat) (e : β),
      (indices.foldl (fun e i => some (add e i)) (some e)).isSome = true := by
    intro indices
    induction indices with
    | nil => simp
    | cons i indices ih => exact fun e => ih _
  cases indices with
  | nil => rfl
  | cons i indices => exact hfrom indices _

variable (fmt index rows) in
theorem map_keyed {γ : Type} (key : List UInt8) (f : Row → γ) :
    (keyed fmt index key rows).map (fun i => f (rows.getD i [])) =
      (rows.filter (hasKey fmt index key)).map f := by
  have hitem : ∀ item ∈ rows.zipIdx, f (rows.getD item.2 []) = f item.1 := by
    intro item hitem
    rw [List.mem_zipIdx_iff_getElem?] at hitem
    rw [List.getD_eq_getElem?_getD, hitem, Option.getD_some]
  have hrows : rows.zipIdx.map (·.1) = rows := List.zipIdx_map_fst 0 rows
  rw [keyed, List.map_map]
  calc _ = (rows.zipIdx.filter fun item => hasKey fmt index key item.1).map (f ·.1) :=
        List.map_congr_left fun item hmem => hitem item (List.mem_of_mem_filter hmem)
    _ = ((rows.zipIdx.map (·.1)).filter (hasKey fmt index key)).map f := by
        rw [List.filter_map, List.map_map]
        rfl
    _ = _ := by rw [hrows]

theorem keyed_eq_nil_iff (key : List UInt8) :
    keyed fmt index key rows = [] ↔ rows.any (hasKey fmt index key) = false := by
  have hmap := map_keyed fmt index rows key id
  rw [List.map_id] at hmap
  have hnil : keyed fmt index key rows = [] ↔ rows.filter (hasKey fmt index key) = [] := by
    rw [← hmap, List.map_eq_nil_iff]
  rw [hnil, List.filter_eq_nil_iff, List.any_eq_false]

end Hashing

section Probing

variable {i j : Nat} {as bs : List Row}

-- Every row reaches the key column.
def Reaches (index : Nat) (rows : List Row) : Prop := ∀ row ∈ rows, index < row.length

theorem any_keyMatch_null {a : Row} (h : cell a i = .Null) : bs.any (keyMatch fmt i j a) = false := by
  simp [keyMatch, h]

variable (fmt j) in
theorem keyMatch_eq {a : Row} (h : cell a i ≠ .Null) :
    keyMatch fmt i j a = hasKey fmt j (typedKey fmt (cell a i)) := by
  funext b
  simp [keyMatch, h]

theorem probeRow_ok {hash : List (List UInt8 × List Nat)} (combine : Row → Row) (pad : List Row) {a : Row}
    (ha : i < a.length) (hhash : ∀ key, hash.lookup key =
      (keyed fmt j key bs).foldl (fun e i => some (addIndex e i)) none) :
    probeRow fmt hash i (fun k => combine (bs.getD k [])) pad a = .ok
      (if bs.any (keyMatch fmt i j a) then (bs.filter (keyMatch fmt i j a)).map combine else pad) := by
  rw [probeRow, keyAt_ok ha]
  by_cases hnull : cell a i = .Null
  · rw [any_keyMatch_null hnull]
    simp only [bind, Except.bind, hnull, if_true]
    rfl
  · have hkey := keyMatch_eq fmt j hnull
    have hrows := map_keyed fmt j bs (typedKey fmt (cell a i)) combine
    simp only [bind, Except.bind, if_neg hnull, hhash, foldl_addIndex, hkey]
    by_cases hnil : keyed fmt j (typedKey fmt (cell a i)) bs = []
    · rw [if_pos hnil, (keyed_eq_nil_iff _).mp hnil]
      rfl
    · have hany : bs.any (hasKey fmt j (typedKey fmt (cell a i))) = true := by
        rw [keyed_eq_nil_iff, Bool.not_eq_false] at hnil
        exact hnil
      rw [if_neg hnil, if_pos hany, ← hrows]
      rfl

theorem probeAll_ok (has : Reaches i as) (hbs : Reaches j bs) (combine : Row → Row → Row)
    (pad : Row → List Row) :
    (do
      let hash ← hashRows fmt addIndex j bs
      let found ← as.mapM fun a => probeRow fmt hash i (fun k => combine a (bs.getD k [])) (pad a) a
      return found.flatten) = Except.ok (joinOn pad combine (keyMatch fmt i j) as bs) := by
  obtain ⟨hash, hrun, hhash⟩ := hashRows_ok fmt addIndex hbs
  rw [hrun]
  simp only [bind, Except.bind]
  rw [mapM_ok fun a ha => probeRow_ok (combine a) (pad a) (has a ha) hhash]
  rfl

theorem probeSemi_ok {hash : List (List UInt8 × Unit)} {a : Row} (ha : i < a.length)
    (hhash : ∀ key, hash.lookup key =
      (keyed fmt j key bs).foldl (fun e i => some ((fun _ _ => ()) e i)) none) :
    probeSemi fmt hash i a = .ok (if bs.any (keyMatch fmt i j a) then [a] else []) := by
  rw [probeSemi, keyAt_ok ha]
  by_cases hnull : cell a i = .Null
  · rw [any_keyMatch_null hnull]
    simp only [bind, Except.bind, hnull, if_true]
    rfl
  · have hkey := keyMatch_eq fmt j hnull
    have hsome := isSome_foldl (fun (_ : Option Unit) _ => ()) (keyed fmt j (typedKey fmt (cell a i)) bs)
    simp only [bind, Except.bind, if_neg hnull, hhash, hkey]
    rw [hsome]
    by_cases hnil : keyed fmt j (typedKey fmt (cell a i)) bs = []
    · rw [hnil, (keyed_eq_nil_iff _).mp hnil]
      rfl
    · have hany : bs.any (hasKey fmt j (typedKey fmt (cell a i))) = true := by
        rw [keyed_eq_nil_iff, Bool.not_eq_false] at hnil
        exact hnil
      rw [hany, List.isEmpty_eq_false_iff.mpr hnil]
      rfl

theorem flatten_map_ite (q : Row → Bool) :
    (as.map fun a => if q a then [a] else []).flatten = as.filter q := by
  induction as with
  | nil => rfl
  | cons a as ih =>
      rw [List.map_cons, List.flatten_cons, ih, List.filter_cons]
      split_ifs <;> rfl

theorem probeSemiAll_ok (has : Reaches i as) (hbs : Reaches j bs) :
    (do
      let hash ← hashRows fmt (fun _ _ => ()) j bs
      let found ← as.mapM (probeSemi fmt hash i)
      return found.flatten) = Except.ok (semiJoin (keyMatch fmt i j) as bs) := by
  obtain ⟨hash, hrun, hhash⟩ := hashRows_ok fmt (fun (_ : Option Unit) _ => ()) hbs
  rw [hrun]
  simp only [bind, Except.bind]
  rw [mapM_ok fun a ha => probeSemi_ok (has a ha) hhash]
  exact congrArg Except.ok (flatten_map_ite _)

theorem probeAll_panic {β : Type} {add : Option β → Nat → β}
    {probe : List (List UInt8 × β) → Row → Res (List Row)}
    (hprobe : ∀ hash a, a.length ≤ i → probe hash a = .error .Panic)
    (hread : ∀ hash a, i < a.length → ∃ rows, probe hash a = .ok rows)
    (h : ¬(Reaches i as ∧ Reaches j bs)) :
    (do
      let hash ← hashRows fmt add j bs
      let found ← as.mapM (probe hash)
      return found.flatten) = Except.error Fault.Panic := by
  by_cases hbs : Reaches j bs
  · have has : ¬Reaches i as := fun has => h ⟨has, hbs⟩
    simp only [Reaches, not_forall, not_lt] at has
    obtain ⟨a, ha, hshort⟩ := has
    obtain ⟨hash, hrun, -⟩ := hashRows_ok fmt add hbs
    have hmap : as.mapM (probe hash) = .error .Panic := by
      refine mapM_error ⟨a, ha, hprobe hash a hshort⟩ fun a' _ => ?_
      rcases Nat.lt_or_ge i a'.length with hlt | hge
      · exact .inr (hread hash a' hlt)
      · exact .inl (hprobe hash a' hge)
    rw [hrun]
    simp only [bind, Except.bind, hmap]
  · simp only [Reaches, not_forall, not_lt] at hbs
    obtain ⟨b, hb, hshort⟩ := hbs
    rw [hashRows_panic ⟨b, hb, hshort⟩]
    rfl

theorem probeRow_panic (hash : List (List UInt8 × List Nat)) (combine : Nat → Row) (pad : List Row) {a : Row}
    (h : a.length ≤ i) : probeRow fmt hash i combine pad a = .error .Panic := by
  rw [probeRow, keyAt_panic h]
  rfl

theorem probeRow_reads (hash : List (List UInt8 × List Nat)) (combine : Nat → Row) (pad : List Row) {a : Row}
    (h : i < a.length) : ∃ rows, probeRow fmt hash i combine pad a = .ok rows := by
  rw [probeRow, keyAt_ok h]
  simp only [bind, Except.bind]
  split_ifs
  · exact ⟨_, rfl⟩
  · split <;> exact ⟨_, rfl⟩

theorem probeSemi_panic (hash : List (List UInt8 × Unit)) {a : Row} (h : a.length ≤ i) :
    probeSemi fmt hash i a = .error .Panic := by
  rw [probeSemi, keyAt_panic h]
  rfl

theorem probeSemi_reads (hash : List (List UInt8 × Unit)) {a : Row} (h : i < a.length) :
    ∃ rows, probeSemi fmt hash i a = .ok rows := by
  rw [probeSemi, keyAt_ok h]
  simp only [bind, Except.bind]
  split_ifs <;> exact ⟨_, rfl⟩

end Probing

section Paths

variable {joinType : JoinType} {left right : Source} {leftIndex rightIndex : Nat}

theorem hashJoin_ok (hleft : Reaches leftIndex left.rows) (hright : Reaches rightIndex right.rows) :
    hashJoin fmt joinType left right leftIndex rightIndex =
      .ok (joined joinType (keyMatch fmt leftIndex rightIndex) left right) := by
  have hcomm : (fun r l => keyMatch fmt leftIndex rightIndex l r) = keyMatch fmt rightIndex leftIndex := by
    funext r l
    exact keyMatch_comm leftIndex rightIndex l r
  cases joinType
  case Left => exact probeAll_ok hleft hright (· ++ ·) fun l => [l ++ right.nulls]
  case Right =>
    rw [joined, hcomm]
    exact probeAll_ok hright hleft (fun r l => l ++ r) fun r => [left.nulls ++ r]
  case LeftSemi => exact probeSemiAll_ok hleft hright
  case RightSemi =>
    rw [joined, hcomm]
    exact probeSemiAll_ok hright hleft
  all_goals exact probeAll_ok hleft hright (· ++ ·) fun _ => []

theorem hashJoin_panic (h : ¬(Reaches leftIndex left.rows ∧ Reaches rightIndex right.rows)) :
    hashJoin fmt joinType left right leftIndex rightIndex = .error .Panic := by
  cases joinType
  case Right =>
    exact probeAll_panic (fun _ _ hlen => probeRow_panic _ _ _ hlen)
      (fun _ _ hlen => probeRow_reads _ _ _ hlen) (fun h' => h h'.symm)
  case LeftSemi => exact probeAll_panic (fun _ _ => probeSemi_panic _) (fun _ _ => probeSemi_reads _) h
  case RightSemi =>
    exact probeAll_panic (fun _ _ => probeSemi_panic _) (fun _ _ => probeSemi_reads _) fun h' => h h'.symm
  all_goals
    exact probeAll_panic (fun _ _ hlen => probeRow_panic _ _ _ hlen)
      (fun _ _ hlen => probeRow_reads _ _ _ hlen) h

end Paths

end Kkdb
