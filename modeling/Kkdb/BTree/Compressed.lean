import Kkdb.BTree.OverflowChain
import Kkdb.BTree.Stored
import Kkdb.Types.Prefix

namespace Kkdb

open Lib

namespace BTree

open Pager (Steady KeepsSteady)

def splitMessage : String :=
  "page split occurred during prefix-compressed insert; compressed index may be corrupt — rebuild the index"

section Functions

variable [Lz4Flex]

-- A split of the root is still put below a new root, and then reported.
def insertCompressed (root : Nat) (rowid : Int64) (row : Row) (prevKey : List UInt8) :
    PagerM (Nat × List UInt8) := do
  let (payload, newPrev) := serializeIndexRowCompressed row prevKey
  let fuel ← depthLimit
  match ← insertIntoPage rowid payload fuel root with
  | .Done => return (root, newPrev)
  | .Split dividerKey newPage => do
      let newRoot ← Pager.allocatePage
      initInteriorPage newRoot newPage
      insertInteriorCell newRoot dividerKey root
      throw (.Err (.BTreeError splitMessage))

-- The cells of one leaf, each read relative to the key of the one before it.
def scanCellsCompressed (data : PageData) : List Nat → List UInt8 → List (Int64 × Row) →
    PagerM (List (Int64 × Row))
  | [], _, acc => return acc
  | i :: is, prevKey, acc => do
      let off ← ofRes (cellOffset LEAF_HEADER_SIZE (some 12) data i)
      let rawSize ← ofRes (readU32 data off)
      let rowid ← ofRes (readRowid data (off + 4))
      let payload ← readCellPayload rawSize (off + 12) data
      let (row, newPrev) ← ofRes (deserializeIndexRowWithPrefix payload prevKey)
      scanCellsCompressed data is newPrev (acc ++ [(rowid, row)])

-- Every leaf starts with no key to be relative to.
def scanLeavesCompressed : Nat → Nat → List (Int64 × Row) → PagerM (List (Int64 × Row))
  | 0, _, _ => throw .Hang
  | fuel + 1, cur, acc =>
      if cur = 0 then return acc
      else do
        let pg ← Pager.getPage cur
        let acc ← scanCellsCompressed pg.data (List.range (cellCount pg.data)) [] acc
        scanLeavesCompressed fuel (nextLeaf pg.data) acc

def scanAllCompressed (root : Nat) : PagerM (List (Int64 × Row)) := do
  let first ← findLeftmostLeaf root
  let s ← get
  scanLeavesCompressed (s.header.totalPages + 1) first []

def insertAllCompressed : List (Int64 × Row) → Nat → List UInt8 → PagerM (Nat × List UInt8)
  | [], root, prevKey => return (root, prevKey)
  | (rowid, row) :: rest, root, prevKey => do
      let (root, prevKey) ← insertCompressed root rowid row prevKey
      insertAllCompressed rest root prevKey

def buildCompressed (entries : List (Int64 × Row)) : PagerM Nat := do
  let root ← createTable
  let (root, _) ← insertAllCompressed entries root []
  return root

end Functions

section Split

variable [Lz4Flex] {page : Nat} {rowid : Int64} {cell : List UInt8} {r : InsertResult} {s s' : Pager}

theorem splitLeaf_ne_done (hrun : splitLeaf page rowid cell s = .ok r s') : r ≠ .Done := by
  rw [splitLeaf] at hrun
  obtain ⟨oldNext, s₁, -, hrun⟩ := ok_of_bind_state hrun
  obtain ⟨oldPrev, s₂, -, hrun⟩ := ok_of_bind_state hrun
  obtain ⟨pg, s₃, -, hrun⟩ := ok_of_bind_state hrun
  obtain ⟨old, s₄, -, hrun⟩ := ok_of_bind_state hrun
  dsimp only at hrun
  generalize (List.insertIdx old _ _)[splitAt _ _]? = middle at hrun
  cases middle with
  | none => cases hrun
  | some middle =>
      obtain ⟨_, s₅, -, hrun⟩ := ok_of_bind_state hrun
      obtain ⟨_, s₆, -, hrun⟩ := ok_of_bind_state hrun
      obtain ⟨right, s₇, -, hrun⟩ := ok_of_bind_state hrun
      obtain ⟨_, s₈, -, hrun⟩ := ok_of_bind_state hrun
      obtain ⟨_, s₉, -, hrun⟩ := ok_of_bind_state hrun
      obtain ⟨_, s₁₀, -, hrun⟩ := ok_of_bind_state hrun
      obtain ⟨_, s₁₁, -, hrun⟩ := ok_of_bind_state hrun
      obtain ⟨_, s₁₂, -, hrun⟩ := ok_of_bind_state hrun
      obtain ⟨_, s₁₃, -, hrun⟩ := ok_of_bind_state hrun
      split_ifs at hrun
      · obtain ⟨_, s₁₄, -, hrun⟩ := ok_of_bind_state hrun
        cases hrun
        exact fun h => by cases h
      · cases hrun
        exact fun h => by cases h

end Split

structure Single [Lz4Flex] (base root : Nat) (cells : List Cell) (σ : Pager.Space) (H : Heap) (s : Pager) :
    Prop where
  accounts : Accounts base σ H s
  steady : Steady base s root
  leaf : ∃ d lo, H root = some d ∧ LeafAt d cells lo 0 0
  stored : ∀ c ∈ cells, c.Stored H
  apart : ∀ c ∈ cells, root ∉ c.chain

section Append

variable [Lz4Flex] {base root lo : Nat} {cells : List Cell} {σ : Pager.Space} {H : Heap} {s s' : Pager}
  {d : PageData} {rowid : Int64} {payload : List UInt8} {c : Cell}

theorem Single.append (h : Single base root cells σ H s) (hp : H root = some d) (hleaf : LeafAt d cells lo 0 0)
    (hstored : c.Stored H) (hapart : root ∉ c.chain) (hlast : ∀ x ∈ cells, x.rowid.toInt < c.rowid.toInt)
    (hfit : cellLen c.payload + 2 ≤ available LEAF_HEADER_SIZE d) :
    Yields (insertCellIntoLeaf root c.rowid c.bytes) s fun _ s' => ∃ H', Single base root
      (cells ++ [c]) σ H' s' := by
  rw [hleaf.room] at hfit
  have hlen := c.length_bytes
  rw [← List.append_nil cells] at hleaf
  obtain ⟨d', hindex, hplace, h'⟩ := hleaf.place hlast (by simp) (by rw [List.append_nil]; omega)
  have hsafe := h.steady.safe h.accounts.space.sys.coherent (by have := (h.accounts.range hp).1; omega)
    (h.accounts.range hp).2
  refine (modifyPage_accounts () d' h.accounts hp hsafe ?_).mono fun _ s' hq => ?_
  · simp only [hindex, hplace]
    rfl
  · obtain ⟨-, haccounts, hsteady, -, -⟩ := hq
    have hsame : ∀ x : Cell, root ∉ x.chain → x.Stored H → x.Stored (Function.update H root (some d')) :=
      fun x hx hst => hst.frame fun q hq => Function.update_of_ne (ne_of_mem_of_not_mem hq hx) _ _
    refine ⟨_, haccounts, hsteady, ⟨d', _, Function.update_self _ _ _, h'⟩, fun x hx => ?_, fun x hx => ?_⟩
    · rcases List.mem_append.mp hx with hx | hx
      · exact hsame x (h.apart x hx) (h.stored x hx)
      · rw [List.mem_singleton.mp hx]
        exact hsame c hapart hstored
    · rcases List.mem_append.mp hx with hx | hx
      · exact h.apart x hx
      · rw [List.mem_singleton.mp hx]
        exact hapart

theorem Single.grown {H' : Heap} {σ' : Pager.Space} {ps : List Nat} (h : Single base root cells σ H s)
    (haccounts : Accounts base σ' H' s') (hkeeps : KeepsSteady base s s') (hfresh : ∀ q ∈ ps, H q = none)
    (hsame : ∀ q, q ∉ ps → H' q = H q) : Single base root cells σ' H' s' ∧ H' root = H root ∧ root ∉ ps := by
  obtain ⟨d, lo, hp, hleaf⟩ := h.leaf
  have howned : ∀ q d, H q = some d → q ∉ ps := fun q d hq hmem => by
    rw [hfresh q hmem] at hq
    cases hq
  have hroot := hsame root (howned root d hp)
  have hpos : 0 < root := Nat.zero_lt_of_lt (h.accounts.range hp).1
  refine ⟨⟨haccounts, hkeeps root hpos h.steady, ⟨d, lo, hroot.trans hp, hleaf⟩, fun c hc => ?_,
    h.apart⟩, hroot,
    howned root d hp⟩
  refine (h.stored c hc).frame fun q hq => ?_
  obtain ⟨dq, hdq⟩ := (h.stored c hc).owned q hq
  exact hsame q (howned q dq hdq)

-- An insert that the leaf has room for adds a row, and any other is reported as a split or fails.
theorem insertIntoLeaf_single (h : Single base root cells σ H s) (hp : H root = some d)
    (hleaf : LeafAt d cells lo 0 0) (hlast : ∀ x ∈ cells, x.rowid.toInt < rowid.toInt)
    (hshort : payload.length ≤ U32_MAX) (hrun : insertIntoLeaf root d rowid payload s = .ok .Done s') :
    ∃ σ' H' c, Single base root (cells ++ [c]) σ' H' s' ∧ c.rowid = rowid ∧ c.payload = payload := by
  unfold insertIntoLeaf at hrun
  by_cases hfit : cellLen payload + 2 ≤ available LEAF_HEADER_SIZE d
  · rw [if_pos hfit] at hrun
    cases hover : needsOverflow payload with
    | true =>
        rw [if_pos hover] at hrun
        obtain ⟨first, s₁, hwrite, hrun⟩ := ok_of_bind_state hrun
        have hlong : MAX_INLINE_PAYLOAD < payload.length := by simpa [needsOverflow] using hover
        obtain ⟨H₁, σ₁, ps, hlinks, hnodup, hhead, hfresh, hsame, -, hkeeps, h₁⟩ :=
          (writeOverflowChain_accounts h.accounts (ne_nil_of_long hlong)).ok hwrite
        obtain ⟨hsingle, hroot, hapart⟩ := h.grown h₁ hkeeps hfresh hsame
        have hfirst : ps.headD 0 = first := by rw [List.headD_eq_head?_getD, hhead, Option.getD_some]
        have hstored : Cell.Stored H₁ ⟨rowid, payload, ps⟩ := ⟨hshort, by
          simp only [hover, if_true, hfirst]
          exact ⟨hlinks, hnodup⟩⟩
        have hbytes : Cell.bytes ⟨rowid, payload, ps⟩ = makeOverflowCell rowid payload.length first := by
          rw [Cell.bytes, if_pos hover, hfirst]
        have happend := hsingle.append (hroot.trans hp) hleaf hstored hapart hlast hfit
        rw [hbytes] at happend
        obtain ⟨_, s₂, hinsert, hrun⟩ := ok_of_bind_state hrun
        obtain ⟨H', h'⟩ := happend.ok hinsert
        cases hrun
        exact ⟨σ₁, H', _, h', rfl, rfl⟩
    | false =>
        rw [hover, if_neg Bool.false_ne_true] at hrun
        have hstored : Cell.Stored H ⟨rowid, payload, []⟩ := ⟨hshort, by simp [hover]⟩
        have hbytes : Cell.bytes ⟨rowid, payload, []⟩ = makeLeafCell rowid payload := by
          rw [Cell.bytes, hover, if_neg Bool.false_ne_true]
        have happend := h.append hp hleaf hstored List.not_mem_nil hlast hfit
        rw [hbytes] at happend
        obtain ⟨_, s₁, hinsert, hrun⟩ := ok_of_bind_state hrun
        obtain ⟨H', h'⟩ := happend.ok hinsert
        cases hrun
        exact ⟨σ, H', _, h', rfl, rfl⟩
  · rw [if_neg hfit] at hrun
    split_ifs at hrun
    · obtain ⟨first, s₁, -, hrun⟩ := ok_of_bind_state hrun
      exact absurd rfl (splitLeaf_ne_done hrun)
    · exact absurd rfl (splitLeaf_ne_done hrun)

theorem Single.frame (h : Single base root cells σ H s) (haccounts : Accounts base σ H s')
    (hkeeps : KeepsSteady base s s') : Single base root cells σ H s' := by
  obtain ⟨d, lo, hp, hleaf⟩ := h.leaf
  exact ⟨haccounts, hkeeps root (Nat.zero_lt_of_lt (h.accounts.range hp).1) h.steady, h.leaf, h.stored, h.apart⟩

theorem insertCompressed_single {row : Row} {prevKey : List UInt8} {r : Nat × List UInt8}
    (h : Single base root cells σ H s) (hlast : ∀ x ∈ cells, x.rowid.toInt < rowid.toInt)
    (hrun : insertCompressed root rowid row prevKey s = .ok r s') :
    r = (root, (serializeIndexRowCompressed row prevKey).2) ∧ ∃ σ' H' c, Single base root
      (cells ++ [c]) σ' H' s' ∧
      c.rowid = rowid ∧ c.payload = (serializeIndexRowCompressed row prevKey).1 := by
  rw [insertCompressed] at hrun
  obtain ⟨fuel, s₁, hfuel, hrun⟩ := ok_of_bind_state hrun
  obtain ⟨result, s₂, hinsert, hrun⟩ := ok_of_bind_state hrun
  obtain ⟨rfl, rfl⟩ := depthLimit_yields.ok hfuel
  cases result with
  | Split dividerKey newPage =>
      obtain ⟨newRoot, s₃, -, hrun⟩ := ok_of_bind_state hrun
      obtain ⟨_, s₄, -, hrun⟩ := ok_of_bind_state hrun
      obtain ⟨_, s₅, -, hrun⟩ := ok_of_bind_state hrun
      cases hrun
  | Done =>
      cases hrun
      refine ⟨rfl, ?_⟩
      obtain ⟨d, lo, hp, hleaf⟩ := h.leaf
      rw [insertIntoPage] at hinsert
      split_ifs at hinsert with hlong
      · cases hinsert
      obtain ⟨pg, s₃, hget, hinsert⟩ := ok_of_bind_state hinsert
      obtain ⟨hdata, h₃, -, hkeeps, -⟩ := (getPage_accounts h.accounts hp).ok hget
      rw [hdata, hleaf.laid.type, if_pos rfl] at hinsert
      exact insertIntoLeaf_single (h.frame h₃ hkeeps) hp hleaf hlast (Nat.le_of_not_lt hlong) hinsert

end Append

def Encodes (key : List UInt8) (entries : List (Int64 × Row)) (cells : List Cell) : Prop :=
  cells.map Cell.rowid = entries.map Prod.fst ∧
    cells.map Cell.payload = encodePage ⟨key⟩ (entries.map Prod.snd)

section Build

variable [Lz4Flex] {base root : Nat} {cells : List Cell} {σ : Pager.Space} {H : Heap} {s s' : Pager}
  {key : List UInt8}

theorem insertAllCompressed_single (entries : List (Int64 × Row)) {r : Nat × List UInt8}
    (h : Single base root cells σ H s)
    (hlast : ∀ x ∈ cells, ∀ e ∈ entries, x.rowid.toInt < e.1.toInt)
    (hsorted : entries.Pairwise fun e e' => e.1.toInt < e'.1.toInt)
    (hrun : insertAllCompressed entries root key s = .ok r s') :
    r.1 = root ∧ ∃ σ' H' more, Single base root (cells ++ more) σ' H' s' ∧ Encodes key entries more := by
  induction entries generalizing cells key σ H s with
  | nil =>
      cases hrun
      exact ⟨rfl, σ, H, [], by rw [List.append_nil]; exact h, rfl, rfl⟩
  | cons e entries ih =>
      obtain ⟨rowid, row⟩ := e
      obtain ⟨hhead, htail⟩ := List.pairwise_cons.mp hsorted
      rw [insertAllCompressed] at hrun
      obtain ⟨r₁, s₁, hinsert, hrun⟩ := ok_of_bind_state hrun
      obtain ⟨rfl, σ₁, H₁, c, h₁, hrowid, hpayload⟩ :=
        insertCompressed_single h (fun x hx => hlast x hx _ List.mem_cons_self) hinsert
      have hlast₁ : ∀ x ∈ cells ++ [c], ∀ e ∈ entries, x.rowid.toInt < e.1.toInt := by
        intro x hx e he
        rcases List.mem_append.mp hx with hx | hx
        · exact hlast x hx e (List.mem_cons_of_mem _ he)
        · rw [List.mem_singleton.mp hx, hrowid]
          exact hhead e he
      obtain ⟨hroot, σ', H', more, h', hrowids, hpayloads⟩ := ih h₁ hlast₁ htail hrun
      refine ⟨hroot, σ', H', c :: more, by rw [List.append_cons]; exact h', ?_, ?_⟩
      · rw [List.map_cons, List.map_cons, hrowid, hrowids]
      · rw [List.map_cons, List.map_cons, hpayload, hpayloads]
        rfl

theorem createTable_single {r : Nat} (h : Pager.SpaceInv base (s, σ)) (hrun : createTable s = .ok r s') :
    ∃ σ' H', Single base r [] σ' H' s' := by
  rw [createTable] at hrun
  obtain ⟨page, s₁, hnew, hrun⟩ := ok_of_bind_state hrun
  obtain ⟨_, s₂, hinit, hrun⟩ := ok_of_bind_state hrun
  obtain ⟨rfl, rfl⟩ := EStateM.Result.ok.inj hrun
  obtain ⟨-, ⟨d, h₁⟩, hsteady, -, -, -, -⟩ := (allocatePage_accounts (accounts_heapOf h)).ok hnew
  have hp : Function.update (heapOf σ s) page (some d) page = some d := Function.update_self ..
  have hsafe := hsteady.safe h₁.space.sys.coherent (by have := (h₁.range hp).1; omega) (h₁.range hp).2
  obtain ⟨h₂, hsteady₂, -, -⟩ := (writePage_accounts _ h₁ hp hsafe).ok hinit
  exact ⟨_, _, h₂, hsteady₂, ⟨_, _, Function.update_self _ _ _, leafAt_fresh d⟩, fun c hc =>
    absurd hc List.not_mem_nil,
    fun c hc => absurd hc List.not_mem_nil⟩

end Build

section Decode

variable {data key next : List UInt8} {rest : List (List UInt8)} {row : Row} {e : Fault}

theorem decodePage_error (h : deserializeIndexRowWithPrefix data key = .error e) :
    decodePage ⟨key⟩ (data :: rest) = .error e := by
  rw [decodePage, PrefixPageDecoder.decode, h]
  rfl

theorem decodePage_ok (h : deserializeIndexRowWithPrefix data key = .ok (row, next)) :
    decodePage ⟨key⟩ (data :: rest) = (decodePage ⟨next⟩ rest).map (row :: ·) := by
  rw [decodePage, PrefixPageDecoder.decode, h]
  show (decodePage ⟨next⟩ rest >>= fun rows => .ok (row :: rows)) = _
  cases decodePage ⟨next⟩ rest <;> rfl

end Decode

section Scan

variable [Lz4Flex] {base root lo : Nat} {cells rest : List Cell} {σ : Pager.Space} {H : Heap} {s : Pager}
  {d : PageData}

theorem scanCellsCompressed_ends (h : Accounts base σ H s) (hleaf : LeafAt d cells lo 0 0)
    (hstored : ∀ c ∈ rest, c.Stored H) (is : List Nat) (his : is.map (fun i => cells[i]?) = rest.map some)
    (key : List UInt8) (acc : List (Int64 × Row)) :
    Ends (scanCellsCompressed d is key acc) s (fun r s' => Accounts base σ H s' ∧ ∃ rows,
        decodePage ⟨key⟩ (rest.map Cell.payload) = .ok rows ∧ rows.length = rest.length ∧
        r = acc ++ (rest.map Cell.rowid).zip rows)
      fun e _ => decodePage ⟨key⟩ (rest.map Cell.payload) = .error e := by
  induction rest generalizing is key acc s with
  | nil =>
      obtain rfl : is = [] := List.map_eq_nil_iff.mp his
      exact .inl (.pure ⟨h, [], rfl, rfl, by simp⟩)
  | cons c rest ih =>
      cases is with
      | nil => cases his
      | cons i is =>
          rw [List.map_cons, List.map_cons, List.cons.injEq] at his
          obtain ⟨off, hoff, hfit, hslice, hhead, hkey⟩ := hleaf.cell (some 12) his.1 (by simp)
          rw [scanCellsCompressed]
          simp only [hoff, hhead, hkey, ofRes, pure_bind]
          have hread := readCellPayload_serves Accounts.serves h (hstored c List.mem_cons_self) hfit hslice
          refine hread.ends.bind fun payload s₁ hpayload => ?_
          obtain ⟨rfl, h₁⟩ := hpayload
          rw [List.map_cons]
          cases hrow : deserializeIndexRowWithPrefix c.payload key with
          | error e => exact .inr ⟨e, s₁, rfl, decodePage_error hrow⟩
          | ok row =>
              obtain ⟨row, next⟩ := row
              rw [decodePage_ok hrow]
              refine (ih h₁ (fun x hx => hstored x (List.mem_cons_of_mem _ hx)) is his.2 next
                (acc ++ [(c.rowid, row)])).mono (fun r s₂ hq => ?_) fun e s₂ hq => by rw [hq]; rfl
              obtain ⟨h₂, rows, hrows, hlen, rfl⟩ := hq
              refine ⟨h₂, row :: rows, by rw [hrows]; rfl, by rw [List.length_cons, List.length_cons, hlen], ?_⟩
              rw [List.map_cons, List.zip_cons_cons, List.append_assoc]
              rfl

theorem scanAllCompressed_ends (h : Single base root cells σ H s) :
    Ends (scanAllCompressed root) s (fun r _ => ∃ rows, decodePage .new (cells.map Cell.payload) = .ok rows ∧
        rows.length = cells.length ∧ r = (cells.map Cell.rowid).zip rows)
      fun e _ => decodePage .new (cells.map Cell.payload) = .error e := by
  obtain ⟨d, lo, hp, hleaf⟩ := h.leaf
  have hne : root ≠ 0 := by
    have := (h.accounts.range hp).1
    omega
  have hfirst : Yields (findLeftmostLeaf root) s fun r s' => r = root ∧ Accounts base σ H s' := by
    rw [findLeftmostLeaf]
    refine depthLimit_yields.bind fun fuel s₁ hfuel => ?_
    obtain ⟨rfl, rfl⟩ := hfuel
    rw [findLeftmost]
    refine (getPage_accounts h.accounts hp).bind fun pg s₂ hpg => ?_
    obtain ⟨hdata, h₂, -⟩ := hpg
    rw [hdata, hleaf.laid.type, if_pos rfl]
    exact .pure ⟨rfl, h₂⟩
  rw [scanAllCompressed]
  refine hfirst.ends.bind fun first s₁ hroot => ?_
  obtain ⟨rfl, h₁⟩ := hroot
  show Ends (scanLeavesCompressed (s₁.header.totalPages + 1) first []) s₁ _ _
  have htotal : ∃ n, s₁.header.totalPages = n + 1 := ⟨s₁.header.totalPages - 1, by have := h₁.range hp; omega⟩
  obtain ⟨n, hn⟩ := htotal
  rw [hn, scanLeavesCompressed, if_neg hne]
  refine (getPage_accounts h₁ hp).ends.bind fun pg s₂ hpg => ?_
  obtain ⟨hdata, h₂, -⟩ := hpg
  rw [hdata, hleaf.count]
  refine (scanCellsCompressed_ends h₂ hleaf h.stored _ (map_range_getElem? cells) [] []).bind fun r s₃ hr => ?_
  obtain ⟨h₃, rows, hrows, hlen, rfl⟩ := hr
  rw [show nextLeaf d = 0 from hleaf.next, scanLeavesCompressed, if_pos rfl]
  exact .inl (.pure ⟨rows, hrows, hlen, rfl⟩)

end Scan

-- The limits of the reader of an index row, which the writer does not check.
def IndexReadable (row : Row) : Prop := row.length ≤ MAX_COLUMNS ∧ ∀ v ∈ plainValues row, v.Readable

-- The text that a row is compressed by has a length that fits its field.
def ShortKey (row : Row) : Prop := ∀ t, row.head? = some (.Text t) → (textBytes t).length ≤ U16_MAX

theorem pageFits_of_short {rows : List Row} (h : ∀ row ∈ rows, ShortKey row) (encoder : PrefixPageEncoder) :
    PageFits encoder rows ↔ ∀ row ∈ rows, IndexReadable row := by
  induction rows generalizing encoder with
  | nil => simp [PageFits]
  | cons row rows ih =>
      rw [PageFits, List.forall_mem_cons, ih (fun r hr => h r (List.mem_cons_of_mem _ hr))]
      refine and_congr_left fun _ => ⟨fun hfits => ⟨hfits.1, hfits.2.1⟩, fun hfits => ⟨hfits.1, hfits.2, ?_⟩⟩
      rintro _ ht t rfl
      have := h row List.mem_cons_self t ht
      omega

section RoundTrip

variable [Lz4Flex] {base root : Nat} {σ : Pager.Space} {s s' : Pager} {entries : List (Int64 × Row)}

theorem buildCompressed_single (h : Pager.SpaceInv base (s, σ)) (hsorted : entries.Pairwise fun e e' =>
    e.1 < e'.1)
    (hrun : buildCompressed entries s = .ok root s') :
    ∃ σ' H' cells, Single base root cells σ' H' s' ∧ Encodes [] entries cells := by
  rw [buildCompressed] at hrun
  obtain ⟨root', s₁, hnew, hrun⟩ := ok_of_bind_state hrun
  obtain ⟨r, s₂, hinsert, hrun⟩ := ok_of_bind_state hrun
  obtain ⟨rfl, rfl⟩ := EStateM.Result.ok.inj hrun
  obtain ⟨σ₁, H₁, h₁⟩ := createTable_single h hnew
  have hascending : entries.Pairwise fun e e' => e.1.toInt < e'.1.toInt :=
    hsorted.imp fun hlt => Int64.lt_iff_toInt_lt.mp hlt
  obtain ⟨hroot, σ₂, H₂, cells, h₂, hencodes⟩ :=
    insertAllCompressed_single entries h₁ (fun x hx => absurd hx List.not_mem_nil) hascending hinsert
  rw [List.nil_append] at h₂
  rw [hroot]
  exact ⟨σ₂, H₂, cells, h₂, hencodes⟩

-- A scan that gives the rows back has decoded every one of them.
theorem Single.scans_iff {cells : List Cell} {H : Heap} (h : Single base root cells σ H s)
    (hencodes : Encodes [] entries cells) :
    Returns (scanAllCompressed root) s entries ↔ PageFits .new (entries.map Prod.snd) := by
  obtain ⟨hrowids, hpayloads⟩ := hencodes
  have hlen : cells.length = entries.length := by
    rw [← List.length_map Cell.rowid, hrowids, List.length_map]
  have hscan := scanAllCompressed_ends h
  rw [hrowids] at hscan
  rw [← page_round_trip_iff]
  have hsame : decodePage .new (cells.map Cell.payload) =
      decodePage .new (encodePage .new (entries.map Prod.snd)) := by rw [hpayloads]; rfl
  rw [← hsame]
  constructor
  · rintro ⟨s₃, hok⟩
    obtain ⟨rows, hrows, hcount, heq⟩ := hscan.ok hok
    have hsnd := congrArg (List.map Prod.snd) heq
    rw [List.map_snd_zip (by rw [List.length_map]; omega)] at hsnd
    rw [hsnd]
    exact hrows
  · intro hdecode
    rcases hscan with ⟨r', s₃, hok, rows, hrows, -, rfl⟩ | ⟨e, s₃, -, herror⟩
    · obtain rfl := Except.ok.inj (hrows.symm.trans hdecode)
      rw [← List.zip_of_prod rfl rfl] at hok
      exact ⟨s₃, hok⟩
    · rw [hdecode] at herror
      cases herror

-- After a run of inserts that all succeed, the scan gives the rows that were inserted exactly when each of
-- them is within the limits of the reader.
theorem buildCompressed_scans_iff (h : Pager.SpaceInv base (s, σ))
    (hsorted : entries.Pairwise fun e e' => e.1 < e'.1) (hkeys : ∀ e ∈ entries, ShortKey e.2)
    (hrun : buildCompressed entries s = .ok root s') :
    Returns (scanAllCompressed root) s' entries ↔ ∀ e ∈ entries, IndexReadable e.2 := by
  obtain ⟨σ', H', cells, hsingle, hencodes⟩ := buildCompressed_single h hsorted hrun
  have hshort : ∀ row ∈ entries.map Prod.snd, ShortKey row := by
    intro row hrow
    obtain ⟨e, he, rfl⟩ := List.mem_map.mp hrow
    exact hkeys e he
  rw [hsingle.scans_iff hencodes, pageFits_of_short hshort, List.forall_mem_map]

end RoundTrip

section Samples

attribute [local instance] Lz4Flex.incompressible

def alikeRows : List (Int64 × Row) :=
  [(1, [.Text "apple"]), (2, [.Text "apply", .Integer 7]), (5, [.Text "apricot"])]

def wideRows : List (Int64 × Row) := [(1, wideRow)]

def builds (entries : List (Int64 × Row)) : Bool :=
  match buildCompressed entries (Pager.openMemory Buf.zero) with
  | .ok _ _ => true
  | .error _ _ => false

theorem ok_of_builds {entries : List (Int64 × Row)} (h : builds entries = true) :
    ∃ root s', buildCompressed entries (Pager.openMemory Buf.zero) = .ok root s' := by
  unfold builds at h
  split at h
  · exact ⟨_, _, ‹_›⟩
  · cases h

set_option maxRecDepth 10000 in
theorem alikeRows_built : builds alikeRows = true := by decide +kernel

set_option maxRecDepth 10000 in
theorem wideRows_built : builds wideRows = true := by decide +kernel

theorem alikeRows_short : ∀ e ∈ alikeRows, ShortKey e.2 := by
  intro e he t ht
  simp only [alikeRows, List.mem_cons, List.not_mem_nil, or_false] at he
  rcases he with rfl | rfl | rfl <;> (obtain rfl := Value.Text.inj (Option.some.inj ht); decide +kernel)

theorem buildCompressed_scans_alike :
    ∃ root s', buildCompressed alikeRows (Pager.openMemory Buf.zero) = .ok root s' ∧
      (Returns (scanAllCompressed root) s' alikeRows ↔ ∀ e ∈ alikeRows, IndexReadable e.2) := by
  obtain ⟨root, s', hrun⟩ := ok_of_builds alikeRows_built
  exact ⟨root, s', hrun, buildCompressed_scans_iff (Pager.ready_openMemory Buf.zero).space (by decide)
    alikeRows_short hrun⟩

-- A row with one column too many is inserted, and the scan cannot read it.
theorem wideRows_not_scanned :
    (∀ e ∈ wideRows, ShortKey e.2) ∧ ∃ root s', buildCompressed wideRows (Pager.openMemory Buf.zero) =
      .ok root s' ∧
      ¬Returns (scanAllCompressed root) s' wideRows := by
  obtain ⟨root, s', hrun⟩ := ok_of_builds wideRows_built
  obtain ⟨σ', H', cells, hsingle, hencodes⟩ :=
    buildCompressed_single (Pager.ready_openMemory Buf.zero).space (by decide) hrun
  refine ⟨fun e he t ht => ?_, root, s', hrun, fun hscan => ?_⟩
  · rw [List.mem_singleton.mp he] at ht
    cases ht
  · have hfits := ((hsingle.scans_iff hencodes).mp hscan).1.1
    have hlen : wideRow.length = 4097 := List.length_replicate
    exact absurd (hlen ▸ hfits) (by decide)

end Samples

end BTree

end Kkdb
