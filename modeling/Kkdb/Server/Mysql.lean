import Kkdb.Lib.Bytes
import Kkdb.Lib.Framed
import Kkdb.Vm.TypedKey

namespace Kkdb.Mysql

open Lib

section Server

structure Connection where
  seq : UInt8
  written : List UInt8

def packet (seq : UInt8) (payload : List UInt8) : List UInt8 := leBytes 3 payload.length ++ seq :: payload

def Connection.sendPacket (c : Connection) (payload : List UInt8) : Connection where
  seq := c.seq + 1
  written := c.written ++ packet c.seq payload

def encodeLenencInt (v : Nat) : List UInt8 :=
  if v < 251 then [UInt8.ofNat v]
  else if v < 65536 then 0xfc :: leBytes 2 v
  else if v < 16777216 then 0xfd :: leBytes 3 v
  else 0xfe :: leBytes 8 v

def encodeLenencStr (s : List UInt8) : List UInt8 := encodeLenencInt s.length ++ s

def columnTypeBytes (colType : UInt8) : List UInt8 :=
  [0x0c, 0x21, 0, 0xff, 0xff, 0, 0, colType, 0, 0, 0, 0, 0]

def columnDefPacketTyped (name table : List UInt8) (colType : UInt8) : List UInt8 :=
  encodeLenencStr [100, 101, 102] ++ encodeLenencStr [] ++ encodeLenencStr table ++ encodeLenencStr table ++
    encodeLenencStr name ++ encodeLenencStr name ++ columnTypeBytes colType

def columnDefPacket (name : List UInt8) : List UInt8 := columnDefPacketTyped name [] 0xfd

def eofPacket : List UInt8 := [0xfe, 0, 0, 2, 0]

def encodeCell : Option (List UInt8) → List UInt8
  | none => [0xfb]
  | some s => encodeLenencStr s

def rowPacket (row : List (Option (List UInt8))) : List UInt8 := row.flatMap encodeCell

def sendResultSet (headers : List (List UInt8)) (rows : List (List (Option (List UInt8)))) (c : Connection) :
    Connection :=
  let c := c.sendPacket (encodeLenencInt headers.length)
  let c := headers.foldl (fun c name => c.sendPacket (columnDefPacket name)) c
  let c := c.sendPacket eofPacket
  let c := rows.foldl (fun c row => c.sendPacket (rowPacket row)) c
  c.sendPacket eofPacket

-- The names of the columns and the values of the rows, as the engine hands them over.
structure QueryResult where
  columns : List String
  rows : List Row
  columns_lt : columns.length < 18446744073709551616

-- `Display` of a value.
def display (realText : UInt64 → List UInt8) : Value → List UInt8
  | .Null => [78, 85, 76, 76]
  | .Integer v => integerText v
  | .Real bits => realText bits
  | .Text v => textBytes v
  | .Blob v => 120 :: 39 :: (v.flatMap hexText ++ [39])

def shownRows (realText : UInt64 → List UInt8) (r : QueryResult) : List (List (Option (List UInt8))) :=
  r.rows.map fun row => row.map fun cell => some (display realText cell)

def sendQueryResult (realText : UInt64 → List UInt8) (r : QueryResult) (c : Connection) : Connection :=
  sendResultSet (r.columns.map textBytes) (shownRows realText r) c

end Server

-- A client of the text protocol.
section Client

-- A payload of 2^24-1 bytes is continued by the next packet.
def readFragments : Nat → UInt8 → List UInt8 → Option (List UInt8 × UInt8 × List UInt8)
  | 0, _, _ => none
  | fuel + 1, seq, bytes =>
      let len := leNat (bytes.take 3)
      if bytes.length < 4 + len ∨ bytes[3]? ≠ some seq then none
      else if len < 16777215 then some ((bytes.drop 4).take len, seq + 1, (bytes.drop 4).drop len)
      else
        (readFragments fuel (seq + 1) ((bytes.drop 4).drop len)).map fun more =>
          ((bytes.drop 4).take len ++ more.1, more.2)

def readPacket (seq : UInt8) (bytes : List UInt8) : Option (List UInt8 × UInt8 × List UInt8) :=
  readFragments bytes.length seq bytes

def readPackets : Nat → UInt8 → List UInt8 → Option (List (List UInt8) × UInt8 × List UInt8)
  | 0, seq, bytes => some ([], seq, bytes)
  | n + 1, seq, bytes => do
      let (payload, seq, bytes) ← readPacket seq bytes
      let (payloads, seq, bytes) ← readPackets n seq bytes
      return (payload :: payloads, seq, bytes)

def takeNumber (width : Nat) (bytes : List UInt8) : Option (Nat × List UInt8) :=
  if bytes.length < width then none else some (leNat (bytes.take width), bytes.drop width)

def readLenencInt : List UInt8 → Option (Nat × List UInt8)
  | [] => none
  | b :: bytes =>
      if b.toNat < 251 then some (b.toNat, bytes)
      else if b = 0xfc then takeNumber 2 bytes
      else if b = 0xfd then takeNumber 3 bytes
      else if b = 0xfe then takeNumber 8 bytes
      else none

def readLenencStr (bytes : List UInt8) : Option (List UInt8 × List UInt8) := do
  let (len, bytes) ← readLenencInt bytes
  if bytes.length < len then none else some (bytes.take len, bytes.drop len)

def readCell (bytes : List UInt8) : Option (Option (List UInt8) × List UInt8) :=
  if bytes.head? = some 0xfb then some (none, bytes.tail)
  else (readLenencStr bytes).map fun s => (some s.1, s.2)

def readRow (ncols : Nat) (payload : List UInt8) : Option (List (Option (List UInt8))) :=
  (readTimes readCell ncols payload).bind fun row => if row.2 = [] then some row.1 else none

-- The name is the fifth of six texts, before thirteen bytes.
def readColumnDef (payload : List UInt8) : Option (List UInt8) :=
  (readTimes readLenencStr 6 payload).bind fun texts => if texts.2.length = 13 then texts.1[4]? else none

def isEof (payload : List UInt8) : Bool := payload.head? = some 0xfe && payload.length < 9

def readRows (ncols : Nat) : Nat → UInt8 → List UInt8 →
    Option (List (List (Option (List UInt8))) × UInt8 × List UInt8)
  | 0, _, _ => none
  | fuel + 1, seq, bytes => do
      let (payload, seq, bytes) ← readPacket seq bytes
      if isEof payload then return ([], seq, bytes)
      else if payload.head? = some 0xff then none
      else
        let row ← readRow ncols payload
        let (rows, seq, bytes) ← readRows ncols fuel seq bytes
        return (row :: rows, seq, bytes)

structure ResultSet where
  names : List (List UInt8)
  rows : List (List (Option (List UInt8)))

-- The first packet may say that there is no result set: success, an error, or a request for a file.
def readColumnCount (payload : List UInt8) : Option Nat :=
  if payload.head? = some 0 ∨ payload.head? = some 0xff ∨ payload.head? = some 0xfb then none
  else (readLenencInt payload).bind fun n => if n.2 = [] then some n.1 else none

def readResultSet (seq : UInt8) (bytes : List UInt8) : Option (ResultSet × UInt8 × List UInt8) := do
  let (first, seq, bytes) ← readPacket seq bytes
  let ncols ← readColumnCount first
  let (defs, seq, bytes) ← readPackets ncols seq bytes
  let names ← defs.mapM readColumnDef
  let (eof, seq, bytes) ← readPacket seq bytes
  if isEof eof then
    let (rows, seq, bytes) ← readRows ncols bytes.length seq bytes
    return (⟨names, rows⟩, seq, bytes)
  else none

end Client

section Packets

variable {seq seq' : UInt8} {bytes rest payload : List UInt8} {payloads : List (List UInt8)} {fuel n v : Nat}

theorem length_readFragments (h : readFragments fuel seq bytes = some (payload, seq', rest)) :
    bytes.length = payload.length + 4 * (payload.length / 16777215 + 1) + rest.length := by
  induction fuel generalizing seq bytes payload with
  | zero => cases h
  | succ fuel ih =>
      simp only [readFragments] at h
      have hlt := leNat_lt (bytes.take 3)
      split_ifs at h with hcut hlast
      · rw [not_or, not_lt] at hcut
        rw [Option.some.injEq, Prod.mk.injEq, Prod.mk.injEq] at h
        obtain ⟨rfl, -, rfl⟩ := h
        rw [List.length_drop, List.length_take, List.length_drop]
        omega
      · rw [not_or, not_lt] at hcut
        obtain ⟨⟨more, last⟩, hmore, heq⟩ := Option.map_eq_some_iff.mp h
        rw [Prod.mk.injEq] at heq
        obtain ⟨rfl, rfl⟩ := heq
        have hlen := ih hmore
        have htake : (bytes.take 3).length = 3 := by
          rw [List.length_take]
          omega
        have hbytes : (256 : Nat) ^ 3 = 16777216 := by norm_num
        rw [htake, hbytes] at hlt
        rw [List.length_drop, List.length_drop] at hlen
        dsimp only
        rw [List.length_append, List.length_take, List.length_drop]
        omega

def total (payloads : List (List UInt8)) : Nat := payloads.foldr (fun p n => p.length + 4 + n) 0

theorem length_readPackets (h : readPackets n seq bytes = some (payloads, seq', rest)) :
    total payloads + rest.length ≤ bytes.length ∧
      (bytes.length ≤ total payloads + rest.length → ∀ p ∈ payloads, p.length < 16777215) := by
  induction n generalizing seq bytes payloads with
  | zero =>
      rw [readPackets, Option.some.injEq, Prod.mk.injEq, Prod.mk.injEq] at h
      obtain ⟨rfl, -, rfl⟩ := h
      exact ⟨by rw [total, List.foldr_nil, Nat.zero_add], fun _ p hp => absurd hp List.not_mem_nil⟩
  | succ n ih =>
      obtain ⟨⟨payload, seq₁, bytes₁⟩, hfirst, h⟩ := Option.bind_eq_some_iff.mp h
      obtain ⟨⟨payloads', seq₂, bytes₂⟩, hmore, h⟩ := Option.bind_eq_some_iff.mp h
      have heq : (payload :: payloads', seq₂, bytes₂) = (payloads, seq', rest) := Option.some.inj h
      rw [Prod.mk.injEq, Prod.mk.injEq] at heq
      obtain ⟨rfl, rfl, rfl⟩ := heq
      have hlen := length_readFragments hfirst
      obtain ⟨hle, hsmall⟩ := ih hmore
      have htotal : total (payload :: payloads') = payload.length + 4 + total payloads' := rfl
      rw [htotal]
      refine ⟨by omega, fun hfull => List.forall_mem_cons.mpr ⟨by omega, hsmall (by omega)⟩⟩

theorem length_packet (seq : UInt8) (payload : List UInt8) :
    (packet seq payload).length = payload.length + 4 := by
  rw [packet, List.length_append, length_leBytes, List.length_cons]
  omega

theorem readPacket_packet (h : payload.length < 16777215) (seq : UInt8) (rest : List UInt8) :
    readPacket seq (packet seq payload ++ rest) = some (payload, seq + 1, rest) := by
  have hlen := length_packet seq payload
  have htake : (packet seq payload ++ rest).take 3 = leBytes 3 payload.length := by
    rw [packet, List.append_assoc]
    exact List.take_left' (length_leBytes 3 _)
  have hsize : leNat ((packet seq payload ++ rest).take 3) = payload.length := by
    rw [htake]
    exact leNat_leBytes_of_lt (Nat.lt_trans h (by norm_num))
  have hseq : (packet seq payload ++ rest)[3]? = some seq := by
    rw [packet, List.append_assoc, List.getElem?_append_right (by rw [length_leBytes]), length_leBytes]
    rfl
  have hdrop : (packet seq payload ++ rest).drop 4 = payload ++ rest := by
    have hheader : (leBytes 3 payload.length ++ [seq]).length = 4 := by
      rw [List.length_append, length_leBytes, List.length_singleton]
    rw [packet, ← List.singleton_append, ← List.append_assoc, List.append_assoc _ payload]
    exact List.drop_left' hheader
  obtain ⟨fuel, hfuel⟩ : ∃ fuel, (packet seq payload ++ rest).length = fuel + 1 :=
    ⟨payload.length + 3 + rest.length, by rw [List.length_append, hlen]; omega⟩
  rw [readPacket, hfuel]
  simp only [readFragments]
  rw [hsize, hseq, hdrop, if_neg, if_pos h, List.take_left', List.drop_left'] <;> try rfl
  rw [not_or, not_lt, not_not, List.length_append, hlen]
  exact ⟨by omega, rfl⟩

def packets : UInt8 → List (List UInt8) → List UInt8
  | _, [] => []
  | seq, p :: ps => packet seq p ++ packets (seq + 1) ps

def lastSeq (seq : UInt8) (payloads : List (List UInt8)) : UInt8 := payloads.foldl (fun seq _ => seq + 1) seq

theorem foldl_sendPacket (payloads : List (List UInt8)) (c : Connection) :
    payloads.foldl Connection.sendPacket c =
      { seq := lastSeq c.seq payloads, written := c.written ++ packets c.seq payloads } := by
  induction payloads generalizing c with
  | nil => rw [packets, List.append_nil]; rfl
  | cons p ps ih => rw [List.foldl_cons, ih, packets, ← List.append_assoc]; rfl

theorem packets_append (ps qs : List (List UInt8)) (seq : UInt8) :
    packets seq (ps ++ qs) = packets seq ps ++ packets (lastSeq seq ps) qs := by
  induction ps generalizing seq with
  | nil => rfl
  | cons p ps ih => rw [List.cons_append, packets, packets, ih, List.append_assoc]; rfl

theorem lastSeq_append (ps qs : List (List UInt8)) (seq : UInt8) :
    lastSeq seq (ps ++ qs) = lastSeq (lastSeq seq ps) qs := List.foldl_append

theorem lastSeq_cons (seq : UInt8) (p : List UInt8) (ps : List (List UInt8)) :
    lastSeq seq (p :: ps) = lastSeq (seq + 1) ps := rfl

theorem length_packets (seq : UInt8) (payloads : List (List UInt8)) :
    (packets seq payloads).length = total payloads := by
  induction payloads generalizing seq with
  | nil => rfl
  | cons p ps ih => rw [packets, List.length_append, length_packet, ih]; rfl

theorem length_le_total (payloads : List (List UInt8)) : payloads.length ≤ total payloads := by
  induction payloads with
  | nil => exact Nat.le_refl 0
  | cons p ps ih =>
      rw [List.length_cons, total, List.foldr_cons, ← total]
      omega

theorem readPackets_packets (h : ∀ p ∈ payloads, p.length < 16777215) (seq : UInt8) (rest : List UInt8) :
    readPackets payloads.length seq (packets seq payloads ++ rest) =
      some (payloads, lastSeq seq payloads, rest) := by
  induction payloads generalizing seq with
  | nil => rfl
  | cons p ps ih =>
      obtain ⟨hp, hps⟩ := List.forall_mem_cons.mp h
      rw [List.length_cons, readPackets, packets, List.append_assoc, readPacket_packet hp]
      simp only [Option.bind_eq_bind, Option.bind_some]
      rw [ih hps]
      rfl

-- The packets that are read are those that were sent exactly when none of them needs a continuation.
theorem inStep_iff (seq : UInt8) (payloads : List (List UInt8)) :
    (∀ rest, readPackets payloads.length seq (packets seq payloads ++ rest) =
      some (payloads, lastSeq seq payloads, rest)) ↔ ∀ p ∈ payloads, p.length < 16777215 := by
  constructor
  · intro hread
    have hempty := hread []
    refine (length_readPackets hempty).2 ?_
    rw [List.append_nil, length_packets, List.length_nil, Nat.add_zero]
  · intro hsmall rest
    exact readPackets_packets hsmall seq rest

end Packets

section Texts

variable {s payload rest : List UInt8} {v : Nat} {row : List (Option (List UInt8))}

theorem toNat_small (h : v < 251) : (UInt8.ofNat v).toNat = v :=
  UInt8.toNat_ofNat_of_lt' (Nat.lt_trans h (by decide))

theorem takeNumber_leBytes (width : Nat) (hlt : v < 256 ^ width) (rest : List UInt8) :
    takeNumber width (leBytes width v ++ rest) = some (v, rest) := by
  have hlen := length_leBytes width v
  rw [takeNumber, if_neg (by rw [List.length_append, hlen]; omega), List.take_left' hlen, List.drop_left' hlen,
    leNat_leBytes_of_lt hlt]

theorem readLenencInt_encode (hlt : v < 18446744073709551616) (rest : List UInt8) :
    readLenencInt (encodeLenencInt v ++ rest) = some (v, rest) := by
  rw [encodeLenencInt]
  split_ifs with hone htwo hthree
  · have hbyte := toNat_small hone
    rw [List.singleton_append, readLenencInt, hbyte, if_pos hone]
  · exact takeNumber_leBytes 2 (by norm_num; omega) rest
  · exact takeNumber_leBytes 3 (by norm_num; omega) rest
  · exact takeNumber_leBytes 8 (by norm_num; omega) rest

theorem readLenencStr_encode (hlt : s.length < 18446744073709551616) (rest : List UInt8) :
    readLenencStr (encodeLenencStr s ++ rest) = some (s, rest) := by
  rw [encodeLenencStr, List.append_assoc, readLenencStr, readLenencInt_encode hlt]
  simp only [Option.bind_eq_bind, Option.bind_some]
  rw [if_neg (by rw [List.length_append]; omega), List.take_left, List.drop_left]

theorem head_encodeLenencInt (v : Nat) : ∃ b, (encodeLenencInt v).head? = some b ∧
    (v ≠ 0 → b ≠ 0) ∧ b ≠ 0xfb ∧ b ≠ 0xff ∧ (v < 16777216 → b ≠ 0xfe) := by
  rw [encodeLenencInt]
  split_ifs with hone htwo hthree
  · have hbyte := toNat_small hone
    refine ⟨_, rfl, ?_, ?_, ?_, fun _ => ?_⟩
    · rintro hne hzero
      rw [hzero] at hbyte
      exact hne hbyte.symm
    all_goals
      intro hmark
      rw [hmark] at hbyte
      have hlarge : v < 251 := hone
      rw [← hbyte] at hlarge
      exact absurd hlarge (by decide)
  · exact ⟨0xfc, rfl, fun _ => by decide, by decide, by decide, fun _ => by decide⟩
  · exact ⟨0xfd, rfl, fun _ => by decide, by decide, by decide, fun _ => by decide⟩
  · exact ⟨0xfe, rfl, fun _ => by decide, by decide, by decide, fun hlt => absurd hlt hthree⟩

theorem head_append_lenenc (v : Nat) (rest : List UInt8) :
    (encodeLenencInt v ++ rest).head? = (encodeLenencInt v).head? := by
  obtain ⟨b, hb, -⟩ := head_encodeLenencInt v
  rw [List.head?_append, hb]
  rfl

theorem readCell_encode {cell : Option (List UInt8)} (hlt : ∀ s ∈ cell, s.length < 18446744073709551616)
    (rest : List UInt8) : readCell (encodeCell cell ++ rest) = some (cell, rest) := by
  cases cell with
  | none => rfl
  | some s =>
      obtain ⟨b, hb, -, hnull, -, -⟩ := head_encodeLenencInt s.length
      have hhead : (encodeCell (some s) ++ rest).head? ≠ some 0xfb := by
        rw [encodeCell, encodeLenencStr, List.append_assoc, head_append_lenenc, hb]
        exact fun h => hnull (Option.some.inj h)
      rw [readCell, if_neg hhead, encodeCell, readLenencStr_encode (hlt s rfl)]
      rfl

theorem length_le_rowPacket {s : List UInt8} (h : some s ∈ row) : s.length ≤ (rowPacket row).length := by
  obtain ⟨before, behind, rfl⟩ := List.append_of_mem h
  rw [rowPacket, List.flatMap_append, List.flatMap_cons, encodeCell, encodeLenencStr]
  simp only [List.length_append]
  omega

theorem readRow_rowPacket (hlt : (rowPacket row).length < 16777215) :
    readRow row.length (rowPacket row) = some row := by
  have hcells : ∀ cell ∈ row, ∀ rest, readCell (encodeCell cell ++ rest) = some (cell, rest) := by
    intro cell hcell rest
    refine readCell_encode (fun s hs => ?_) rest
    obtain rfl := Option.mem_def.mp hs
    exact Nat.lt_of_le_of_lt (length_le_rowPacket hcell) (Nat.lt_trans hlt (by norm_num))
  have hread := readTimes_flatMap hcells []
  rw [List.append_nil] at hread
  rw [readRow, rowPacket, hread]
  rfl

theorem readColumnDef_packet {name : List UInt8} (hlt : (columnDefPacket name).length < 16777215) :
    readColumnDef (columnDefPacket name) = some name := by
  have hname : name.length < 18446744073709551616 := by
    rw [columnDefPacket, columnDefPacketTyped] at hlt
    simp only [List.length_append, encodeLenencStr] at hlt
    omega
  have htexts : ∀ s ∈ [[100, 101, 102], [], [], [], name, name], ∀ rest,
      readLenencStr (encodeLenencStr s ++ rest) = some (s, rest) := by
    intro s hs rest
    refine readLenencStr_encode ?_ rest
    simp only [List.mem_cons, List.not_mem_nil, or_false] at hs
    rcases hs with rfl | rfl | rfl | rfl | rfl | rfl <;> first | exact hname | decide
  have hread := readTimes_flatMap htexts (columnTypeBytes 0xfd)
  have hpacket : columnDefPacket name =
      [[100, 101, 102], [], [], [], name, name].flatMap encodeLenencStr ++ columnTypeBytes 0xfd := by
    simp only [columnDefPacket, columnDefPacketTyped, List.flatMap_cons, List.flatMap_nil, List.append_nil,
      List.append_assoc]
  rw [readColumnDef, hpacket]
  exact (congrArg (fun texts => Option.bind texts _) hread).trans rfl

end Texts

section Results

variable {headers : List (List UInt8)} {rows : List (List (Option (List UInt8)))}
  {row : List (Option (List UInt8))} {seq : UInt8} {rest : List UInt8} {ncols fuel : Nat}

-- A row with a cell is told from the end of the rows and from an error.
theorem head_rowPacket (hne : row ≠ []) (hlt : (rowPacket row).length < 16777215) :
    isEof (rowPacket row) = false ∧ (rowPacket row).head? ≠ some 0xff := by
  obtain ⟨cell, cells, rfl⟩ := List.exists_cons_of_ne_nil hne
  have hhead : ∃ b, (rowPacket (cell :: cells)).head? = some b ∧ b ≠ 0xff ∧ b ≠ 0xfe := by
    cases cell with
    | none => exact ⟨0xfb, rfl, by decide, by decide⟩
    | some s =>
        have hmem : some s ∈ some s :: cells := List.mem_cons_self
        have hlen := length_le_rowPacket hmem
        obtain ⟨b, hb, -, -, herr, heof⟩ := head_encodeLenencInt s.length
        refine ⟨b, ?_, herr, heof (by omega)⟩
        rw [rowPacket, List.flatMap_cons, encodeCell, encodeLenencStr, List.append_assoc, head_append_lenenc,
          hb]
  obtain ⟨b, hb, herr, heof⟩ := hhead
  refine ⟨?_, fun h => herr (Option.some.inj (hb.symm.trans h))⟩
  rw [isEof, hb, decide_eq_false fun h => heof (Option.some.inj h), Bool.false_and]

theorem readRows_packets (hpos : 0 < ncols) (hrect : ∀ row ∈ rows, row.length = ncols)
    (hlt : ∀ row ∈ rows, (rowPacket row).length < 16777215) (hfuel : rows.length < fuel) :
    readRows ncols fuel seq (packets seq (rows.map rowPacket ++ [eofPacket]) ++ rest) =
      some (rows, lastSeq seq (rows.map rowPacket ++ [eofPacket]), rest) := by
  induction rows generalizing fuel seq with
  | nil =>
      obtain ⟨fuel, rfl⟩ := Nat.exists_eq_add_one_of_ne_zero (Nat.ne_of_gt hfuel)
      rw [List.map_nil, List.nil_append, packets, packets, List.append_nil, readRows,
        readPacket_packet (by decide)]
      rfl
  | cons row rows ih =>
      obtain ⟨hrow, hrows⟩ := List.forall_mem_cons.mp hrect
      obtain ⟨hsmall, hsmalls⟩ := List.forall_mem_cons.mp hlt
      obtain ⟨fuel, rfl⟩ := Nat.exists_eq_add_one_of_ne_zero (Nat.ne_of_gt (Nat.zero_lt_of_lt hfuel))
      have hne : row ≠ [] := fun h => by
        rw [← hrow, h] at hpos
        exact Nat.lt_irrefl 0 hpos
      obtain ⟨heof, herr⟩ := head_rowPacket hne hsmall
      have hread := readRow_rowPacket hsmall
      rw [hrow] at hread
      have hlater := @ih (seq + 1) _ hrows hsmalls (Nat.lt_of_succ_lt_succ hfuel)
      rw [List.map_cons, List.cons_append, packets, List.append_assoc, readRows, readPacket_packet hsmall]
      simp only [Option.bind_eq_bind, Option.bind_some]
      rw [heof, if_neg Bool.false_ne_true, if_neg herr, hread, Option.bind_some, hlater]
      rfl

def payloads (headers : List (List UInt8)) (rows : List (List (Option (List UInt8)))) : List (List UInt8) :=
  encodeLenencInt headers.length :: (headers.map columnDefPacket ++
    eofPacket :: (rows.map rowPacket ++ [eofPacket]))

theorem sendResultSet_eq (headers : List (List UInt8)) (rows : List (List (Option (List UInt8))))
    (c : Connection) :
    sendResultSet headers rows c = (payloads headers rows).foldl Connection.sendPacket c := by
  rw [sendResultSet, payloads, List.foldl_cons, List.foldl_append, List.foldl_cons, List.foldl_append,
    List.foldl_map, List.foldl_map]
  rfl

theorem mapM_columnDef (hlt : ∀ name ∈ headers, (columnDefPacket name).length < 16777215) :
    (headers.map columnDefPacket).mapM readColumnDef = some headers := by
  induction headers with
  | nil => rfl
  | cons name headers ih =>
      obtain ⟨hname, hnames⟩ := List.forall_mem_cons.mp hlt
      rw [List.map_cons, List.mapM_cons, readColumnDef_packet hname, ih hnames]
      rfl

theorem readColumnCount_encode (hpos : ncols ≠ 0) (hlt : ncols < 18446744073709551616) :
    readColumnCount (encodeLenencInt ncols) = some ncols := by
  obtain ⟨b, hb, hzero, hnull, herr, -⟩ := head_encodeLenencInt ncols
  have hread := readLenencInt_encode hlt []
  rw [List.append_nil] at hread
  rw [readColumnCount, hb, if_neg, hread]
  · rfl
  · rintro (h | h | h)
    · exact hzero hpos (Option.some.inj h)
    · exact herr (Option.some.inj h)
    · exact hnull (Option.some.inj h)

theorem readResultSet_payloads (hne : headers ≠ []) (hcount : headers.length < 18446744073709551616)
    (hrect : ∀ row ∈ rows, row.length = headers.length)
    (hlt : ∀ p ∈ payloads headers rows, p.length < 16777215) :
    readResultSet seq (packets seq (payloads headers rows) ++ rest) =
      some (⟨headers, rows⟩, lastSeq seq (payloads headers rows), rest) := by
  have hpos : headers.length ≠ 0 := fun h => hne (List.length_eq_zero_iff.mp h)
  obtain ⟨hfirst, hlt⟩ := List.forall_mem_cons.mp hlt
  obtain ⟨hdefs, hlt⟩ := List.forall_mem_append.mp hlt
  obtain ⟨heof, hlt⟩ := List.forall_mem_cons.mp hlt
  obtain ⟨hrows, -⟩ := List.forall_mem_append.mp hlt
  have hcolumns := readPackets_packets hdefs (seq + 1)
    (packets (lastSeq (seq + 1) (headers.map columnDefPacket))
      (eofPacket :: (rows.map rowPacket ++ [eofPacket])) ++ rest)
  rw [List.length_map] at hcolumns
  rw [payloads, packets, packets_append, List.append_assoc, List.append_assoc, readResultSet,
    readPacket_packet hfirst]
  simp only [Option.bind_eq_bind, Option.bind_some]
  rw [readColumnCount_encode hpos hcount, Option.bind_some, hcolumns]
  simp only [Option.bind_some]
  rw [mapM_columnDef fun name hname => hdefs _ (List.mem_map_of_mem hname), Option.bind_some, packets,
    List.append_assoc, readPacket_packet heof]
  simp only [Option.bind_some]
  have heofs : isEof eofPacket = true := by decide
  rw [if_pos heofs, readRows_packets (Nat.pos_of_ne_zero hpos) hrect
    (fun row hrow => hrows _ (List.mem_map_of_mem hrow))]
  · have hseq := lastSeq_append (headers.map columnDefPacket) (eofPacket :: (rows.map rowPacket ++ [eofPacket]))
      (seq + 1)
    rw [lastSeq_cons] at hseq
    rw [Option.bind_some, lastSeq_cons, hseq]
    rfl
  · have hle := length_le_total (rows.map rowPacket ++ [eofPacket])
    rw [List.length_append, List.length_map, List.length_singleton] at hle
    rw [List.length_append, length_packets]
    omega

theorem length_readRow {payload : List UInt8} {row : List (Option (List UInt8))}
    (h : readRow ncols payload = some row) : row.length = ncols := by
  obtain ⟨⟨cells, last⟩, hcells, h⟩ := Option.bind_eq_some_iff.mp h
  split_ifs at h
  rw [← Option.some.inj h]
  exact length_readTimes hcells

theorem length_readRows {seq' : UInt8} {bytes : List UInt8}
    (h : readRows ncols fuel seq bytes = some (rows, seq', rest)) : ∀ row ∈ rows, row.length = ncols := by
  induction fuel generalizing seq bytes seq' rest rows with
  | zero => cases h
  | succ fuel ih =>
      obtain ⟨⟨payload, seq₁, bytes₁⟩, -, h⟩ := Option.bind_eq_some_iff.mp h
      dsimp only at h
      split_ifs at h
      · have hrows : [] = rows := congrArg Prod.fst (Option.some.inj h)
        rw [← hrows]
        exact fun row hrow => absurd hrow List.not_mem_nil
      · obtain ⟨row, hrow, h⟩ := Option.bind_eq_some_iff.mp h
        obtain ⟨more, hmore, h⟩ := Option.bind_eq_some_iff.mp h
        have hrows : row :: more.1 = rows := congrArg Prod.fst (Option.some.inj h)
        rw [← hrows]
        exact List.forall_mem_cons.mpr ⟨length_readRow hrow, ih hmore⟩

theorem length_readResultSet {seq' : UInt8} {bytes : List UInt8} {result : ResultSet} (hpos : ncols ≠ 0)
    (hlt : ncols < 18446744073709551616) (hfirst : (encodeLenencInt ncols).length < 16777215)
    (h : readResultSet seq (packet seq (encodeLenencInt ncols) ++ bytes) = some (result, seq', rest)) :
    ∀ row ∈ result.rows, row.length = ncols := by
  rw [readResultSet, readPacket_packet hfirst] at h
  simp only [Option.bind_eq_bind, Option.bind_some] at h
  rw [readColumnCount_encode hpos hlt, Option.bind_some] at h
  obtain ⟨defs, -, h⟩ := Option.bind_eq_some_iff.mp h
  obtain ⟨names, -, h⟩ := Option.bind_eq_some_iff.mp h
  obtain ⟨eof, -, h⟩ := Option.bind_eq_some_iff.mp h
  split_ifs at h
  obtain ⟨⟨rows, last⟩, hrows, h⟩ := Option.bind_eq_some_iff.mp h
  have hresult : ⟨names, rows⟩ = result := congrArg Prod.fst (Option.some.inj h)
  rw [← hresult]
  exact length_readRows hrows

-- The count of no columns is what starts the packet of a success.
theorem readResultSet_noColumns : readResultSet seq (packets seq (payloads [] rows) ++ rest) = none := by
  rw [payloads, packets, List.append_assoc, readResultSet, readPacket_packet (by decide)]
  rfl

end Results

section Correctness

variable {realText : UInt64 → List UInt8} {r : QueryResult}

-- What a client is to recover: the names, and for each cell `NULL` or its text.
def cellText (realText : UInt64 → List UInt8) : Value → Option (List UInt8)
  | .Null => none
  | v => some (display realText v)

def expected (realText : UInt64 → List UInt8) (r : QueryResult) : ResultSet where
  names := r.columns.map textBytes
  rows := r.rows.map fun row => row.map (cellText realText)

def sentPayloads (realText : UInt64 → List UInt8) (r : QueryResult) : List (List UInt8) :=
  payloads (r.columns.map textBytes) (shownRows realText r)

-- The packets that the client reads are those that the server sends, and the result is the one that it has.
structure Framed (realText : UInt64 → List UInt8) (r : QueryResult) (c : Connection) : Prop where
  written : ∃ bytes, (sendQueryResult realText r c).written = c.written ++ bytes ∧ ∀ rest,
    readPackets (sentPayloads realText r).length c.seq (bytes ++ rest) =
      some (sentPayloads realText r, (sendQueryResult realText r c).seq, rest) ∧
    readResultSet c.seq (bytes ++ rest) = some (expected realText r, (sendQueryResult realText r c).seq, rest)

theorem sendQueryResult_eq (c : Connection) : sendQueryResult realText r c =
    { seq := lastSeq c.seq (sentPayloads realText r)
      written := c.written ++ packets c.seq (sentPayloads realText r) } := by
  rw [sendQueryResult, sendResultSet_eq, foldl_sendPacket, sentPayloads]

theorem cellText_eq_iff (v : Value) : cellText realText v = some (display realText v) ↔ v ≠ .Null := by
  cases v <;> simp [cellText]

theorem expected_rows_iff : (expected realText r).rows = shownRows realText r ↔
    ∀ row ∈ r.rows, ∀ v ∈ row, v ≠ .Null := by
  rw [expected, shownRows, List.map_inj_left]
  refine forall₂_congr fun row _ => ?_
  rw [List.map_inj_left]
  exact forall₂_congr fun v _ => cellText_eq_iff v

variable {c : Connection}

theorem readResultSet_sent (hne : r.columns ≠ []) (hrect : ∀ row ∈ r.rows, row.length = r.columns.length)
    (hsmall : ∀ p ∈ sentPayloads realText r, p.length < 16777215)
    (seq : UInt8) (rest : List UInt8) :
    readResultSet seq (packets seq (sentPayloads realText r) ++ rest) =
      some (⟨r.columns.map textBytes, shownRows realText r⟩, lastSeq seq (sentPayloads realText r), rest) := by
  refine readResultSet_payloads (fun h => hne (List.map_eq_nil_iff.mp h)) ?_ ?_ hsmall
  · rw [List.length_map]
    exact r.columns_lt
  · intro row hrow
    obtain ⟨values, hvalues, rfl⟩ := List.mem_map.mp hrow
    rw [List.length_map, List.length_map, hrect values hvalues]

theorem framed_iff_read : Framed realText r c ↔ ∀ rest,
    readPackets (sentPayloads realText r).length c.seq (packets c.seq (sentPayloads realText r) ++ rest) =
      some (sentPayloads realText r, lastSeq c.seq (sentPayloads realText r), rest) ∧
    readResultSet c.seq (packets c.seq (sentPayloads realText r) ++ rest) =
      some (expected realText r, lastSeq c.seq (sentPayloads realText r), rest) := by
  constructor
  · rintro ⟨bytes, hwritten, hread⟩
    rw [sendQueryResult_eq] at hwritten hread
    obtain rfl := List.append_cancel_left hwritten
    exact hread
  · intro hread
    refine ⟨packets c.seq (sentPayloads realText r), by rw [sendQueryResult_eq], ?_⟩
    rw [sendQueryResult_eq]
    exact hread

theorem Framed.small (h : Framed realText r c) : ∀ p ∈ sentPayloads realText r, p.length < 16777215 :=
  (inStep_iff c.seq (sentPayloads realText r)).mp fun rest => (framed_iff_read.mp h rest).1

theorem Framed.columns_ne (h : Framed realText r c) : r.columns ≠ [] := by
  intro hempty
  have hresult := (framed_iff_read.mp h []).2
  rw [sentPayloads, hempty, List.map_nil, readResultSet_noColumns] at hresult
  cases hresult

theorem Framed.rect (h : Framed realText r c) : ∀ row ∈ r.rows, row.length = r.columns.length := by
  intro row hrow
  have hpos : r.columns.length ≠ 0 := fun hzero => h.columns_ne (List.length_eq_zero_iff.mp hzero)
  have hfirst : (encodeLenencInt r.columns.length).length < 16777215 := by
    have hsmall := (List.forall_mem_cons.mp h.small).1
    rwa [List.length_map] at hsmall
  have hresult := (framed_iff_read.mp h []).2
  rw [sentPayloads, payloads, List.length_map, packets, List.append_assoc] at hresult
  have hlen := length_readResultSet hpos r.columns_lt hfirst hresult _ (List.mem_map_of_mem hrow)
  rwa [List.length_map] at hlen

theorem Framed.values_ne (h : Framed realText r c) : ∀ row ∈ r.rows, ∀ v ∈ row, v ≠ .Null := by
  have hsame := (framed_iff_read.mp h []).2.symm.trans (readResultSet_sent h.columns_ne h.rect h.small c.seq [])
  rw [Option.some.injEq, Prod.mk.injEq] at hsame
  exact expected_rows_iff.mp (congrArg ResultSet.rows hsame.1)

-- A client recovers the result of a query exactly when it has a column, each row is as wide as the columns, no
-- cell is `NULL` and no payload needs a continuation.
theorem framed_iff (realText : UInt64 → List UInt8) (r : QueryResult) (c : Connection) :
    Framed realText r c ↔ r.columns ≠ [] ∧ (∀ row ∈ r.rows, row.length = r.columns.length) ∧
      (∀ row ∈ r.rows, ∀ v ∈ row, v ≠ .Null) ∧ ∀ p ∈ sentPayloads realText r, p.length < 16777215 := by
  constructor
  · intro h
    exact ⟨h.columns_ne, h.rect, h.values_ne, h.small⟩
  · rintro ⟨hne, hrect, hvalues, hsmall⟩
    refine framed_iff_read.mpr fun rest => ⟨readPackets_packets hsmall c.seq rest, ?_⟩
    rw [readResultSet_sent hne hrect hsmall, ← expected_rows_iff.mpr hvalues]
    rfl

def nullResult : QueryResult where
  columns := ["NULL"]
  rows := [[.Null]]
  columns_lt := by decide

theorem framed_nullResult : ¬∀ (realText : UInt64 → List UInt8) (r : QueryResult) (c : Connection),
    Framed realText r c := by
  intro hall
  have hframed := hall (fun _ => []) nullResult ⟨1, []⟩
  exact hframed.values_ne [.Null] List.mem_cons_self .Null List.mem_cons_self rfl

end Correctness

end Kkdb.Mysql
