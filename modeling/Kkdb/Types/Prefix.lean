import Kkdb.Types.Decode

namespace Kkdb

open Lib Varint

def U16_MAX : Nat := 65535

-- The bytes that two keys start with alike, as many as one byte can count.
def sharedLen (prev cur : List UInt8) : Nat :=
  min ((prev.zip cur).takeWhile fun p => p.1 = p.2).length 255

-- A suffix that is too long for its length field is given up for the start of the key.
def prefixEncode (prev cur : List UInt8) : List UInt8 :=
  let shared := sharedLen prev cur
  let suffix := cur.drop shared
  if U16_MAX < suffix.length then 0 :: (leBytes 2 U16_MAX ++ cur.take U16_MAX)
  else UInt8.ofNat shared :: (leBytes 2 suffix.length ++ suffix)

def prefixDecode (prev encoded : List UInt8) : List UInt8 :=
  if encoded.length < 3 then encoded
  else
    let shared := (encoded.headD 0).toNat
    let suffixLen := leNat ((encoded.drop 1).take 2)
    let suffix :=
      if 3 + suffixLen ≤ encoded.length then (encoded.drop 3).take suffixLen else encoded.drop 3
    prev.take (min shared prev.length) ++ suffix

-- Only a text in the first column is taken relative to the previous key.
def serializeIndexRowCompressed (row : Row) (prevKey : List UInt8) : List UInt8 × List UInt8 :=
  match row with
  | .Text t :: rest =>
      let encoded := prefixEncode prevKey (textBytes t)
      (writeVarintU64 (UInt64.ofNat row.length) ++ 0x03 :: (writeVarintU64 (UInt64.ofNat encoded.length) ++
        (encoded ++ rest.flatMap Value.serialize)), textBytes t)
  | _ => (writeVarintU64 (UInt64.ofNat row.length) ++ row.flatMap Value.serialize, prevKey)

-- The encoded text whose tag is at the offset: the text, its bytes and the offset behind it. A length
-- for which the sum overflows makes the slice panic.
def readKey (data prevKey : List UInt8) (offset : Nat) : Res (String × List UInt8 × Nat) := do
  let (encLen, consumed) ← readVarintU64 (data.drop (offset + 1))
  let start := offset + 1 + consumed
  if 18446744073709551616 ≤ start + encLen then
    throw .Panic
  if data.length < start + encLen then
    throw (corrupt s!"prefix-compressed index payload truncated: enc_end={start + encLen} > data_len={data.length}")
  let decoded := prefixDecode prevKey ((data.drop start).take encLen)
  match fromUtf8 decoded with
  | some s => return (s, decoded, start + encLen)
  | none => throw (corrupt "invalid utf-8 in index key")

def indexColumns (data prevKey : List UInt8) (count offset : Nat) : Res (Row × List UInt8) :=
  match count with
  | 0 => .ok ([], prevKey)
  | count + 1 =>
      if data[offset]? = some 0x03 then do
        let (s, decoded, encEnd) ← readKey data prevKey offset
        let rest ← deserializeColumns data count encEnd
        return (.Text s :: rest, decoded)
      else do
        let row ← deserializeColumns data (count + 1) offset
        return (row, prevKey)

def deserializeIndexRowWithPrefix (data prevKey : List UInt8) : Res (Row × List UInt8) :=
  if data.isEmpty then .error (corrupt "row data too short")
  else do
    let (colCount, offset) ← readVarintU64 data
    if MAX_COLUMNS < colCount then
      throw (corrupt s!"index row col_count {colCount} exceeds MAX_COLUMNS {MAX_COLUMNS}")
    indexColumns data prevKey colCount offset

structure PrefixPageEncoder where
  prevKey : List UInt8

structure PrefixPageDecoder where
  prevKey : List UInt8

def PrefixPageEncoder.new : PrefixPageEncoder := ⟨[]⟩

def PrefixPageDecoder.new : PrefixPageDecoder := ⟨[]⟩

def PrefixPageEncoder.encode (self : PrefixPageEncoder) (row : Row) : List UInt8 × PrefixPageEncoder :=
  let (bytes, newPrev) := serializeIndexRowCompressed row self.prevKey
  (bytes, ⟨newPrev⟩)

def PrefixPageDecoder.decode (self : PrefixPageDecoder) (data : List UInt8) :
    Res (Row × PrefixPageDecoder) := do
  let (row, newPrev) ← deserializeIndexRowWithPrefix data self.prevKey
  return (row, ⟨newPrev⟩)

def encodePage : PrefixPageEncoder → List Row → List (List UInt8)
  | _, [] => []
  | encoder, row :: rows => (encoder.encode row).1 :: encodePage (encoder.encode row).2 rows

def decodePage : PrefixPageDecoder → List (List UInt8) → Res (List Row)
  | _, [] => .ok []
  | decoder, data :: rest => do
      let (row, decoder) ← decoder.decode data
      let rows ← decodePage decoder rest
      return row :: rows

section Keys

variable {prev cur suffix : List UInt8} {shared : Nat}

theorem zip_takeWhile (prev cur : List UInt8) {n : Nat}
    (hn : n ≤ ((prev.zip cur).takeWhile fun p => p.1 = p.2).length) :
    n ≤ prev.length ∧ prev.take n = cur.take n := by
  induction prev generalizing cur n with
  | nil =>
      obtain rfl : n = 0 := Nat.le_zero.mp hn
      exact ⟨Nat.le_refl _, rfl⟩
  | cons a prev ih =>
      cases cur with
      | nil =>
          obtain rfl : n = 0 := Nat.le_zero.mp hn
          exact ⟨Nat.zero_le _, rfl⟩
      | cons b cur =>
          cases n with
          | zero => exact ⟨Nat.zero_le _, rfl⟩
          | succ n =>
              rw [List.zip_cons_cons, List.takeWhile_cons] at hn
              by_cases hab : a = b
              · rw [if_pos (by simpa using hab), List.length_cons] at hn
                obtain ⟨hle, htake⟩ := ih cur (Nat.le_of_succ_le_succ hn)
                refine ⟨by rw [List.length_cons]; omega, ?_⟩
                rw [List.take_succ_cons, List.take_succ_cons, htake, hab]
              · rw [if_neg (by simpa using hab)] at hn
                cases hn

theorem sharedLen_le (prev cur : List UInt8) : sharedLen prev cur ≤ 255 ∧ sharedLen prev cur ≤ prev.length :=
  ⟨Nat.min_le_right _ _, (zip_takeWhile prev cur (Nat.min_le_left _ _)).1⟩

theorem take_sharedLen (prev cur : List UInt8) :
    prev.take (sharedLen prev cur) = cur.take (sharedLen prev cur) :=
  (zip_takeWhile prev cur (Nat.min_le_left _ _)).2

theorem prefixDecode_parts (hshared : shared ≤ 255) (hle : shared ≤ prev.length)
    (hlen : suffix.length ≤ U16_MAX) :
    prefixDecode prev (UInt8.ofNat shared :: (leBytes 2 suffix.length ++ suffix)) =
      prev.take shared ++ suffix := by
  unfold U16_MAX at hlen
  have hlong : (UInt8.ofNat shared :: (leBytes 2 suffix.length ++ suffix)).length = 3 + suffix.length := by
    rw [List.length_cons, List.length_append, length_leBytes]
    omega
  have hbyte : (UInt8.ofNat shared).toNat = shared := by
    rw [UInt8.toNat_ofNat']
    omega
  have hcount : leNat ((leBytes 2 suffix.length ++ suffix).take 2) = suffix.length := by
    rw [List.take_left' (length_leBytes _ _), leNat_leBytes_of_lt (by omega)]
  have hdrop : (leBytes 2 suffix.length ++ suffix).drop 2 = suffix := List.drop_left' (length_leBytes _ _)
  rw [prefixDecode, if_neg (by omega)]
  simp only [List.headD_cons, List.drop_succ_cons, List.drop_zero, hbyte, hcount, hdrop]
  rw [if_pos (by omega), List.take_length, Nat.min_eq_left hle]

theorem prefixDecode_prefixEncode (prev cur : List UInt8) :
    prefixDecode prev (prefixEncode prev cur) =
      if cur.length ≤ sharedLen prev cur + U16_MAX then cur else cur.take U16_MAX := by
  obtain ⟨h255, hprev⟩ := sharedLen_le prev cur
  by_cases hfit : cur.length ≤ sharedLen prev cur + U16_MAX
  · have hsuffix : (cur.drop (sharedLen prev cur)).length ≤ U16_MAX := by
      rw [List.length_drop]
      omega
    rw [if_pos hfit, prefixEncode, if_neg (by omega), prefixDecode_parts h255 hprev hsuffix, take_sharedLen,
      List.take_append_drop]
  · have hsuffix : U16_MAX < (cur.drop (sharedLen prev cur)).length := by
      rw [List.length_drop]
      omega
    have hcut : (cur.take U16_MAX).length = U16_MAX := by
      rw [List.length_take]
      omega
    have hparts : prefixDecode prev (UInt8.ofNat 0 ::
        (leBytes 2 (cur.take U16_MAX).length ++ cur.take U16_MAX)) =
        prev.take 0 ++ cur.take U16_MAX :=
      prefixDecode_parts (by omega) (by omega) (by omega)
    rw [hcut] at hparts
    rw [if_neg hfit, prefixEncode, if_pos hsuffix]
    exact hparts

theorem length_prefixEncode_le (prev cur : List UInt8) : (prefixEncode prev cur).length ≤ 3 + U16_MAX := by
  unfold prefixEncode
  dsimp only
  split_ifs
  · rw [List.length_cons, List.length_append, length_leBytes, List.length_take]
    omega
  · rw [List.length_cons, List.length_append, length_leBytes]
    omega

end Keys

section Rows

variable {data prev : List UInt8} {row : Row} {t : String} {rest : Row} {next : List UInt8} {offset : Nat}

def plainValues : Row → List Value
  | .Text _ :: rest => rest
  | row => row

-- The row comes back: the reader's limits admit it, and the suffix of its key fits.
def RowFits (prev : List UInt8) (row : Row) : Prop :=
  row.length ≤ MAX_COLUMNS ∧ (∀ v ∈ plainValues row, v.Readable) ∧
    ∀ t ∈ row.head?, ∀ s, t = Value.Text s →
      (textBytes s).length ≤ sharedLen prev (textBytes s) + U16_MAX

theorem toNat_length {n : Nat} (h : n ≤ MAX_COLUMNS) : (UInt64.ofNat n).toNat = n := by
  rw [UInt64.toNat_ofNat']
  unfold MAX_COLUMNS at h
  omega

theorem serialize_head_ne {v : Value} (h : ∀ s, v ≠ .Text s) (tail : List UInt8) :
    (v.serialize ++ tail)[0]? ≠ some 0x03 := by
  cases v with
  | Text s => exact absurd rfl (h s)
  | Null => simp [Value.serialize]
  | Integer v => simp [Value.serialize]
  | Real bits => simp [Value.serialize]
  | Blob v => simp [Value.serialize]

theorem length_writeVarintU64_le (val : UInt64) : (writeVarintU64 val).length ≤ 10 :=
  writeGroups_length_le 10 _

-- An encoded text behind what is already read.
def keyBytes (encoded : List UInt8) : List UInt8 :=
  0x03 :: (writeVarintU64 (UInt64.ofNat encoded.length) ++ encoded)

-- The encoded text is read back if it is valid, whatever the writer had to cut off it.
theorem readKey_append (front tail prev : List UInt8) {encoded : List UInt8} (hfront : front.length ≤ 10)
    (hlen : encoded.length ≤ 3 + U16_MAX) :
    readKey (front ++ (keyBytes encoded ++ tail)) prev front.length =
      (fromUtf8 (prefixDecode prev encoded)).elim (.error (corrupt "invalid utf-8 in index key"))
        fun s => .ok (s, prefixDecode prev encoded, (front ++ keyBytes encoded).length) := by
  unfold U16_MAX at hlen
  have hcount : (UInt64.ofNat encoded.length).toNat = encoded.length := by
    rw [UInt64.toNat_ofNat']
    omega
  have hvarint := length_writeVarintU64_le (UInt64.ofNat encoded.length)
  have hread := readVarintU64_write (UInt64.ofNat encoded.length) (encoded ++ tail)
  rw [hcount] at hread
  have hdrop : (front ++ (keyBytes encoded ++ tail)).drop (front.length + 1) =
      writeVarintU64 (UInt64.ofNat encoded.length) ++ (encoded ++ tail) := by
    rw [keyBytes, List.drop_length_add_append, List.cons_append, List.drop_one, List.tail_cons,
      List.append_assoc]
  have hbody : (front ++ (keyBytes encoded ++ tail)).drop
      (front.length + 1 + (writeVarintU64 (UInt64.ofNat encoded.length)).length) = encoded ++ tail := by
    rw [← List.drop_drop, hdrop, List.drop_left]
  have htotal : (front ++ (keyBytes encoded ++ tail)).length =
      front.length + 1 + (writeVarintU64 (UInt64.ofNat encoded.length)).length + encoded.length +
        tail.length := by
    rw [keyBytes]
    simp only [List.length_append, List.length_cons]
    omega
  have hstop : (front ++ keyBytes encoded).length =
      front.length + 1 + (writeVarintU64 (UInt64.ofNat encoded.length)).length + encoded.length := by
    rw [keyBytes]
    simp only [List.length_append, List.length_cons]
    omega
  rw [readKey, hdrop, hread, hstop]
  simp only [bind, Except.bind]
  rw [if_neg (by omega), if_neg (by omega), hbody, List.take_left]
  cases fromUtf8 (prefixDecode prev encoded) with
  | none => rfl
  | some s => rfl

theorem serializeIndexRowCompressed_text (t : String) (rest : Row) (prev : List UInt8) :
    serializeIndexRowCompressed (.Text t :: rest) prev =
      (writeVarintU64 (UInt64.ofNat (rest.length + 1)) ++ (keyBytes (prefixEncode prev (textBytes t)) ++
        rest.flatMap Value.serialize), textBytes t) := by
  rw [serializeIndexRowCompressed, keyBytes]
  simp only [List.length_cons, List.cons_append, List.append_assoc]

theorem serializeIndexRowCompressed_plain (h : ∀ s, row.head? ≠ some (.Text s)) (prev : List UInt8) :
    serializeIndexRowCompressed row prev = (serializeRow row, prev) := by
  unfold serializeIndexRowCompressed
  split
  · exact absurd rfl (h _)
  · rfl

theorem plainValues_plain (h : ∀ s, row.head? ≠ some (.Text s)) : plainValues row = row := by
  unfold plainValues
  split
  · exact absurd rfl (h _)
  · rfl

theorem deserializeColumns_iff (front : List UInt8) (row : Row) :
    deserializeColumns (front ++ row.flatMap Value.serialize) row.length front.length = .ok row ↔
      ∀ v ∈ row, v.Readable := by
  constructor
  · exact fun h => (deserializeColumns_spec h).2
  · intro h
    have hcols := deserializeColumns_append front row [] h
    rwa [List.append_nil] at hcols

theorem indexColumns_plain (front prev : List UInt8) (h : ∀ s, row.head? ≠ some (.Text s)) :
    indexColumns (front ++ row.flatMap Value.serialize) prev row.length front.length =
      deserializeColumns (front ++ row.flatMap Value.serialize) row.length front.length >>= fun row' =>
        .ok (row', prev) := by
  cases row with
  | nil => rfl
  | cons v rest =>
      have hv : ∀ s, v ≠ .Text s := fun s hs => h s (by rw [hs, List.head?_cons])
      have htag : (front ++ (v :: rest).flatMap Value.serialize)[front.length]? ≠ some 0x03 := by
        rw [List.getElem?_append_right (Nat.le_refl _), Nat.sub_self, List.flatMap_cons]
        exact serialize_head_ne hv _
      rw [List.length_cons, indexColumns, if_neg htag]
      rfl

theorem indexColumns_text (front prev : List UInt8) {encoded : List UInt8} (rest : Row)
    (hfront : front.length ≤ 10)
    (hlen : encoded.length ≤ 3 + U16_MAX) :
    indexColumns (front ++ (keyBytes encoded ++ rest.flatMap Value.serialize)) prev
      (rest.length + 1) front.length =
      (fromUtf8 (prefixDecode prev encoded)).elim (.error (corrupt "invalid utf-8 in index key")) fun s =>
        deserializeColumns ((front ++ keyBytes encoded) ++ rest.flatMap Value.serialize) rest.length
          (front ++ keyBytes encoded).length >>= fun rest' =>
            .ok (.Text s :: rest', prefixDecode prev encoded) := by
  have htag : (front ++ (keyBytes encoded ++ rest.flatMap Value.serialize))[front.length]? = some 0x03 := by
    rw [List.getElem?_append_right (Nat.le_refl _), Nat.sub_self]
    rfl
  rw [indexColumns, if_pos htag, readKey_append front _ prev hfront hlen, List.append_assoc]
  cases fromUtf8 (prefixDecode prev encoded) with
  | none => rfl
  | some s => rfl

theorem indexColumns_length {count : Nat} (h : indexColumns data prev count offset = .ok (row, next)) :
    row.length = count := by
  cases count with
  | zero =>
      obtain ⟨rfl, -⟩ := Prod.mk.inj (Except.ok.inj h)
      rfl
  | succ count =>
      rw [indexColumns] at h
      split_ifs at h
      · obtain ⟨⟨s, decoded, stop⟩, -, h⟩ := ok_of_bind h
        obtain ⟨rest, hrest, h⟩ := ok_of_bind h
        obtain ⟨rfl, -⟩ := Prod.mk.inj (Except.ok.inj h)
        rw [List.length_cons, (deserializeColumns_spec hrest).1]
      · obtain ⟨row', hrow, h⟩ := ok_of_bind h
        obtain ⟨rfl, -⟩ := Prod.mk.inj (Except.ok.inj h)
        exact (deserializeColumns_spec hrow).1

theorem deserializeIndexRow_length (h : deserializeIndexRowWithPrefix data prev = .ok (row, next)) :
    row.length ≤ MAX_COLUMNS := by
  rw [deserializeIndexRowWithPrefix] at h
  split_ifs at h
  obtain ⟨⟨colCount, offset⟩, -, h⟩ := ok_of_bind h
  obtain ⟨hfew, h⟩ := ok_of_check h
  rw [indexColumns_length h]
  exact Nat.not_lt.mp hfew

theorem deserializeIndexRow_append {n : Nat} (body prev : List UInt8) (hn : n ≤ MAX_COLUMNS) :
    deserializeIndexRowWithPrefix (writeVarintU64 (UInt64.ofNat n) ++ body) prev =
      indexColumns (writeVarintU64 (UInt64.ofNat n) ++ body) prev n
        (writeVarintU64 (UInt64.ofNat n)).length := by
  have hread := readVarintU64_write (UInt64.ofNat n) body
  rw [toNat_length hn] at hread
  have hne : (writeVarintU64 (UInt64.ofNat n) ++ body).isEmpty = false := by
    have hpos := writeVarintU64_length_pos (UInt64.ofNat n)
    rw [List.isEmpty_eq_false_iff, ← List.length_pos_iff, List.length_append]
    omega
  rw [deserializeIndexRowWithPrefix, hne, if_neg Bool.false_ne_true, hread]
  simp only [bind, Except.bind]
  rw [if_neg (Nat.not_lt.mpr hn)]

theorem rowFits_plain (h : ∀ s, row.head? ≠ some (.Text s)) :
    RowFits prev row ↔ row.length ≤ MAX_COLUMNS ∧ ∀ v ∈ row, v.Readable := by
  rw [RowFits, plainValues_plain h]
  refine and_congr_right fun _ => and_iff_left fun v hv s hs => ?_
  exact absurd (by rw [Option.mem_def.mp hv, hs]) (h s)

theorem rowFits_text : RowFits prev (.Text t :: rest) ↔ rest.length + 1 ≤ MAX_COLUMNS ∧
    (∀ v ∈ rest, v.Readable) ∧ (textBytes t).length ≤ sharedLen prev (textBytes t) + U16_MAX := by
  rw [RowFits, List.length_cons, plainValues]
  refine and_congr_right fun _ => and_congr_right fun _ => ⟨fun h => h _ rfl t rfl, fun h v hv s hs => ?_⟩
  obtain rfl := Option.some.inj hv
  obtain rfl := Value.Text.inj hs
  exact h

theorem bind_pair_iff {α β : Type} {x : Res α} {a : α} {b c : β} :
    (x >>= fun r => .ok (r, b)) = .ok (a, c) ↔ x = .ok a ∧ c = b := by
  constructor
  · intro h
    obtain ⟨r, hx, h⟩ := ok_of_bind h
    obtain ⟨rfl, rfl⟩ := Prod.mk.inj (Except.ok.inj h)
    exact ⟨hx, rfl⟩
  · rintro ⟨rfl, rfl⟩
    rfl

-- A key that the writer had to cut is not read back.
theorem decoded_key_iff (prev : List UInt8) (t : String) :
    fromUtf8 (prefixDecode prev (prefixEncode prev (textBytes t))) = some t ↔
      (textBytes t).length ≤ sharedLen prev (textBytes t) + U16_MAX := by
  rw [prefixDecode_prefixEncode]
  by_cases hfit : (textBytes t).length ≤ sharedLen prev (textBytes t) + U16_MAX
  · rw [if_pos hfit]
    exact ⟨fun _ => hfit, fun _ => fromUtf8_textBytes t⟩
  · rw [if_neg hfit]
    refine ⟨fun h => ?_, fun h => absurd h hfit⟩
    have hlen := congrArg List.length (Value.textBytes_of_fromUtf8 h)
    rw [List.length_take] at hlen
    omega

theorem deserializeIndexRow_serialize_iff (row : Row) (prev next : List UInt8) :
    deserializeIndexRowWithPrefix (serializeIndexRowCompressed row prev).1 prev = .ok (row, next) ↔
      RowFits prev row ∧ next = (serializeIndexRowCompressed row prev).2 := by
  by_cases hmany : row.length ≤ MAX_COLUMNS
  · by_cases hplain : ∀ s, row.head? ≠ some (.Text s)
    · rw [serializeIndexRowCompressed_plain hplain, serializeRow, deserializeIndexRow_append _ _ hmany,
        indexColumns_plain _ _ hplain, bind_pair_iff, deserializeColumns_iff, rowFits_plain hplain]
      exact and_congr_left fun _ => (and_iff_right hmany).symm
    · obtain ⟨t, ht⟩ := not_forall_not.mp hplain
      obtain ⟨rest, rfl⟩ := List.head?_eq_some_iff.mp ht
      rw [List.length_cons] at hmany
      rw [serializeIndexRowCompressed_text, deserializeIndexRow_append _ _ hmany,
        indexColumns_text _ _ _ (length_writeVarintU64_le _) (length_prefixEncode_le _ _), rowFits_text]
      have hkey := decoded_key_iff prev t
      constructor
      · intro h
        cases hs : fromUtf8 (prefixDecode prev (prefixEncode prev (textBytes t))) with
        | none =>
            rw [hs] at h
            cases h
        | some s =>
            rw [hs] at h
            obtain ⟨rest', hrest, h⟩ := ok_of_bind h
            obtain ⟨hrow, rfl⟩ := Prod.mk.inj (Except.ok.inj h)
            obtain ⟨hst, rfl⟩ := List.cons.inj hrow
            obtain rfl := Value.Text.inj hst
            exact ⟨⟨hmany, (deserializeColumns_iff _ _).mp hrest, hkey.mp hs⟩,
              (Value.textBytes_of_fromUtf8 hs).symm⟩
      · rintro ⟨⟨-, hrest, hfit⟩, rfl⟩
        have hdecoded := hkey.mpr hfit
        rw [hdecoded, Option.elim_some, (deserializeColumns_iff _ _).mpr hrest,
          ← Value.textBytes_of_fromUtf8 hdecoded]
        rfl
  · constructor
    · exact fun h => absurd (deserializeIndexRow_length h) hmany
    · exact fun h => absurd h.1.1 hmany

end Rows

section Pages

def PageFits (encoder : PrefixPageEncoder) : List Row → Prop
  | [] => True
  | row :: rows => RowFits encoder.prevKey row ∧ PageFits (encoder.encode row).2 rows

theorem decode_encode_iff (row : Row) (key : List UInt8) (decoder : PrefixPageDecoder) :
    (PrefixPageDecoder.mk key).decode ((PrefixPageEncoder.mk key).encode row).1 = .ok (row, decoder) ↔
      RowFits key row ∧ decoder = ⟨((PrefixPageEncoder.mk key).encode row).2.prevKey⟩ := by
  have hiff := deserializeIndexRow_serialize_iff row key
  constructor
  · intro h
    obtain ⟨⟨row', next⟩, hrow, h⟩ := ok_of_bind h
    obtain ⟨rfl, rfl⟩ := Prod.mk.inj (Except.ok.inj h)
    obtain ⟨hfits, rfl⟩ := (hiff next).mp hrow
    exact ⟨hfits, rfl⟩
  · rintro ⟨hfits, rfl⟩
    have hrow := (hiff _).mpr ⟨hfits, rfl⟩
    unfold PrefixPageDecoder.decode
    rw [PrefixPageEncoder.encode]
    simp only
    rw [hrow]
    rfl

-- The decoder has the key of the encoder at every step, since the rows read so far are those written.
theorem decodePage_encodePage_iff (rows : List Row) (key : List UInt8) :
    decodePage ⟨key⟩ (encodePage ⟨key⟩ rows) = .ok rows ↔ PageFits ⟨key⟩ rows := by
  induction rows generalizing key with
  | nil => exact iff_of_true rfl trivial
  | cons row rows ih =>
      have hstep := decode_encode_iff row key
      rw [encodePage, decodePage, PageFits]
      constructor
      · intro h
        obtain ⟨⟨row', decoder⟩, hrow, h⟩ := ok_of_bind h
        obtain ⟨rows', hrows, h⟩ := ok_of_bind h
        obtain ⟨rfl, rfl⟩ := List.cons.inj (Except.ok.inj h)
        obtain ⟨hfits, rfl⟩ := (hstep decoder).mp hrow
        exact ⟨hfits, (ih _).mp hrows⟩
      · rintro ⟨hfits, hrest⟩
        rw [(hstep _).mpr ⟨hfits, rfl⟩]
        have hrows : decodePage ⟨((PrefixPageEncoder.mk key).encode row).2.prevKey⟩
            (encodePage ((PrefixPageEncoder.mk key).encode row).2 rows) = .ok rows := (ih _).mpr hrest
        simp only [bind, Except.bind]
        rw [hrows]
        rfl

-- A fresh decoder gives back the rows of a fresh encoder exactly when each of them fits.
theorem page_round_trip_iff (rows : List Row) :
    decodePage .new (encodePage .new rows) = .ok rows ↔ PageFits .new rows :=
  decodePage_encodePage_iff rows []

def longKey : String := String.ofList (List.replicate 65536 'a')

theorem length_textBytes_cons (c : Char) (l : List Char) :
    (textBytes (String.ofList (c :: l))).length = c.utf8Size + (textBytes (String.ofList l)).length := by
  have hc : [c].utf8Encode.data.size = c.utf8Size := by
    rw [List.utf8Encode_singleton]
    simp
  simp [textBytes, hc]

theorem length_textBytes_replicate (n : Nat) :
    (textBytes (String.ofList (List.replicate n 'a'))).length = n := by
  induction n with
  | zero => rfl
  | succ n ih =>
      rw [List.replicate_succ, length_textBytes_cons, ih, Nat.add_comm]
      rfl

-- The first key of a page shares nothing with the empty key.
theorem longKey_lost : decodePage .new (encodePage .new [[.Text longKey]]) ≠ .ok [[.Text longKey]] := by
  intro h
  obtain ⟨-, -, hfit⟩ := ((decodePage_encodePage_iff _ []).mp h).1
  have hlen : (textBytes longKey).length = 65536 := length_textBytes_replicate 65536
  have hshort := hfit _ rfl longKey rfl
  rw [hlen] at hshort
  exact absurd hshort (by decide)

end Pages

end Kkdb
