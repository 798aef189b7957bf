import Kkdb.Wal.Recovery

namespace Kkdb

open Lib

structure WalHeader.Valid (h : WalHeader) : Prop where
  version : h.version = WAL_VERSION
  pageSize : h.pageSize < 2 ^ 32
  salt1 : h.salt1 < 2 ^ 32
  salt2 : h.salt2 < 2 ^ 32

namespace WalHeader

@[simp] theorem length_serialize (h : WalHeader) : h.serialize.length = WAL_HEADER_SIZE := by
  simp [serialize, WAL_MAGIC, WAL_HEADER_SIZE]

theorem drop_serialize (h : WalHeader) : h.serialize.take 4 = WAL_MAGIC ∧
    (h.serialize.drop 4).take 4 = leBytes 4 h.version ∧
    (h.serialize.drop 8).take 8 = h.dbUuidPrefix.toList ∧
    (h.serialize.drop 16).take 4 = leBytes 4 h.pageSize ∧
    (h.serialize.drop 20).take 4 = leBytes 4 h.salt1 ∧
    (h.serialize.drop 24).take 4 = leBytes 4 h.salt2 := by
  simp (disch := simp) [serialize, WAL_MAGIC, List.drop_append, List.take_append,
    List.drop_eq_nil_of_le]

theorem deserialize_serialize {h : WalHeader} (hv : h.Valid) : deserialize h.serialize = .ok h := by
  obtain ⟨h₀, h₁, h₂, h₃, h₄, h₅⟩ := h.drop_serialize
  have hversion : leNat (leBytes 4 h.version) = WAL_VERSION := by
    rw [hv.version, leNat_leBytes_of_lt (by decide)]
  unfold deserialize
  rw [if_neg (by simp), if_neg (by simp [h₀]), h₁, hversion, if_neg (by simp), h₂, h₃, h₄, h₅,
    Buf.ofList_toList, leNat_leBytes_of_lt (by simpa using hv.pageSize),
    leNat_leBytes_of_lt (by simpa using hv.salt1), leNat_leBytes_of_lt (by simpa using hv.salt2),
    ← hv.version]

theorem valid_new (dbUuid : Buf 16) (nanos : Nat) : (new dbUuid nanos).Valid where
  version := rfl
  pageSize := (by decide : PAGE_SIZE < 2 ^ 32)
  salt1 := Nat.mod_lt _ (by decide)
  salt2 := Nat.mod_lt _ (by decide)

theorem valid_of_deserialize {bytes : List UInt8} {h : WalHeader} (hok : deserialize bytes = .ok h) :
    h.Valid := by
  unfold deserialize at hok
  split_ifs at hok with _ _ hversion
  obtain rfl := Except.ok.inj hok
  have hlt : ∀ n, leNat ((bytes.drop n).take 4) < 2 ^ 32 := by
    intro n
    refine Nat.lt_of_lt_of_le (leNat_lt _) ?_
    exact Nat.pow_le_pow_right (by decide : 0 < 256) (List.length_take_le 4 _)
  exact ⟨by simpa using hversion, hlt 16, hlt 20, hlt 24⟩

end WalHeader

structure WalFrame.Fits (f : WalFrame) : Prop where
  pageNum : f.pageNum < 2 ^ 32
  commitSize : f.commitSize < 2 ^ 32

namespace WalFrame

@[simp] theorem length_front (f : WalFrame) (salt1 salt2 : Nat) : (f.front salt1 salt2).length = 16 := by
  simp [front]

@[simp] theorem length_serialize (f : WalFrame) (salt1 salt2 : Nat) :
    (f.serialize salt1 salt2).length = WAL_FRAME_SIZE := by
  simp [serialize, WAL_FRAME_SIZE, WAL_FRAME_HEADER_SIZE]
  omega

theorem drop_fields {a b c d e g : List UInt8} (rest : List UInt8) (ha : a.length = 4)
    (hb : b.length = 4) (hc : c.length = 4) (hd : d.length = 4) (he : e.length = 4) (hg : g.length = 4) :
    let bytes := a ++ (b ++ (c ++ (d ++ (e ++ (g ++ rest)))))
    bytes.take 4 = a ∧ (bytes.drop 4).take 4 = b ∧ (bytes.drop 8).take 4 = c ∧
    (bytes.drop 12).take 4 = d ∧ bytes.take 16 = a ++ (b ++ (c ++ d)) ∧
    (bytes.drop 16).take 4 = e ∧ bytes.drop 24 = rest := by
  simp (disch := simp [*]) [List.drop_append, List.take_append, List.drop_eq_nil_of_le,
    List.take_of_length_le, ha, hb, hc, hd, he]

theorem drop_serialize (f : WalFrame) (salt1 salt2 : Nat) :
    let bytes := f.serialize salt1 salt2
    bytes.take 4 = leBytes 4 f.pageNum ∧ (bytes.drop 4).take 4 = leBytes 4 f.commitSize ∧
    (bytes.drop 8).take 4 = leBytes 4 salt1 ∧ (bytes.drop 12).take 4 = leBytes 4 salt2 ∧
    bytes.take 16 = f.front salt1 salt2 ∧
    (bytes.drop 16).take 4 = leBytes 4 (checksum32 (f.front salt1 salt2 ++ f.data.toList)) ∧
    bytes.drop WAL_FRAME_HEADER_SIZE = f.data.toList := by
  have hbytes : f.serialize salt1 salt2 = leBytes 4 f.pageNum ++ (leBytes 4 f.commitSize ++
      (leBytes 4 salt1 ++ (leBytes 4 salt2 ++ (leBytes 4
        (checksum32 (f.front salt1 salt2 ++ f.data.toList)) ++ (leBytes 4 0 ++ f.data.toList))))) := by
    simp only [serialize, front, List.append_assoc]
  rw [hbytes]
  exact drop_fields f.data.toList (length_leBytes _ _) (length_leBytes _ _) (length_leBytes _ _)
    (length_leBytes _ _) (length_leBytes _ _) (length_leBytes _ _)

theorem deserialize_serialize {f : WalFrame} (hf : f.Fits) {salt1 salt2 : Nat} (h₁ : salt1 < 2 ^ 32)
    (h₂ : salt2 < 2 ^ 32) : deserialize (f.serialize salt1 salt2) salt1 salt2 = .ok f := by
  obtain ⟨hpage, hcommit, hs₁, hs₂, hfront, hsum, hdata⟩ := f.drop_serialize salt1 salt2
  have hfull : f.data.toList.take PAGE_SIZE = f.data.toList :=
    List.take_of_length_le (Nat.le_of_eq (Buf.length_toList _))
  have hsum' : leNat (leBytes 4 (checksum32 (f.front salt1 salt2 ++ f.data.toList))) =
      checksum32 (f.front salt1 salt2 ++ f.data.toList) :=
    leNat_leBytes_of_lt (by simpa using SuperblockV2.checksum32_lt _)
  unfold deserialize
  rw [if_neg (by simp), hs₁, hs₂, leNat_leBytes_of_lt (by simpa using h₁),
    leNat_leBytes_of_lt (by simpa using h₂), if_neg (by simp), hfront, hdata, hfull, hsum, hsum',
    if_neg (by simp), hpage, hcommit, leNat_leBytes_of_lt (by simpa using hf.pageNum),
    leNat_leBytes_of_lt (by simpa using hf.commitSize), Buf.ofList_toList]

end WalFrame

end Kkdb
