import Kkdb.Lib.Codec
import Kkdb.Raft.StateMachine
import Kkdb.Types.Row

namespace Kkdb.Raft

open Lib

-- The texts `serde_json` makes of votes, log ids and of records whose entries are blank, and those it
-- makes of the snapshots of a single node.
namespace Text

def fixed (text : String) : Token := .Fixed (textBytes text)

def leaderId : List Token :=
  [fixed "\x7b\"leader_id\":\x7b\"term\":", .Number, fixed ",\"node_id\":", .Number]

def vote (committed : Bool) : List Token :=
  leaderId ++ [fixed (if committed then "\x7d,\"committed\":true\x7d" else "\x7d,\"committed\":false\x7d")]

def logId : List Token := leaderId ++ [fixed "\x7d,\"index\":", .Number, fixed "\x7d"]

def append : List Token :=
  [fixed "\x7b\"Append\":\x7b\"log_id\":"] ++ logId ++ [fixed ",\"payload\":\"Blank\"\x7d\x7d"]

def truncate : List Token := [fixed "\x7b\"Truncate\":\x7b\"from_index\":", .Number, fixed "\x7d\x7d"]

def readLogId : List Nat → Option LogId
  | [term, nodeId, index] => some ⟨term, nodeId, index⟩
  | _ => none

def readVote (committed : Bool) : List Nat → Option Vote
  | [term, nodeId] => some ⟨term, nodeId, committed⟩
  | _ => none

def voteSerde : Serde Vote where
  toVec v := render (vote v.committed) [v.term, v.nodeId]
  fromSlice bytes :=
    ((parse (vote true) bytes).bind (readVote true)).or ((parse (vote false) bytes).bind (readVote false))

def logIdSerde : Serde LogId where
  toVec l := render logId [l.term, l.nodeId, l.index]
  fromSlice bytes := (parse logId bytes).bind readLogId

def recordSerde : Serde (WalRecord Unit) where
  toVec
    | .Append entry => render append [entry.logId.term, entry.logId.nodeId, entry.logId.index]
    | .Truncate fromIndex => render truncate [fromIndex]
  fromSlice bytes :=
    (((parse append bytes).bind readLogId).map fun l => .Append ⟨l, ()⟩).or
      ((parse truncate bytes).bind fun ns =>
        match ns with
        | [fromIndex] => some (.Truncate fromIndex)
        | _ => none)

def json : Json Unit where
  record := recordSerde
  vote := voteSerde
  logId := logIdSerde

theorem logId_roundTrips : logIdSerde.RoundTrips := by
  intro l
  have hparse := parse_render logId (by decide) [l.term, l.nodeId, l.index] rfl
  simp [logIdSerde, hparse, readLogId]

theorem vote_roundTrips : voteSerde.RoundTrips := by
  intro v
  obtain ⟨term, nodeId, committed⟩ := v
  cases committed with
  | true =>
      have hparse := parse_render (vote true) (by decide) [term, nodeId] rfl
      simp [voteSerde, hparse, readVote]
  | false =>
      have hparse := parse_render (vote false) (by decide) [term, nodeId] rfl
      have hother : parse (vote true) (render (vote false) [term, nodeId]) = none := by
        simpa using parse_other (vote true) (vote false) (b := 117) (by decide) (by decide)
          [term, nodeId] (render (vote false) [term, nodeId]).length
      simp [voteSerde, hparse, hother, readVote]

theorem record_roundTrips : recordSerde.RoundTrips := by
  intro record
  cases record with
  | Append entry =>
      have hparse := parse_render append (by decide)
        [entry.logId.term, entry.logId.nodeId, entry.logId.index] rfl
      simp [recordSerde, hparse, readLogId]
  | Truncate fromIndex =>
      have hparse := parse_render truncate (by decide) [fromIndex] rfl
      have hother : parse append (render truncate [fromIndex]) = none := by
        simpa using parse_other append truncate (b := 65) (by decide) (by decide) [fromIndex]
          (render truncate [fromIndex]).length
      simp [recordSerde, hparse, hother]

theorem logId_rejectsTorn : logIdSerde.RejectsTorn := by
  intro l written hw
  have hnone : parse logId ((render logId [l.term, l.nodeId, l.index]).take written) = none :=
    parse_take (leaderId ++ [fixed "\x7d,\"index\":", .Number]) [] (b := 125) (by decide) _ hw
  simp [logIdSerde, hnone]

theorem vote_rejectsTorn : voteSerde.RejectsTorn := by
  intro v written hw
  obtain ⟨term, nodeId, committed⟩ := v
  cases committed with
  | true =>
      have hsame : parse (vote true) ((render (vote true) [term, nodeId]).take written) = none :=
        parse_take leaderId (textBytes "\x7d,\"committed\":true") (b := 125) (by decide) _ hw
      have hother : parse (vote false) ((render (vote true) [term, nodeId]).take written) = none :=
        parse_other (vote false) (vote true) (b := 102) (by decide) (by decide) _ _
      simp [voteSerde, hsame, hother]
  | false =>
      have hsame : parse (vote false) ((render (vote false) [term, nodeId]).take written) = none :=
        parse_take leaderId (textBytes "\x7d,\"committed\":false") (b := 125) (by decide) _ hw
      have hother : parse (vote true) ((render (vote false) [term, nodeId]).take written) = none :=
        parse_other (vote true) (vote false) (b := 117) (by decide) (by decide) _ _
      simp [voteSerde, hsame, hother]

def string : Codec String := Codec.quoted.mapped fromUtf8 textBytes

def logIdCodec : Codec LogId :=
  (((Codec.number 44).seq ((Codec.number 125).after (textBytes "\"node_id\":"))).seq
      ((Codec.number 125).after (textBytes ",\"index\":"))).after
    (textBytes "\x7b\"leader_id\":\x7b\"term\":")
  |>.mapped (fun ((term, nodeId), index) => some ⟨term, nodeId, index⟩)
      fun l => ((l.term, l.nodeId), l.index)

def optionalLogId : Codec (Option LogId) := logIdCodec.optional (textBytes "null")

def membership : Codec (Option Unit) :=
  ((Codec.word (textBytes "[1]],\"nodes\":\x7b\"1\":\x7b\"addr\":\"\"\x7d\x7d\x7d")).optional
    (textBytes "],\"nodes\":\x7b\x7d\x7d")).after (textBytes "\x7b\"configs\":[")

def storedMembership : Codec (StoredMembership Unit) :=
  ((optionalLogId.seq (membership.after (textBytes ",\"membership\":"))).before (textBytes "\x7d")).after
    (textBytes "\x7b\"log_id\":")
  |>.mapped (fun (logId, membership) => some ⟨logId, membership⟩) fun m => (m.logId, m.membership)

def request : Codec KkdbRequest :=
  ((string.seq (string.after (textBytes ",\"user_id\":"))).before (textBytes "\x7d")).after
    (textBytes "\x7b\"sql\":")
  |>.mapped (fun (sql, userId) => some ⟨sql, userId⟩) fun req => (req.sql, req.userId)

def data : Codec (KkdbSnapshotData Unit) :=
  ((request.list.seq ((optionalLogId.after (textBytes ",\"last_applied\":")).seq
      (storedMembership.after (textBytes ",\"last_membership\":")))).before (textBytes "\x7d")).after
    (textBytes "\x7b\"entries\":")
  |>.mapped (fun (entries, lastApplied, lastMembership) => some ⟨entries, lastApplied, lastMembership⟩)
      fun data => (data.entries, data.lastApplied, data.lastMembership)

def header : Codec (SnapshotMeta Unit) :=
  ((optionalLogId.seq ((storedMembership.after (textBytes ",\"last_membership\":")).seq
      (string.after (textBytes ",\"snapshot_id\":")))).before (textBytes "\x7d")).after
    (textBytes "\x7b\"last_log_id\":")
  |>.mapped (fun (lastLogId, lastMembership, snapshotId) => some ⟨lastLogId, lastMembership, snapshotId⟩)
      fun header => (header.lastLogId, header.lastMembership, header.snapshotId)

def persisted : Codec (PersistedSnapshot Unit) :=
  ((header.seq (data.after (textBytes ",\"data\":"))).before (textBytes "\x7d")).after
    (textBytes "\x7b\"meta\":")
  |>.mapped (fun (header, data) => some ⟨header, data⟩) fun snapshot => (snapshot.header, snapshot.data)

-- A whole text holds one value and nothing behind it.
def serde {α : Type} (c : Codec α) : Serde α where
  toVec := c.write
  fromSlice bytes :=
    match c.read bytes with
    | some (a, []) => some a
    | _ => none

def snapshotJson : SnapshotJson Unit where
  persisted := serde persisted
  data := serde data
  showLeader l := "T" ++ toString l.term ++ "-N" ++ toString l.nodeId

theorem string_lawful : string.Lawful := Codec.mapped_lawful Codec.quoted_lawful fromUtf8_textBytes

theorem logIdCodec_lawful : logIdCodec.Lawful := by
  apply Codec.mapped_lawful
  · have hterm := Codec.number_lawful 44 (by decide)
    have hbrace := Codec.number_lawful 125 (by decide)
    exact Codec.after_lawful _ (Codec.seq_lawful (Codec.seq_lawful hterm (Codec.after_lawful _ hbrace))
      (Codec.after_lawful _ hbrace))
  · intro l
    rfl

theorem optionalLogId_lawful : optionalLogId.Lawful :=
  Codec.optional_lawful logIdCodec_lawful (Codec.mapped_starts (Codec.after_starts 123 _ _) _ _)
    (by decide) (textBytes "ull")

theorem membership_lawful : membership.Lawful :=
  Codec.after_lawful _ (Codec.optional_lawful (Codec.word_lawful _)
    (fun _ => ⟨textBytes "1]],\"nodes\":\x7b\"1\":\x7b\"addr\":\"\"\x7d\x7d\x7d", rfl⟩) (by decide)
    (textBytes ",\"nodes\":\x7b\x7d\x7d"))

theorem storedMembership_lawful : storedMembership.Lawful := by
  apply Codec.mapped_lawful
  · exact Codec.after_lawful _ (Codec.before_lawful (Codec.seq_lawful optionalLogId_lawful
      (Codec.after_lawful _ membership_lawful)) _)
  · intro m
    rfl

theorem request_lawful : request.Lawful := by
  apply Codec.mapped_lawful
  · exact Codec.after_lawful _ (Codec.before_lawful (Codec.seq_lawful string_lawful
      (Codec.after_lawful _ string_lawful)) _)
  · intro req
    rfl

theorem data_lawful : data.Lawful := by
  apply Codec.mapped_lawful
  · have hentries : request.list.Lawful :=
      Codec.list_lawful request_lawful (Codec.mapped_starts (Codec.after_starts 123 _ _) _ _) (by decide)
    exact Codec.after_lawful _ (Codec.before_lawful (Codec.seq_lawful hentries
      (Codec.seq_lawful (Codec.after_lawful _ optionalLogId_lawful)
        (Codec.after_lawful _ storedMembership_lawful))) _)
  · intro data
    rfl

theorem header_lawful : header.Lawful := by
  apply Codec.mapped_lawful
  · exact Codec.after_lawful _ (Codec.before_lawful (Codec.seq_lawful optionalLogId_lawful
      (Codec.seq_lawful (Codec.after_lawful _ storedMembership_lawful)
        (Codec.after_lawful _ string_lawful))) _)
  · intro header
    rfl

theorem persisted_lawful : persisted.Lawful := by
  apply Codec.mapped_lawful
  · exact Codec.after_lawful _ (Codec.before_lawful (Codec.seq_lawful header_lawful
      (Codec.after_lawful _ data_lawful)) _)
  · intro snapshot
    rfl

theorem serde_roundTrips {α : Type} {c : Codec α} (h : c.Lawful) : (serde c).RoundTrips := by
  intro a
  have hread := h a []
  rw [List.append_nil] at hread
  simp [serde, hread]

theorem snapshotJson_roundTrips : snapshotJson.persisted.RoundTrips := serde_roundTrips persisted_lawful

end Text

end Kkdb.Raft
