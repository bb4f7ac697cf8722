import FocalVector.Raft.JsonForms
import FocalVector.Raft.LogStore
import Mathlib.Algebra.Order.BigOperators.Group.List

/-!
Contract: the sizes of the records of the log.

A client sends a command in a body of limited size. The log journals the entries that one call
appends in one record, which has a limit of its own. The size of that record is the sum of the
sizes of the commands and of what is written around them.

Owns: the limit on client requests, the size of a record, and when an append is refused.

Does not own: how entries are handed to the log.
-/

namespace FocalVector.Raft

open FocalVector.Foundation FocalVector.Engine FocalVector.Persistence Serde

/-! ## Requests -/

/-- `MAX_CLIENT_BODY_BYTES` -/
def maxClientBodyBytes : Nat := 64 * 1024 * 1024

def clientCommand (json : SerdeJson) (body : Bytes) : Except String ShardCommand :=
  if maxClientBodyBytes < body.length then
    .error "length limit exceeded"
  else
    json.shardCommand.fromSlice body

def Arrived (json : SerdeJson) (command : ShardCommand) : Prop :=
  ∃ body, clientCommand json body = .ok command

def Consecutive (entries : List Entry) : Prop :=
  entries.IsChain fun entry next => next.logId.index.toNat = entry.logId.index.toNat + 1

/-- `DurableRaftLog::append`: the entries are one record. -/
def appendEntries (json : SerdeJson) (process : Nat) (state : JournalState)
    (entries : List Entry) : Fs (JournalState × Result Unit) :=
  writeRecord json process state (.append entries)

/-! ## Sizes -/

section

variable (json : SerdeJson)

def commandSize (command : ShardCommand) : Nat := (json.shardCommand.toVec command).length

/-- The bytes of an entry: its log id, its payload and the names of both. -/
def entrySize (entry : Entry) : Nat :=
  (json.logId entry.logId).length + 22 +
    match entry.payload with
    | .normal command => commandSize json command + 11
    | payload => (json.entryPayload payload).length

def recordSize (entries : List Entry) : Nat :=
  (entries.map (entrySize json)).sum + (entries.length - 1) + 13

variable {json}

theorem toVec_append_length (entries : List Entry) :
    (json.journalRecord.toVec (.append entries)).length = recordSize json entries := by
  have each : ∀ entry : Entry, (json.logId entry.logId).length + 22 +
      (json.entryPayload entry.payload).length = entrySize json entry := by
    intro entry
    unfold entrySize
    cases entry.payload with
    | normal command => rw [json.length_normal]; rfl
    | blank => rfl
    | membership membership => rfl
  simp only [json.length_append, each, recordSize]

def payloadSize (json : SerdeJson) (entry : Entry) : Nat :=
  match entry.payload with
  | .normal command => commandSize json command
  | _ => 0

theorem payloads_lt_recordSize (entries : List Entry) :
    (entries.map (payloadSize json)).sum < recordSize json entries := by
  have each : ∀ entry : Entry, payloadSize json entry ≤ entrySize json entry := by
    intro entry
    unfold payloadSize entrySize
    cases entry.payload with
    | normal command => simp only; omega
    | blank => exact Nat.zero_le _
    | membership membership => exact Nat.zero_le _
  have total : (entries.map (payloadSize json)).sum ≤ (entries.map (entrySize json)).sum :=
    List.sum_le_sum fun entry _ => each entry
  unfold recordSize
  omega

/-! ## Appending -/

theorem run_appendEntries {process : Nat} {state : JournalState} {disk : Directory} {old : Bytes}
    {entries : List Entry} (found : disk raftJournal.file = some old)
    (small : recordSize json entries ≤ raftJournal.format.maxPayload) :
    ∃ after, (appendEntries json process state entries).run disk =
      (after, .ok (state.apply (.append entries), .ok ())) := by
  rw [← toVec_append_length] at small
  unfold appendEntries writeRecord
  rw [Program.run_bind, Program.run_capture, Journal.run_append found small]
  exact ⟨_, rfl⟩

theorem run_appendEntries_large {process : Nat} {state : JournalState} {disk : Directory}
    {entries : List Entry} (large : raftJournal.format.maxPayload < recordSize json entries) :
    (appendEntries json process state entries).run disk =
      (disk, .ok (state, .error (.io raftJournal.tooLarge))) := by
  rw [← toVec_append_length] at large
  unfold appendEntries writeRecord
  rw [Program.run_bind, Program.run_capture, Journal.run_append_large large]
  rfl

variable (json) in
/-- An append is journalled exactly when the record of its entries is within 64 MiB, and
refused otherwise. It is refused when the commands have as many bytes together. -/
theorem append_accepted_iff (process : Nat) (state : JournalState) (disk : Directory) (old : Bytes)
    (entries : List Entry) (found : disk raftJournal.file = some old) :
    ((∃ after, (appendEntries json process state entries).run disk =
        (after, .ok (state.apply (.append entries), .ok ()))) ↔
      recordSize json entries ≤ 64 * 1024 * 1024) ∧
    ((appendEntries json process state entries).run disk =
        (disk, .ok (state, .error (.io "Raft journal record exceeds size limit"))) ↔
      64 * 1024 * 1024 < recordSize json entries) ∧
    (64 * 1024 * 1024 ≤ (entries.map (payloadSize json)).sum →
      64 * 1024 * 1024 < recordSize json entries) := by
  refine ⟨⟨?_, run_appendEntries found⟩, ⟨?_, run_appendEntries_large⟩, ?_⟩
  · rintro ⟨after, accepts⟩
    by_contra large
    rw [run_appendEntries_large (not_le.mp large)] at accepts
    simp at accepts
  · intro refuses
    by_contra small
    obtain ⟨after, accepts⟩ := @run_appendEntries json process state disk old entries found
      (not_lt.mp small)
    rw [accepts] at refuses
    simp at refuses
  · intro large
    have longer := @payloads_lt_recordSize json entries
    omega

end

/-! ## Requests that are too large together -/

def longDelete (count : Nat) : ShardCommand :=
  .delete "c" 1 [String.ofList (List.replicate count 'a')]

theorem commandSize_longDelete (count : Nat) :
    commandSize .spelled (longDelete count) = count + 54 := by
  have names : Json.textSize "Delete" = 8 ∧ Json.textSize "client_id" = 11 ∧
      Json.textSize "request_id" = 12 ∧ Json.textSize "ids" = 5 := by decide
  have fixed : (string.serialize "c").size = 3 ∧ (u64.serialize 1).size = 1 := by decide
  have id := @Json.size_string_replicate 'a' (by decide) (by decide) count
  refine (JsonText.toVec_length _ _).trans ?_
  simp only [longDelete, JsonText.shardCommand, JsonText.request, record, Fields.and, Fields.one,
    List.singleton_append, id_eq, Json.size_tagged, Json.size_object, List.map_cons, List.map_nil,
    List.sum_cons, List.sum_nil, list, Json.size_array, List.length_cons, List.length_nil, names,
    fixed]
  simp only [string] at fixed ⊢
  omega

theorem arrived_longDelete {count : Nat} (within : count + 54 ≤ maxClientBodyBytes) :
    Arrived .spelled (longDelete count) := by
  have size := commandSize_longDelete count
  refine ⟨SerdeJson.spelled.shardCommand.toVec (longDelete count), ?_⟩
  unfold clientCommand
  unfold commandSize at size
  rw [if_neg (by omega)]
  exact SerdeJson.spelled.shardCommand.fromSlice_toVec _ trivial

def longEntry (index : UInt64) (count : Nat) : Entry :=
  ⟨⟨⟨1, 1⟩, index⟩, .normal (longDelete count)⟩

theorem payloadSize_longEntry (index : UInt64) (count : Nat) :
    payloadSize .spelled (longEntry index count) = count + 54 :=
  commandSize_longDelete count

def emptyJournal : Directory := Disk.write (fun _ => none) raftJournal.file []

/-- Two requests that are within the limit are refused as one record, and so is a single
request of the largest size. -/
theorem accepted_requests_refused :
    (Arrived .spelled (longDelete 40000000) ∧
      Consecutive [longEntry 1 40000000, longEntry 2 40000000] ∧
      (appendEntries .spelled 1 .initial [longEntry 1 40000000, longEntry 2 40000000]).run
          emptyJournal =
        (emptyJournal, .ok (.initial, .error (.io "Raft journal record exceeds size limit")))) ∧
    Arrived .spelled (longDelete 67108810) ∧
      (appendEntries .spelled 1 .initial [longEntry 1 67108810]).run emptyJournal =
        (emptyJournal, .ok (.initial, .error (.io "Raft journal record exceeds size limit"))) := by
  have limit : maxClientBodyBytes = 67108864 ∧ raftJournal.format.maxPayload = 67108864 :=
    ⟨rfl, rfl⟩
  refine ⟨⟨arrived_longDelete (by omega), by simp [Consecutive, longEntry], ?_⟩,
    arrived_longDelete (by omega), ?_⟩
  · have longer := @payloads_lt_recordSize .spelled [longEntry 1 40000000, longEntry 2 40000000]
    simp only [List.map_cons, List.map_nil, List.sum_cons, List.sum_nil,
      payloadSize_longEntry] at longer
    exact run_appendEntries_large (by omega)
  · have longer := @payloads_lt_recordSize .spelled [longEntry 1 67108810]
    simp only [List.map_cons, List.map_nil, List.sum_cons, List.sum_nil,
      payloadSize_longEntry] at longer
    exact run_appendEntries_large (by omega)

/-- The deletion of a short id is journalled. -/
theorem short_deletion_journalled :
    ∃ after, (appendEntries .spelled 1 .initial [longEntry 1 1]).run emptyJournal =
      (after, .ok (JournalState.initial.apply (.append [longEntry 1 1]), .ok ())) :=
  (append_accepted_iff .spelled 1 .initial emptyJournal [] [longEntry 1 1] rfl).1.mpr
    (by decide +kernel)

end FocalVector.Raft
