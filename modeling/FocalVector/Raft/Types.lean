import FocalVector.Persistence.Codec

/-!
Contract: the values a Raft node exchanges and journals, and what is asked of
the serialiser that writes them.

JSON is written and read by a library, so the two functions are a parameter,
`SerdeJson`, with one `JsonForm` for each type that is a document of its own.
The laws are all that the proofs know of them: numbers that are finite are read
back as they were, other numbers are written as null and refused, and a
document is read neither in part nor with anything but whitespace behind it.

Owns: log ids, votes, memberships, entries, shard commands and responses,
journal records, snapshots, and the laws of their JSON forms.

Does not own: the text of a document, or the journals the values are framed in.
Sets and maps that are only carried along, the voters and the addresses of a
membership, are lists.
-/

namespace FocalVector.Raft

open FocalVector.Foundation FocalVector.Engine FocalVector.Persistence

/-! ## Commands and responses -/

inductive ShardCommand where
  | upsert (clientId : String) (requestId : UInt64) (points : List UpsertPoint)
  | delete (clientId : String) (requestId : UInt64) (ids : List String)

inductive ShardResponse where
  | applied (sequence : UInt64)
  | rejected (message : String)
deriving DecidableEq

def PointFinite (point : UpsertPoint) : Prop :=
  (∀ component ∈ point.vector, component.isFinite = true) ∧ MetadataFinite point.metadata

def CommandFinite : ShardCommand → Prop
  | .upsert _ _ points => ∀ point ∈ points, PointFinite point
  | .delete _ _ _ => True

instance (point : UpsertPoint) : Decidable (PointFinite point) :=
  inferInstanceAs (Decidable (_ ∧ _))

instance : (command : ShardCommand) → Decidable (CommandFinite command)
  | .upsert _ _ points => inferInstanceAs (Decidable (∀ point ∈ points, PointFinite point))
  | .delete _ _ _ => isTrue trivial

/-! ## Log ids, votes and memberships -/

abbrev NodeId := UInt64

structure LeaderId where
  term : UInt64
  nodeId : NodeId
deriving DecidableEq

structure LogId where
  leaderId : LeaderId
  index : UInt64
deriving DecidableEq

structure Vote where
  leaderId : LeaderId
  committed : Bool
deriving DecidableEq

structure Membership where
  configs : List (List NodeId)
  nodes : List (NodeId × String)
deriving DecidableEq

/-- A membership and the entry that set it. -/
structure StoredMembership where
  logId : Option LogId
  membership : Membership
deriving DecidableEq

/-- `StoredMembership::default`: nobody, set by no entry. -/
def StoredMembership.initial : StoredMembership := ⟨none, ⟨[], []⟩⟩

/-! ## Entries and records of the log -/

inductive EntryPayload where
  | blank
  | normal (command : ShardCommand)
  | membership (membership : Membership)

structure Entry where
  logId : LogId
  payload : EntryPayload

def EntryFinite (entry : Entry) : Prop :=
  match entry.payload with
  | .normal command => CommandFinite command
  | _ => True

instance : (entry : Entry) → Decidable (EntryFinite entry)
  | ⟨_, .normal command⟩ => inferInstanceAs (Decidable (CommandFinite command))
  | ⟨_, .blank⟩ => isTrue trivial
  | ⟨_, .membership _⟩ => isTrue trivial

inductive JournalRecord where
  | saveVote (vote : Vote)
  | saveCommitted (committed : Option LogId)
  | append (entries : List Entry)
  | truncate (logId : LogId)
  | purge (logId : LogId)

structure JournalState where
  vote : Option Vote
  committed : Option LogId
  lastPurged : Option LogId
  entries : Std.ExtTreeMap UInt64 Entry

def RecordFinite : JournalRecord → Prop
  | .append entries => ∀ entry ∈ entries, EntryFinite entry
  | _ => True

instance : (record : JournalRecord) → Decidable (RecordFinite record)
  | .append entries => inferInstanceAs (Decidable (∀ entry ∈ entries, EntryFinite entry))
  | .saveVote _ => isTrue trivial
  | .saveCommitted _ => isTrue trivial
  | .truncate _ => isTrue trivial
  | .purge _ => isTrue trivial

def StateFinite (state : JournalState) : Prop :=
  ∀ entry ∈ state.entries.toList, EntryFinite entry.2

/-! ## Records and snapshots of the state machine -/

/-- The responses given so far, by client and request. -/
abbrev Dedup := Std.ExtTreeMap String (Std.ExtTreeMap UInt64 ShardResponse)

inductive AppliedPayload where
  | blank
  | command (command : ShardCommand) (response : ShardResponse)
  | membership (membership : Membership)

structure AppliedRecord where
  logId : LogId
  payload : AppliedPayload

def AppliedFinite (record : AppliedRecord) : Prop :=
  match record.payload with
  | .command command _ => CommandFinite command
  | _ => True

structure StateSnapshot where
  config : CollectionConfig
  points : List StoredPoint
  collectionSequence : UInt64
  lastApplied : Option LogId
  membership : StoredMembership
  dedup : Dedup

structure SnapshotMeta where
  lastLogId : Option LogId
  lastMembership : StoredMembership
  snapshotId : String

structure StoredSnapshot where
  snapshotMeta : SnapshotMeta
  data : Bytes
  checksum : Option UInt32

def StoredFinite (point : StoredPoint) : Prop :=
  (∀ component ∈ point.vector, component.isFinite = true) ∧ MetadataFinite point.metadata

def SnapshotFinite (snapshot : StateSnapshot) : Prop :=
  ∀ point ∈ snapshot.points, StoredFinite point

/-! ## Documents -/

/-- The bytes that JSON takes for whitespace. -/
def isSpaceByte (byte : UInt8) : Bool := byte == 32 || byte == 10 || byte == 9 || byte == 13

/-- The documents of one type. -/
structure JsonForm (α : Type) (finite : α → Prop) where
  /-- `serde_json::to_vec`. -/
  toVec : α → Bytes
  /-- `serde_json::from_slice`. -/
  fromSlice : Bytes → Except String α
  fromSlice_toVec : ∀ value, finite value → fromSlice (toVec value) = .ok value
  fromSlice_null : ∀ value, ¬ finite value → ∃ message, fromSlice (toVec value) = .error message
  fromSlice_take : ∀ value length, length < (toVec value).length →
    ∃ message, fromSlice ((toVec value).take length) = .error message
  fromSlice_append : ∀ value more, (∃ message, fromSlice (toVec value ++ more) = .error message) ∨
    ∀ byte ∈ more, isSpaceByte byte = true

namespace JsonForm

variable {α : Type} {finite : α → Prop} {form : JsonForm α finite} {value other : α}

theorem fromSlice_eq_ok_iff : form.fromSlice (form.toVec value) = .ok value ↔ finite value := by
  refine ⟨fun reads => ?_, form.fromSlice_toVec value⟩
  by_contra infinite
  obtain ⟨message, fails⟩ := form.fromSlice_null value infinite
  rw [fails] at reads
  cases reads

/-- What is read from the bytes of a value is that value. -/
theorem eq_of_ok (reads : form.fromSlice (form.toVec value) = .ok other) : other = value := by
  by_cases isFinite : finite value
  · rw [form.fromSlice_toVec value isFinite] at reads
    exact (Except.ok.inj reads).symm
  · obtain ⟨message, fails⟩ := form.fromSlice_null value isFinite
    rw [fails] at reads
    cases reads

end JsonForm

/-- The JSON library, at the types that a node writes or reads as documents. -/
structure SerdeJson where
  shardCommand : JsonForm ShardCommand CommandFinite
  journalRecord : JsonForm JournalRecord RecordFinite
  journalState : JsonForm JournalState StateFinite
  appliedRecord : JsonForm AppliedRecord AppliedFinite
  stateSnapshot : JsonForm StateSnapshot SnapshotFinite
  storedSnapshot : JsonForm StoredSnapshot fun _ => True
  /-- The pair that the checksum of a stored snapshot covers. -/
  checksummed : SnapshotMeta × Bytes → Bytes
  /-- The parts of an entry, as they stand in a record. -/
  logId : LogId → Bytes
  entryPayload : EntryPayload → Bytes
  length_append : ∀ entries, (journalRecord.toVec (.append entries)).length =
    (entries.map fun entry => (logId entry.logId).length + 22 +
      (entryPayload entry.payload).length).sum + (entries.length - 1) + 13
  length_normal : ∀ command,
    (entryPayload (.normal command)).length = (shardCommand.toVec command).length + 11

end FocalVector.Raft
