import FocalVector.Foundation.JsonSize
import FocalVector.Raft.Types
import Mathlib.Data.List.TakeWhile

/-!
Contract: a serialiser that satisfies the laws, on the engine's own documents.

Each type has the form a derived serialiser gives it. A command that is not a
number where a number is due cannot be read back: the serialiser writes an
infinity or a NaN as null, and the readers of numbers refuse null.

Owns: the serialiser of each type, the exact condition under which each is read
back, parts and continuations of a document, and `SerdeJson.spelled`.

Does not own: documents that the engine did not write. The library reads many of
them; here they are refused.
-/

namespace FocalVector.Raft

open FocalVector.Foundation FocalVector.Engine FocalVector.Persistence Serde

namespace JsonText

/-! ## Floating-point numbers -/

def oneText : Numeral := ⟨['1', '.', '0'], rfl⟩

def smallestText : Numeral := ⟨['1', 'e', '-', '4', '5'], rfl⟩

/-- One and the smallest positive number have their shortest decimal text. The other numbers
are spelled by their bits. -/
def f32Text (value : F32) : Numeral :=
  if value = ⟨0x3f800000⟩ then oneText
  else if value = ⟨1⟩ then smallestText
  else naturalNumeral value.bits.toNat

def readF32 (numeral : Numeral) : Option F32 :=
  if numeral = oneText then some ⟨0x3f800000⟩
  else if numeral = smallestText then some ⟨1⟩
  else (readNatural numeral.chars).map fun bits => ⟨UInt32.ofNat bits⟩

/-- Digits spell no text with another character in it. -/
theorem naturalNumeral_ne {value : Nat} {numeral : Numeral} {char : Char}
    (member : char ∈ numeral.chars) (other : char.isDigit = false) :
    naturalNumeral value ≠ numeral := by
  rintro rfl
  have isDigit := Nat.isDigit_of_mem_toDigits (by decide) (by decide) member
  rw [other] at isDigit
  cases isDigit

theorem readF32_f32Text (value : F32) : readF32 (f32Text value) = some value := by
  unfold readF32 f32Text
  by_cases isOne : value = ⟨0x3f800000⟩
  · rw [if_pos isOne, if_pos rfl, isOne]
  by_cases isSmallest : value = ⟨1⟩
  · rw [if_neg isOne, if_pos isSmallest, if_neg (by decide), if_pos rfl, isSmallest]
  have dotted : '.' ∈ oneText.chars := by decide
  have raised : 'e' ∈ smallestText.chars := by decide
  rw [if_neg isOne, if_neg isSmallest, if_neg (naturalNumeral_ne dotted rfl),
    if_neg (naturalNumeral_ne raised rfl)]
  simp only [naturalNumeral, readNatural_toDigits, Option.map_some, UInt32.ofNat_toNat]

def f64Text (value : F64) : Numeral := naturalNumeral value.bits.toNat

def readF64 (numeral : Numeral) : Option F64 :=
  (readNatural numeral.chars).map fun bits => ⟨UInt64.ofNat bits⟩

theorem readF64_f64Text (value : F64) : readF64 (f64Text value) = some value := by
  simp only [readF64, f64Text, naturalNumeral, readNatural_toDigits, Option.map_some,
    UInt64.ofNat_toNat]

def float {α : Type} (typeName : String) (isFinite : α → Bool) (write : α → Numeral)
    (read : Numeral → Option α) : Serde α where
  serialize value := if isFinite value then .number (write value) else .null
  deserialize json :=
    match json with
    | .number numeral =>
      match read numeral with
      | some value => .ok value
      | none => .error s!"invalid value, expected {typeName}"
    | .null => .error s!"invalid type: null, expected {typeName}"
    | _ => .error s!"invalid type, expected {typeName}"

def f32 : Serde F32 := float "f32" F32.isFinite f32Text readF32

def f64 : Serde F64 := float "f64" F64.isFinite f64Text readF64

theorem reads_float {α : Type} {typeName : String} {isFinite : α → Bool} {write : α → Numeral}
    {read : Numeral → Option α} {value : α} (roundTrip : read (write value) = some value) :
    (float typeName isFinite write read).Reads value (isFinite value = true) := by
  constructor
  · intro finite
    simp [float, finite, roundTrip]
  · intro notFinite
    exact ⟨_, by simp only [float, if_neg notFinite]; rfl⟩

theorem reads_f32 (number : F32) : f32.Reads number (number.isFinite = true) :=
  reads_float (readF32_f32Text number)

theorem reads_f64 (number : F64) : f64.Reads number (number.isFinite = true) :=
  reads_float (readF64_f64Text number)

/-! ## Commands and responses -/

def value : Serde Value where
  serialize
    | .keyword word => tagged "Keyword" (string.serialize word)
    | .integer number => tagged "Integer" (i64.serialize number)
    | .float number => tagged "Float" (f64.serialize number)
    | .boolean flag => tagged "Boolean" (bool.serialize flag)
  deserialize json := do
    match ← variant json with
    | ("Keyword", some data) => return .keyword (← string.deserialize data)
    | ("Integer", some data) => return .integer (← i64.deserialize data)
    | ("Float", some data) => return .float (← f64.deserialize data)
    | ("Boolean", some data) => return .boolean (← bool.deserialize data)
    | _ => throw "unknown variant of Value"

def metadata : Serde Metadata := map stringKey value

def upsertPoint : Serde UpsertPoint :=
  record (.and (.one "id" string) (.and (.one "vector" (list f32)) (.one "metadata" metadata)))
    (fun point => (point.id, point.vector, point.metadata))
    fun parts => ⟨parts.1, parts.2.1, parts.2.2⟩

/-- A command of a client, by the name of what it carries. -/
def request {α : Type} (name : String) (carried : Serde α) : Serde (String × UInt64 × α) :=
  record (.and (.one "client_id" string) (.and (.one "request_id" u64) (.one name carried))) id id

def shardCommand : Serde ShardCommand where
  serialize
    | .upsert clientId requestId points => tagged "Upsert"
        ((request "points" (list upsertPoint)).serialize (clientId, requestId, points))
    | .delete clientId requestId ids => tagged "Delete"
        ((request "ids" (list string)).serialize (clientId, requestId, ids))
  deserialize json := do
    match ← variant json with
    | ("Upsert", some data) =>
      let parts ← (request "points" (list upsertPoint)).deserialize data
      return .upsert parts.1 parts.2.1 parts.2.2
    | ("Delete", some data) =>
      let parts ← (request "ids" (list string)).deserialize data
      return .delete parts.1 parts.2.1 parts.2.2
    | _ => throw "unknown variant of ShardCommand"

def single {α : Type} (name : String) (serde : Serde α) : Serde α := record (.one name serde) id id

def shardResponse : Serde ShardResponse where
  serialize
    | .applied sequence => tagged "Applied" ((single "sequence" u64).serialize sequence)
    | .rejected message => tagged "Rejected" ((single "message" string).serialize message)
  deserialize json := do
    match ← variant json with
    | ("Applied", some data) => return .applied (← (single "sequence" u64).deserialize data)
    | ("Rejected", some data) => return .rejected (← (single "message" string).deserialize data)
    | _ => throw "unknown variant of ShardResponse"

theorem reads_value (item : Value) : value.Reads item (ValueFinite item) := by
  cases item with
  | keyword word => exact (reads_string word).bind_pure
  | integer number => exact (reads_i64 number).bind_pure
  | float number => exact (reads_f64 number).bind_pure
  | boolean flag => exact (reads_bool flag).bind_pure

theorem reads_metadata (entries : Metadata) :
    metadata.Reads entries (MetadataFinite entries) :=
  reads_map reads_value

theorem reads_vector (vector : List F32) :
    (list f32).Reads vector (∀ item ∈ vector, item.isFinite = true) :=
  reads_list fun item _ => reads_f32 item

theorem reads_upsertPoint (point : UpsertPoint) :
    upsertPoint.Reads point (PointFinite point) :=
  reads_record (.and (.one (reads_string _)) (.and (.one (reads_vector _))
    (.one (reads_metadata _)))) rfl (by simp [PointFinite])

theorem reads_request {α : Type} {name : String} {carried : Serde α} {accepted : Prop}
    (parts : String × UInt64 × α) (reads : carried.Reads parts.2.2 accepted) :
    (request name carried).Reads parts accepted :=
  reads_record (.and (.one (reads_string _)) (.and (.one (reads_u64 _)) (.one reads))) rfl (by simp)

theorem reads_single {α : Type} {name : String} {serde : Serde α} {accepted : Prop} {value : α}
    (reads : serde.Reads value accepted) : (single name serde).Reads value accepted :=
  reads_record (.one reads) rfl Iff.rfl

theorem reads_shardCommand (command : ShardCommand) :
    shardCommand.Reads command (CommandFinite command) := by
  cases command with
  | upsert clientId requestId points =>
    have batch : (list upsertPoint).Reads points _ :=
      reads_list fun point _ => reads_upsertPoint point
    exact (reads_request (clientId, requestId, points) batch).bind_pure
  | delete clientId requestId ids =>
    have batch : (list string).Reads ids True :=
      (reads_list fun id _ => reads_string id).congr (by simp)
    exact (reads_request (clientId, requestId, ids) batch).bind_pure

theorem reads_shardResponse (response : ShardResponse) : shardResponse.Reads response True := by
  cases response with
  | applied sequence => exact (reads_single (reads_u64 sequence)).bind_pure
  | rejected message =>
    have text : (single "message" string).Reads message True := reads_single (reads_string message)
    exact text.bind_pure

/-! ## Log ids, votes and memberships -/

def leaderId : Serde LeaderId :=
  record (.and (.one "term" u64) (.one "node_id" u64))
    (fun leader => (leader.term, leader.nodeId)) fun parts => ⟨parts.1, parts.2⟩

def logId : Serde LogId :=
  record (.and (.one "leader_id" leaderId) (.one "index" u64))
    (fun id => (id.leaderId, id.index)) fun parts => ⟨parts.1, parts.2⟩

def vote : Serde Vote :=
  record (.and (.one "leader_id" leaderId) (.one "committed" bool))
    (fun vote => (vote.leaderId, vote.committed)) fun parts => ⟨parts.1, parts.2⟩

/-- `BasicNode`: the address of a node. -/
def basicNode : Serde String := single "addr" string

def entryList {κ ν : Type} (key : KeyText κ) (serde : Serde ν) : Serde (List (κ × ν)) where
  serialize entries :=
    .object (entries.map fun entry => (key.toText entry.1, serde.serialize entry.2))
  deserialize json :=
    match json with
    | .object members => members.mapM (readEntry key serde)
    | _ => .error "invalid type, expected a map"

def membership : Serde Membership :=
  record (.and (.one "configs" (list (list u64))) (.one "nodes" (entryList u64Key basicNode)))
    (fun membership => (membership.configs, membership.nodes)) fun parts => ⟨parts.1, parts.2⟩

def storedMembership : Serde StoredMembership :=
  record (.and (.one "log_id" (option logId)) (.one "membership" membership))
    (fun stored => (stored.logId, stored.membership)) fun parts => ⟨parts.1, parts.2⟩

theorem reads_leaderId (leader : LeaderId) : leaderId.Reads leader True :=
  reads_record (.and (.one (reads_u64 _)) (.one (reads_u64 _))) rfl (by simp)

theorem reads_logId (id : LogId) : logId.Reads id True :=
  reads_record (.and (.one (reads_leaderId _)) (.one (reads_u64 _))) rfl (by simp)

theorem reads_optionLogId (id : Option LogId) : (option logId).Reads id True := by
  have reads : (option logId).Reads id _ :=
    reads_option (fun _ _ => nofun) fun inner _ => reads_logId inner
  exact reads.congr (by simp)

theorem reads_vote (vote : Vote) : JsonText.vote.Reads vote True :=
  reads_record (.and (.one (reads_leaderId _)) (.one (reads_bool _))) rfl (by simp)

theorem reads_membership (membership : Membership) : JsonText.membership.Reads membership True := by
  have configs : (list (list u64)).Reads membership.configs _ :=
    reads_list fun config _ => reads_list fun node _ => reads_u64 node
  have nodes : (entryList u64Key basicNode).Reads membership.nodes _ :=
    Yields.mapM _ fun entry _ => yields_readEntry entry (reads_single (reads_string entry.2))
  exact reads_record (.and (.one configs) (.one nodes)) rfl (by simp)

theorem reads_storedMembership (stored : StoredMembership) :
    storedMembership.Reads stored True :=
  reads_record (.and (.one (reads_optionLogId _)) (.one (reads_membership _))) rfl (by simp)

/-! ## Entries and records -/

def entryPayload : Serde EntryPayload where
  serialize
    | .blank => .string "Blank"
    | .normal command => tagged "Normal" (shardCommand.serialize command)
    | .membership membership => tagged "Membership" (JsonText.membership.serialize membership)
  deserialize json := do
    match ← variant json with
    | ("Blank", none) => return .blank
    | ("Normal", some data) => return .normal (← shardCommand.deserialize data)
    | ("Membership", some data) => return .membership (← membership.deserialize data)
    | _ => throw "unknown variant of EntryPayload"

def entry : Serde Entry :=
  record (.and (.one "log_id" logId) (.one "payload" entryPayload))
    (fun entry => (entry.logId, entry.payload)) fun parts => ⟨parts.1, parts.2⟩

theorem reads_entry (entry : Entry) : JsonText.entry.Reads entry (EntryFinite entry) := by
  have payload : entryPayload.Reads entry.payload (EntryFinite entry) := by
    unfold EntryFinite
    cases entry.payload with
    | blank => exact .ok _
    | normal command => exact (reads_shardCommand command).bind_pure
    | membership membership => exact (reads_membership membership).bind_pure
  exact reads_record (.and (.one (reads_logId _)) (.one payload)) rfl (by simp)

def journalRecord : Serde JournalRecord where
  serialize
    | .saveVote vote => tagged "SaveVote" (JsonText.vote.serialize vote)
    | .saveCommitted committed => tagged "SaveCommitted" ((option logId).serialize committed)
    | .append entries => tagged "Append" ((list entry).serialize entries)
    | .truncate logId => tagged "Truncate" (JsonText.logId.serialize logId)
    | .purge logId => tagged "Purge" (JsonText.logId.serialize logId)
  deserialize json := do
    match ← variant json with
    | ("SaveVote", some data) => return .saveVote (← vote.deserialize data)
    | ("SaveCommitted", some data) => return .saveCommitted (← (option logId).deserialize data)
    | ("Append", some data) => return .append (← (list entry).deserialize data)
    | ("Truncate", some data) => return .truncate (← logId.deserialize data)
    | ("Purge", some data) => return .purge (← logId.deserialize data)
    | _ => throw "unknown variant of JournalRecord"

def journalState : Serde JournalState :=
  record (.and (.one "vote" (option vote)) (.and (.one "committed" (option logId))
      (.and (.one "last_purged" (option logId)) (.one "entries" (map u64Key entry)))))
    (fun state => (state.vote, state.committed, state.lastPurged, state.entries))
    fun parts => ⟨parts.1, parts.2.1, parts.2.2.1, parts.2.2.2⟩

theorem reads_journalRecord (record : JournalRecord) :
    journalRecord.Reads record (RecordFinite record) := by
  cases record with
  | saveVote vote => exact (reads_vote vote).bind_pure
  | saveCommitted committed => exact (reads_optionLogId committed).bind_pure
  | append entries => exact (reads_list fun entry _ => reads_entry entry).bind_pure
  | truncate logId => exact (reads_logId logId).bind_pure
  | purge logId => exact (reads_logId logId).bind_pure

theorem reads_journalState (state : JournalState) :
    journalState.Reads state (StateFinite state) := by
  have vote : (option vote).Reads state.vote _ :=
    reads_option (fun _ _ => nofun) fun inner _ => reads_vote inner
  have entries : (map u64Key entry).Reads state.entries _ := reads_map reads_entry
  exact reads_record (.and (.one vote) (.and (.one (reads_optionLogId _))
    (.and (.one (reads_optionLogId _)) (.one entries)))) rfl (by simp [StateFinite])

/-! ## Snapshots -/

def metric : Serde Metric where
  serialize
    | .cosine => .string "Cosine"
    | .dotProduct => .string "DotProduct"
    | .euclidean => .string "Euclidean"
  deserialize json := do
    match ← variant json with
    | ("Cosine", none) => return .cosine
    | ("DotProduct", none) => return .dotProduct
    | ("Euclidean", none) => return .euclidean
    | _ => throw "unknown variant of Metric"

def collectionConfig : Serde CollectionConfig :=
  record (.and (.one "dimension" u64) (.one "metric" metric))
    (fun config => (UInt64.ofNat config.dimension, config.metric))
    fun parts => ⟨parts.1.toNat, parts.2, parts.1.toNat_lt⟩

def snapshotMeta : Serde SnapshotMeta :=
  record (.and (.one "last_log_id" (option logId))
      (.and (.one "last_membership" storedMembership) (.one "snapshot_id" string)))
    (fun meta_ => (meta_.lastLogId, meta_.lastMembership, meta_.snapshotId))
    fun parts => ⟨parts.1, parts.2.1, parts.2.2⟩

def storedSnapshot : Serde StoredSnapshot :=
  record (.and (.one "meta" snapshotMeta)
      (.and (.one "data" (list u8)) (.one "checksum" (option u32))))
    (fun stored => (stored.snapshotMeta, stored.data, stored.checksum))
    fun parts => ⟨parts.1, parts.2.1, parts.2.2⟩

def dedupTable : Serde Dedup := map stringKey (map u64Key shardResponse)

/-- The data of `AppliedPayload::Command`. -/
def answered : Serde (ShardCommand × ShardResponse) :=
  record (.and (.one "command" shardCommand) (.one "response" shardResponse)) id id

def appliedPayload : Serde AppliedPayload where
  serialize
    | .blank => .string "Blank"
    | .command command response => tagged "Command" (answered.serialize (command, response))
    | .membership membership => tagged "Membership" (JsonText.membership.serialize membership)
  deserialize json := do
    match ← variant json with
    | ("Blank", none) => return .blank
    | ("Command", some data) =>
      let parts ← answered.deserialize data
      return .command parts.1 parts.2
    | ("Membership", some data) => return .membership (← membership.deserialize data)
    | _ => throw "unknown variant of AppliedPayload"

def appliedRecord : Serde AppliedRecord :=
  record (.and (.one "log_id" logId) (.one "payload" appliedPayload))
    (fun record => (record.logId, record.payload)) fun parts => ⟨parts.1, parts.2⟩

def storedPoint : Serde StoredPoint :=
  record (.and (.one "id" string) (.and (.one "vector" (list f32))
      (.and (.one "metadata" metadata) (.one "sequence" u64))))
    (fun point => (point.id, point.vector, point.metadata, point.sequence))
    fun parts => ⟨parts.1, parts.2.1, parts.2.2.1, parts.2.2.2⟩

def stateSnapshot : Serde StateSnapshot :=
  record (.and (.one "config" collectionConfig) (.and (.one "points" (list storedPoint))
      (.and (.one "collection_sequence" u64) (.and (.one "last_applied" (option logId))
        (.and (.one "membership" storedMembership) (.one "dedup" dedupTable))))))
    (fun snapshot => (snapshot.config, snapshot.points, snapshot.collectionSequence,
      snapshot.lastApplied, snapshot.membership, snapshot.dedup))
    fun parts => ⟨parts.1, parts.2.1, parts.2.2.1, parts.2.2.2.1, parts.2.2.2.2.1,
      parts.2.2.2.2.2⟩

theorem reads_metric (value : Metric) : metric.Reads value True := by
  cases value <;> exact .ok _

theorem reads_collectionConfig (config : CollectionConfig) :
    collectionConfig.Reads config True := by
  have word : (UInt64.ofNat config.dimension).toNat = config.dimension := by
    rw [UInt64.toNat_ofNat', Nat.mod_eq_of_lt config.fits]
  refine reads_record (.and (.one (reads_u64 _)) (.one (reads_metric _))) ?_ (by simp)
  simp only [word]

theorem reads_snapshotMeta (value : SnapshotMeta) : snapshotMeta.Reads value True :=
  reads_record (.and (.one (reads_optionLogId _)) (.and (.one (reads_storedMembership _))
    (.one (reads_string _)))) rfl (by simp)

theorem reads_storedSnapshot (stored : StoredSnapshot) : storedSnapshot.Reads stored True := by
  have data : (list u8).Reads stored.data _ := reads_list fun byte _ => reads_u8 byte
  have checksum : (option u32).Reads stored.checksum _ :=
    reads_option (fun _ _ => nofun) fun word _ => reads_u32 word
  exact reads_record (.and (.one (reads_snapshotMeta _)) (.and (.one data) (.one checksum))) rfl
    (by simp)

theorem reads_dedupTable (dedup : Dedup) : dedupTable.Reads dedup True := by
  have requests : ∀ answered : Std.ExtTreeMap UInt64 ShardResponse,
      (map u64Key shardResponse).Reads answered True := by
    intro answered
    have reads : (map u64Key shardResponse).Reads answered _ := reads_map reads_shardResponse
    exact reads.congr (by simp)
  have reads : dedupTable.Reads dedup _ := reads_map requests
  exact reads.congr (by simp)

theorem reads_appliedRecord (record : AppliedRecord) :
    appliedRecord.Reads record (AppliedFinite record) := by
  have payload : appliedPayload.Reads record.payload (AppliedFinite record) := by
    unfold AppliedFinite
    cases record.payload with
    | blank => exact .ok _
    | membership membership => exact (reads_membership membership).bind_pure
    | command command response =>
      have parts : answered.Reads (command, response) (CommandFinite command) :=
        reads_record (.and (.one (reads_shardCommand _)) (.one (reads_shardResponse _))) rfl
          (by simp)
      exact parts.bind_pure
  exact reads_record (.and (.one (reads_logId _)) (.one payload)) rfl (by simp)

theorem reads_storedPoint (point : StoredPoint) :
    storedPoint.Reads point (StoredFinite point) :=
  reads_record (.and (.one (reads_string _)) (.and (.one (reads_vector _))
    (.and (.one (reads_metadata _)) (.one (reads_u64 _))))) rfl (by simp [StoredFinite])

theorem reads_stateSnapshot (snapshot : StateSnapshot) :
    stateSnapshot.Reads snapshot (∀ point ∈ snapshot.points, StoredFinite point) := by
  have points : (list storedPoint).Reads snapshot.points _ :=
    reads_list fun point _ => reads_storedPoint point
  exact reads_record (.and (.one (reads_collectionConfig _)) (.and (.one points)
    (.and (.one (reads_u64 _)) (.and (.one (reads_optionLogId _))
      (.and (.one (reads_storedMembership _)) (.one (reads_dedupTable _))))))) rfl (by simp)

/-! ## Bytes -/

/-- `serde_json::to_vec`. -/
def toVec {α : Type} (serde : Serde α) (value : α) : Bytes :=
  utf8 (String.ofList (serde.serialize value).render)

/-- `serde_json::from_slice`. -/
def fromSlice {α : Type} (serde : Serde α) (bytes : Bytes) : Except String α :=
  match ofUtf8 bytes with
  | some document =>
    match Json.parse document.toList with
    | some json => serde.deserialize json
    | none => .error "expected value"
  | none => .error "invalid unicode code point"

/-- Text and bytes add no condition of their own. -/
theorem fromSlice_toVec {α : Type} (serde : Serde α) (value : α) :
    fromSlice serde (toVec serde value) = serde.deserialize (serde.serialize value) := by
  simp only [fromSlice, toVec, ofUtf8_utf8, String.toList_ofList, Json.parse_render]

theorem toVec_length_le {α : Type} (serde : Serde α) (value : α) :
    (toVec serde value).length ≤ 4 * (serde.serialize value).weight := by
  have bytes := utf8_length_le (String.ofList (serde.serialize value).render)
  have chars := Json.render_length_le (serde.serialize value)
  rw [String.toList_ofList] at bytes
  exact bytes.trans (Nat.mul_le_mul_left 4 chars)

/-! ## Documents as bytes -/

theorem utf8_of_ofUtf8 {bytes : Bytes} {document : String}
    (decoded : ofUtf8 bytes = some document) : utf8 document = bytes := by
  unfold ofUtf8 String.fromUTF8? at decoded
  split at decoded
  · cases decoded
    rfl
  · cases decoded

theorem utf8_append (front back : String) : utf8 (front ++ back) = utf8 front ++ utf8 back := by
  unfold utf8
  rw [String.toByteArray_append, ByteArray.data_append, Array.toList_append]

theorem utf8_split {front whole : String} {back : Bytes}
    (same : utf8 front ++ back = utf8 whole) :
    ∃ rest : String, whole.toList = front.toList ++ rest.toList ∧ back = utf8 rest := by
  have joined : front.toList.utf8Encode ++ ⟨back.toArray⟩ = whole.toList.utf8Encode := by
    rw [String.utf8Encode_toList, String.utf8Encode_toList]
    apply ByteArray.ext
    apply Array.toList_inj.mp
    rw [ByteArray.data_append, Array.toList_append]
    exact same
  obtain ⟨rest, split⟩ := List.isPrefix_of_utf8Encode_append_eq_utf8Encode _ joined
  have whole_eq : whole = front ++ String.ofList rest := by
    rw [← String.toList_inj, String.toList_append, String.toList_ofList, split]
  refine ⟨String.ofList rest, by rw [String.toList_ofList, split], ?_⟩
  rw [whole_eq, utf8_append] at same
  exact List.append_cancel_left same

theorem isSpaceByte_of_isSpace {text : String}
    (each : ∀ char ∈ text.toList, Json.isSpace char = true) :
    ∀ byte ∈ utf8 text, isSpaceByte byte = true := by
  have bytes : utf8 text = text.toList.utf8Encode.data.toList := by
    rw [String.utf8Encode_toList]
    rfl
  rw [bytes]
  generalize text.toList = chars at each
  induction chars with
  | nil => exact fun byte member => absurd member List.not_mem_nil
  | cons char rest ih =>
    have first : ∀ byte ∈ [char].utf8Encode.data.toList, isSpaceByte byte = true := by
      have isSpace := each char List.mem_cons_self
      simp only [Json.isSpace, Bool.or_eq_true, beq_iff_eq] at isSpace
      rcases isSpace with ((rfl | rfl) | rfl) | rfl <;> decide +kernel
    rw [List.utf8Encode_cons, ByteArray.data_append, Array.toList_append]
    exact List.forall_mem_append.mpr ⟨first, ih fun later member =>
      each later (List.mem_cons_of_mem _ member)⟩

section Documents

variable {α : Type} {serde : Serde α} {value : α} {members : List (String × Json)}

/-- No proper beginning of the bytes of an object is read. -/
theorem fromSlice_take (isObject : serde.serialize value = .object members) {length : Nat}
    (proper : length < (toVec serde value).length) :
    ∃ message, fromSlice serde ((toVec serde value).take length) = .error message := by
  unfold fromSlice
  cases decoded : ofUtf8 ((toVec serde value).take length) with
  | none => exact ⟨_, rfl⟩
  | some document =>
    have whole : utf8 document ++ (toVec serde value).drop length =
        utf8 (String.ofList (serde.serialize value).render) := by
      rw [utf8_of_ofUtf8 decoded, List.take_append_drop]
      rfl
    obtain ⟨rest, split, isRest⟩ := utf8_split whole
    rw [String.toList_ofList, isObject] at split
    have nonempty : rest.toList ≠ [] := by
      intro empty
      have noRest : rest = "" := String.toList_inj.mp (by rw [empty]; rfl)
      have size := congrArg List.length isRest
      rw [noRest, List.length_drop] at size
      have none : (utf8 "").length = 0 := by decide
      omega
    refine ⟨"expected value", ?_⟩
    simp only [Json.parse_take_render split nonempty]

/-- What follows the bytes of an object is refused, unless it is whitespace. -/
theorem fromSlice_append (isObject : serde.serialize value = .object members) (more : Bytes) :
    (∃ message, fromSlice serde (toVec serde value ++ more) = .error message) ∨
      (∀ byte ∈ more, isSpaceByte byte = true) := by
  unfold fromSlice
  cases decoded : ofUtf8 (toVec serde value ++ more) with
  | none => exact .inl ⟨_, rfl⟩
  | some document =>
    have whole : utf8 (String.ofList (serde.serialize value).render) ++ more = utf8 document :=
      (utf8_of_ofUtf8 decoded).symm
    obtain ⟨rest, split, isRest⟩ := utf8_split whole
    rw [String.toList_ofList, isObject] at split
    by_cases blank : rest.toList.all Json.isSpace = true
    · exact .inr (isRest ▸ isSpaceByte_of_isSpace (List.all_eq_true.mp blank))
    · refine .inl ⟨"expected value", ?_⟩
      simp only [split, Json.parse_render_append, if_neg blank]

end Documents

/-! ## Sizes -/

theorem toVec_length {α : Type} (serde : Serde α) (value : α) :
    (toVec serde value).length = (serde.serialize value).size := by
  rw [toVec, utf8_length, String.utf8ByteSize_ofList, Json.size]

theorem size_entry (entry : Entry) : (JsonText.entry.serialize entry).size =
    (logId.serialize entry.logId).size + 22 +
      (entryPayload.serialize entry.payload).size := by
  have names : Json.textSize "log_id" = 8 ∧ Json.textSize "payload" = 9 := by decide
  simp only [JsonText.entry, record, Fields.and, Fields.one, List.singleton_append,
    Json.size_object, List.map_cons, List.map_nil, List.sum_cons, List.sum_nil, names]
  omega

theorem size_append (entries : List Entry) :
    (journalRecord.serialize (.append entries)).size =
      (entries.map fun entry => (logId.serialize entry.logId).size + 22 +
        (entryPayload.serialize entry.payload).size).sum + (entries.length - 1) + 13 := by
  have name : Json.textSize "Append" = 8 := by decide
  simp only [journalRecord, Json.size_tagged, list, Json.size_array, List.map_map, List.length_map,
    Function.comp_def, size_entry, name]
  omega

theorem size_normal (command : ShardCommand) :
    (entryPayload.serialize (.normal command)).size =
      (shardCommand.serialize command).size + 11 := by
  have name : Json.textSize "Normal" = 8 := by decide
  simp only [entryPayload, Json.size_tagged, name]
  omega

/-! ## The forms -/

/-- A type whose values are written as objects. -/
def form {α : Type} {finite : α → Prop} (serde : Serde α)
    (isObject : ∀ value, ∃ members, serde.serialize value = .object members)
    (reads : ∀ value, serde.Reads value (finite value)) : JsonForm α finite where
  toVec := toVec serde
  fromSlice := fromSlice serde
  fromSlice_toVec value isFinite := (fromSlice_toVec serde value).trans ((reads value).1 isFinite)
  fromSlice_null value infinite := by
    rw [fromSlice_toVec]
    exact (reads value).2 infinite
  fromSlice_take value _ proper :=
    let ⟨_, object⟩ := isObject value
    fromSlice_take object proper
  fromSlice_append value more :=
    let ⟨_, object⟩ := isObject value
    fromSlice_append object more

end JsonText

open JsonText (toVec_length form) in
/-- The JSON library on the documents that the engine writes. -/
def SerdeJson.spelled : SerdeJson where
  shardCommand := form JsonText.shardCommand (fun command => by cases command <;> exact ⟨_, rfl⟩)
    JsonText.reads_shardCommand
  journalRecord := form JsonText.journalRecord (fun record => by cases record <;> exact ⟨_, rfl⟩)
    JsonText.reads_journalRecord
  journalState := form JsonText.journalState (fun _ => ⟨_, rfl⟩) JsonText.reads_journalState
  appliedRecord := form JsonText.appliedRecord (fun _ => ⟨_, rfl⟩) JsonText.reads_appliedRecord
  stateSnapshot := form JsonText.stateSnapshot (fun _ => ⟨_, rfl⟩) JsonText.reads_stateSnapshot
  storedSnapshot := form JsonText.storedSnapshot (fun _ => ⟨_, rfl⟩) JsonText.reads_storedSnapshot
  checksummed pair := utf8 (String.ofList
    (Json.array [JsonText.snapshotMeta.serialize pair.1, (list u8).serialize pair.2]).render)
  logId := JsonText.toVec JsonText.logId
  entryPayload := JsonText.toVec JsonText.entryPayload
  length_append entries := by
    simp only [form, toVec_length]
    exact JsonText.size_append entries
  length_normal command := by
    simp only [form, toVec_length]
    exact JsonText.size_normal command

theorem SerdeJson.appliedRecord_length_le {record : AppliedRecord} {limit : Nat}
    (light : 4 * (JsonText.appliedRecord.serialize record).weight ≤ limit) :
    (spelled.appliedRecord.toVec record).length ≤ limit :=
  (JsonText.toVec_length_le _ _).trans light

theorem SerdeJson.stateSnapshot_length_le (snapshot : StateSnapshot) :
    (spelled.stateSnapshot.toVec snapshot).length ≤
      4 * (JsonText.stateSnapshot.serialize snapshot).weight :=
  JsonText.toVec_length_le _ _

end FocalVector.Raft
