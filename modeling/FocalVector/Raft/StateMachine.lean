import FocalVector.Raft.Journal

/-!
Contract: the durable state machine of a replicated shard.

An entry is prepared against the current state, which fixes its response, then
journalled together with that response, then replayed. A snapshot is the whole
state as one sealed document. Opening restores the snapshot and replays the
journal records behind it.

Owns: `preparePayload`, `replayRecord`, the state machine and its programs:
opening, applying, building and installing snapshots, refreshing the index.

Does not own: searches, or how a graph is built over points that passed the
checks of `build_quantized_prepared`.
-/

namespace FocalVector.Raft

open FocalVector.Foundation FocalVector.Engine FocalVector.Persistence LittleEndian

/-! ## The replicated state -/

/-- What every replica computes from the log. -/
structure ShardState where
  collection : Collection
  lastApplied : Option LogId
  membership : StoredMembership
  dedup : Dedup

def commandIdentity : ShardCommand → String × UInt64
  | .upsert clientId requestId _ => (clientId, requestId)
  | .delete clientId requestId _ => (clientId, requestId)

namespace Dedup

def response (dedup : Dedup) (identity : String × UInt64) : Option ShardResponse :=
  dedup[identity.1]?.bind fun requests => requests[identity.2]?

def record (dedup : Dedup) (identity : String × UInt64) (response : ShardResponse) : Dedup :=
  dedup.insert identity.1 ((dedup[identity.1]?.getD ∅).insert identity.2 response)

end Dedup

def decideResponse (arith : FloatArithmetic) (collection : Collection) (command : ShardCommand) :
    ShardResponse :=
  match command, collection.nextSequence with
  | _, .error _ => .rejected "collection sequence overflow"
  | .upsert _ _ points, .ok sequence =>
    match collection.prepareUpsert arith points sequence with
    | .ok _ => .applied sequence
    | .error error => .rejected error.toText
  | .delete _ _ ids, .ok sequence =>
    if ids.isEmpty || ids.any String.isEmpty then .rejected "delete IDs must be non-empty"
    else .applied sequence

def preparePayload (arith : FloatArithmetic) (state : ShardState) (entry : Entry) :
    AppliedPayload × ShardResponse :=
  match entry.payload with
  | .blank => (.blank, .applied state.collection.latestSequence)
  | .membership membership =>
    (.membership membership, .applied state.collection.latestSequence)
  | .normal command =>
    match state.dedup.response (commandIdentity command) with
    | some response => (.command command response, response)
    | none =>
      let response := decideResponse arith state.collection command
      (.command command response, response)

def commandIds : ShardCommand → List String
  | .upsert _ _ points => points.map UpsertPoint.id
  | .delete _ _ ids => ids

def applyCommand (arith : FloatArithmetic) (collection : Collection) (command : ShardCommand)
    (sequence : UInt64) : Result Collection :=
  match command with
  | .upsert _ _ points => do
      let prepared ← collection.prepareUpsert arith points sequence
      return collection.applyPreparedUpsert prepared sequence
  | .delete _ _ ids => return collection.applyDeleteAt ids sequence

/-- `replay_record` on the replicated state and the ids to be indexed anew. -/
def replayRecord (arith : FloatArithmetic) (state : ShardState) (dirtyIds : IdSet)
    (record : AppliedRecord) : Result (ShardState × IdSet) :=
  match record.payload with
  | .blank => .ok ({ state with lastApplied := some record.logId }, dirtyIds)
  | .membership membership =>
    .ok ({ state with
      membership := ⟨some record.logId, membership⟩
      lastApplied := some record.logId }, dirtyIds)
  | .command command response =>
    if (state.dedup.response (commandIdentity command)).isSome then
      .ok ({ state with lastApplied := some record.logId }, dirtyIds)
    else
      let dedup := state.dedup.record (commandIdentity command) response
      match response with
      | .applied sequence => do
          let collection ← applyCommand arith state.collection command sequence
          return ({ state with collection, dedup, lastApplied := some record.logId },
            dirtyIds.insertMany (commandIds command))
      | .rejected _ => .ok ({ state with dedup, lastApplied := some record.logId }, dirtyIds)

/-! ## Indexes -/

/-- The indexes of a shard, which this layer builds but does not look into. -/
structure ShardIndexes where
  Graph : Type
  /-- `build_prepared_points`: the graph over points that passed all checks. -/
  buildPreparedPoints : Nat → Metric → List (String × List F32) → Result Graph
  MetadataIndex : Type
  buildMetadata : List StoredPoint → MetadataIndex

/-- The loop of `build_quantized_prepared` over its points. -/
def checkPoints (dimension : Nat) : IdSet → List (String × List F32) → Result Unit
  | _, [] => .ok ()
  | seen, (id, vector) :: rest =>
    if id.isEmpty then .error (.invalidQuery "point ID must not be empty")
    else if seen.contains id then .error (.invalidQuery "HNSW point IDs must be unique")
    else if vector.length ≠ dimension then
      .error (.invalidDimension dimension vector.length)
    else if vector.any (fun value => !value.isFinite) then
      .error (.invalidVector "components must be finite")
    else checkPoints dimension (seen.insert id) rest

/-- `HnswIndex::build_quantized_prepared` with a configuration that is valid. -/
def buildQuantizedPrepared (indexes : ShardIndexes) (dimension : Nat) (metric : Metric)
    (points : List (String × List F32)) : Result indexes.Graph :=
  if dimension = 0 then .error (.invalidConfig "dimension must be greater than zero")
  else do
    checkPoints dimension ∅ points
    indexes.buildPreparedPoints dimension metric points

def buildIndexes (indexes : ShardIndexes) (config : CollectionConfig) (points : List StoredPoint) :
    Result (indexes.Graph × indexes.MetadataIndex) := do
  let graph ← buildQuantizedPrepared indexes config.dimension config.metric
    (points.map fun point => (point.id, point.vector))
  return (graph, indexes.buildMetadata points)

/-- A point of the given dimension that can be a node. -/
structure Indexable (dimension : Nat) (point : String × List F32) : Prop where
  named : point.1.isEmpty = false
  sized : point.2.length = dimension
  finite : ∀ component ∈ point.2, component.isFinite = true

theorem checkPoints_cons {dimension : Nat} {seen : IdSet} {point : String × List F32}
    {rest : List (String × List F32)} :
    checkPoints dimension seen (point :: rest) = .ok () ↔
      Indexable dimension point ∧ point.1 ∉ seen ∧
        checkPoints dimension (seen.insert point.1) rest = .ok () := by
  obtain ⟨id, vector⟩ := point
  rw [checkPoints]
  split
  next empty => exact ⟨nofun, fun ok => absurd (ok.1.named.symm.trans empty) Bool.false_ne_true⟩
  split
  next isSeen => exact ⟨nofun, fun ok => absurd (Std.ExtTreeSet.contains_iff_mem.mp isSeen) ok.2.1⟩
  split
  next wrong => exact ⟨nofun, fun ok => absurd ok.1.sized wrong⟩
  split
  next infinite =>
    obtain ⟨component, member, notFinite⟩ := List.any_eq_true.mp infinite
    exact ⟨nofun, fun ok => by simp [ok.1.finite component member] at notFinite⟩
  next named fresh sized finite =>
    have indexable : Indexable dimension (id, vector) :=
      ⟨by simpa using named, not_not.mp sized, by simpa using finite⟩
    have isFresh : id ∉ seen := fun isSeen => fresh (Std.ExtTreeSet.contains_iff_mem.mpr isSeen)
    exact ⟨fun checked => ⟨indexable, isFresh, checked⟩, fun ok => ok.2.2⟩

theorem checkPoints_eq_ok {dimension : Nat} {seen : IdSet} {points : List (String × List F32)} :
    checkPoints dimension seen points = .ok () ↔
      (∀ point ∈ points, Indexable dimension point) ∧ (points.map Prod.fst).Nodup ∧
        ∀ point ∈ points, point.1 ∉ seen := by
  induction points generalizing seen with
  | nil => simp [checkPoints]
  | cons point rest ih =>
    rw [checkPoints_cons, ih, List.forall_mem_cons, List.forall_mem_cons,
      List.map_cons, List.nodup_cons]
    simp only [Std.ExtTreeSet.mem_insert, Std.compare_eq_iff_eq, not_or, forall₂_and,
      List.mem_map, not_exists, not_and]
    constructor
    · rintro ⟨indexable, fresh, each, distinct, others, later⟩
      exact ⟨⟨indexable, each⟩, ⟨fun other member same => others other member same.symm, distinct⟩,
        fresh, later⟩
    · rintro ⟨⟨indexable, each⟩, ⟨others, distinct⟩, fresh, later⟩
      exact ⟨indexable, fresh, each, distinct,
        fun other member same => others other member same.symm, later⟩

theorem buildIndexes_eq_ok {indexes : ShardIndexes} {config : CollectionConfig}
    {points : List StoredPoint} {built : indexes.Graph × indexes.MetadataIndex} :
    buildIndexes indexes config points = .ok built ↔
      config.dimension ≠ 0 ∧
      (∀ point ∈ points, Indexable config.dimension (point.id, point.vector)) ∧
      (points.map StoredPoint.id).Nodup ∧
      indexes.buildPreparedPoints config.dimension config.metric
        (points.map fun point => (point.id, point.vector)) = .ok built.1 ∧
      indexes.buildMetadata points = built.2 := by
  have checks : checkPoints config.dimension ∅ (points.map fun point => (point.id, point.vector)) =
      .ok () ↔ (∀ point ∈ points, Indexable config.dimension (point.id, point.vector)) ∧
        (points.map StoredPoint.id).Nodup := by
    rw [checkPoints_eq_ok, List.forall_mem_map, List.map_map]
    simp [Function.comp_def]
  unfold buildIndexes buildQuantizedPrepared
  by_cases positive : config.dimension = 0
  · simp [positive, bind, Except.bind]
  rw [if_neg positive, and_iff_right positive, ← and_assoc, ← and_assoc, ← checks, and_assoc]
  cases checkPoints config.dimension ∅ (points.map fun point => (point.id, point.vector)) with
  | error error => simp [bind, Except.bind]
  | ok =>
    cases indexes.buildPreparedPoints config.dimension config.metric
        (points.map fun point => (point.id, point.vector)) with
    | error error => simp [bind, Except.bind]
    | ok graph => simp [bind, Except.bind, pure, Except.pure, Prod.ext_iff]

theorem buildIndexes_finite {indexes : ShardIndexes} {config : CollectionConfig}
    {points : List StoredPoint} {built : indexes.Graph × indexes.MetadataIndex}
    (builds : buildIndexes indexes config points = .ok built) :
    ∀ point ∈ points, ∀ component ∈ point.vector, component.isFinite = true :=
  fun point member => ((buildIndexes_eq_ok.mp builds).2.1 point member).finite

/-! ## Snapshots -/

def ShardState.snapshot (config : CollectionConfig) (state : ShardState) : StateSnapshot where
  config
  points := state.collection.snapshotStoredPoints
  collectionSequence := state.collection.latestSequence
  lastApplied := state.lastApplied
  membership := state.membership
  dedup := state.dedup

def ShardState.snapshotMeta (state : ShardState) (nonce : Nat) : SnapshotMeta where
  lastLogId := state.lastApplied
  lastMembership := state.membership
  snapshotId :=
    let index := (state.lastApplied.map fun applied => applied.index.toNat).getD 0
    toString index ++ "-" ++ toString nonce

/-! ## Files -/

def stateJournal : Journal where
  file := "state.journal"
  format := {
    header := [0x46, 0x56, 0x52, 0x53, 1]
    maxPayload := 256 * 1024 * 1024
    checksum := crc32c
    maxPayload_lt := by decide
    detects := fun left right _ _ differ => crc32c_single_byte left right differ }
  tooLarge := "state record exceeds size limit"
  fault
    | .badHeader => "invalid state journal header"
    | .tooLong => "state record exceeds size limit"
    | .badChecksum => "state journal checksum mismatch"

def snapshotName : String := "state.snapshot"

/-- `path.with_extension`: the extension of the snapshot's name is replaced. -/
def snapshotTemporaryName (process : Nat) : String := "state.tmp-" ++ toString process

def snapshotMagic : Bytes := [0x46, 0x56, 0x53, 0x53]

def snapshotVersion : UInt8 := 1

/-- The characters of a name up to the first that tells the files of a state
machine apart. -/
private def stem (name : String) : List Char := name.toList.take 7

private theorem stem_snapshotTemporaryName (process : Nat) :
    stem (snapshotTemporaryName process) = ['s', 't', 'a', 't', 'e', '.', 't'] := by
  have long : 7 ≤ "state.tmp-".toList.length := by decide
  rw [stem, snapshotTemporaryName, String.toList_append, List.take_append_of_le_length long]
  decide

private theorem ne_of_stem {left right : String} (differ : stem left ≠ stem right) : left ≠ right :=
  fun same => differ (congrArg stem same)

private theorem stem_snapshotName : stem snapshotName = ['s', 't', 'a', 't', 'e', '.', 's'] := by
  decide

private theorem stem_stateJournal :
    stem stateJournal.file = ['s', 't', 'a', 't', 'e', '.', 'j'] := by
  decide

theorem snapshot_ne_temporary (process : Nat) : snapshotName ≠ snapshotTemporaryName process :=
  ne_of_stem (by simp [stem_snapshotName, stem_snapshotTemporaryName])

theorem stateJournal_ne_temporary (process : Nat) :
    stateJournal.file ≠ snapshotTemporaryName process :=
  ne_of_stem (by simp [stem_stateJournal, stem_snapshotTemporaryName])

theorem stateJournal_ne_snapshot : stateJournal.file ≠ snapshotName :=
  ne_of_stem (by simp [stem_stateJournal, stem_snapshotName])

/-! ## Programs -/

section Programs

variable (arith : FloatArithmetic) (json : SerdeJson) (indexes : ShardIndexes)

/-- `encode_state_snapshot`. No vector holds `2 ^ 63` bytes, so a document that
long is refused here at the latest. -/
def encodeStateSnapshot (snapshot : StateSnapshot) : Result Bytes :=
  let payload := json.stateSnapshot.toVec snapshot
  if 17 + payload.length < 2 ^ 63 then .ok (sealed snapshotMagic snapshotVersion payload)
  else .error (.corruptStorage "Raft snapshot is too large")

def decodeStateSnapshot (bytes : Bytes) : Result StateSnapshot :=
  if bytes.take 4 ≠ snapshotMagic then
    -- A document without the magic is read as plain JSON.
    (json.stateSnapshot.fromSlice bytes).mapError .corruptStorage
  else if bytes.length < 17 ∨ bytes[4]? ≠ some snapshotVersion then
    .error (.corruptStorage "invalid Raft snapshot header")
  else
    let length := (u64OfBytes ((bytes.drop 5).take 8)).toNat
    if 2 ^ 64 ≤ 17 + length then
      .error (.corruptStorage "Raft snapshot length overflow")
    else if bytes.length ≠ 17 + length then
      .error (.corruptStorage "truncated Raft snapshot")
    else
      let payload := (bytes.drop 13).take length
      if crc32c payload ≠ u32OfBytes (bytes.drop (13 + length)) then
        .error (.corruptStorage "Raft snapshot checksum mismatch")
      else
        (json.stateSnapshot.fromSlice payload).mapError .corruptStorage

def storedSnapshotChecksum (snapshotMeta : SnapshotMeta) (data : Bytes) : UInt32 :=
  crc32c (json.checksummed (snapshotMeta, data))

def StoredSnapshot.sealing (snapshotMeta : SnapshotMeta) (data : Bytes) : StoredSnapshot :=
  { snapshotMeta, data, checksum := some (storedSnapshotChecksum json snapshotMeta data) }

def writeSnapshot (process : Nat) (stored : StoredSnapshot) : Fs Unit :=
  replaceFile (snapshotTemporaryName process) snapshotName (json.storedSnapshot.toVec stored)

/-- `read_snapshot` on the bytes of the file. -/
def decodeStoredSnapshot (bytes : Bytes) : Result StoredSnapshot :=
  match json.storedSnapshot.fromSlice bytes with
  | .error message => .error (.corruptStorage message)
  | .ok stored =>
    if stored.checksum.any (· ≠ storedSnapshotChecksum json stored.snapshotMeta stored.data) then
      .error (.corruptStorage "stored Raft snapshot checksum mismatch")
    else
      .ok stored

def readSnapshot : Fs (Option StoredSnapshot) := do
  if ← fileExists snapshotName then
    let bytes ← readFile snapshotName
    let stored ← Program.ofExcept (decodeStoredSnapshot json bytes)
    return some stored
  else
    return none

def restoreSnapshot (snapshot : StateSnapshot) :
    Result (ShardState × (indexes.Graph × indexes.MetadataIndex)) := do
  let built ← buildIndexes indexes snapshot.config snapshot.points
  let empty ← Collection.new snapshot.config
  let collection ← empty.restoreStoredSnapshot snapshot.points snapshot.collectionSequence
  return ({
    collection
    lastApplied := snapshot.lastApplied
    membership := snapshot.membership
    dedup := snapshot.dedup }, built)

structure ShardMachine where
  config : CollectionConfig
  state : ShardState
  index : Option indexes.Graph
  metadataIndex : Option indexes.MetadataIndex
  dirtyIds : IdSet
  currentSnapshot : Option StoredSnapshot

/-- What `open` starts from: the stored snapshot, or nothing. -/
def loadState (config : CollectionConfig) (empty : Collection) (current : Option StoredSnapshot) :
    Result (ShardState × Option (indexes.Graph × indexes.MetadataIndex)) :=
  match current with
  | none => .ok (⟨empty, none, .initial, ∅⟩, none)
  | some stored => do
      let snapshot ← decodeStateSnapshot json stored.data
      if snapshot.config ≠ config then
        .error (.corruptStorage "Raft snapshot collection configuration mismatch")
      else do
        let (state, built) ← restoreSnapshot indexes snapshot
        return (state, some built)

/-- The loop body of `open` over the journal. -/
def openStep (current : ShardState × IdSet) (record : AppliedRecord) :
    Result (ShardState × IdSet) :=
  if current.1.lastApplied.any fun applied => record.logId.index ≤ applied.index then
    .ok current
  else
    replayRecord arith current.1 current.2 record

/-- `DurableShardStateMachine::open`. -/
def openMachine (config : CollectionConfig) : Fs (ShardMachine indexes) := do
  let empty ← Program.ofExcept (Collection.new config)
  let current ← readSnapshot json
  let (state, built) ← Program.ofExcept (loadState json indexes config empty current)
  openOrCreate stateJournal.file
  let records ← stateJournal.recoverFile json.appliedRecord
    (fun records record => records ++ [record]) []
  let (state, dirtyIds) ← Program.ofExcept (records.foldlM (openStep arith) (state, ∅))
  return {
    config
    state
    index := built.map Prod.fst
    metadataIndex := built.map Prod.snd
    dirtyIds
    currentSnapshot := current }

variable {indexes}

/-- The loop body of `apply`. -/
def applyEntry (machine : ShardMachine indexes) (entry : Entry) :
    Fs (ShardMachine indexes × ShardResponse) := do
  let (payload, response) := preparePayload arith machine.state entry
  stateJournal.append json.appliedRecord ⟨entry.logId, payload⟩
  let (state, dirtyIds) ← Program.ofExcept
    (replayRecord arith machine.state machine.dirtyIds ⟨entry.logId, payload⟩)
  return ({ machine with state, dirtyIds }, response)

/-- `apply`: the machine after the entries that went through, and the responses
unless one did not. -/
def applyEntries (machine : ShardMachine indexes) :
    List Entry → Fs (ShardMachine indexes × Result (List ShardResponse))
  | [] => return (machine, .ok [])
  | entry :: rest => do
      match ← (applyEntry arith json machine entry).capture with
      | .error error => return (machine, .error error)
      | .ok (next, response) =>
        let (final, responses) ← applyEntries next rest
        return (final, responses.map (response :: ·))

def buildSnapshot (process nonce : Nat) (machine : ShardMachine indexes) :
    Fs (ShardMachine indexes × StoredSnapshot) := do
  let built ← Program.ofExcept (buildIndexes indexes machine.config
    machine.state.collection.snapshotStoredPoints)
  let data ← Program.ofExcept (encodeStateSnapshot json
    (machine.state.snapshot machine.config))
  let stored := StoredSnapshot.sealing json (machine.state.snapshotMeta nonce) data
  writeSnapshot json process stored
  return ({ machine with
    currentSnapshot := some stored
    index := some built.1
    metadataIndex := some built.2
    dirtyIds := ∅ }, stored)

def installSnapshot (process : Nat) (machine : ShardMachine indexes) (snapshotMeta : SnapshotMeta)
    (data : Bytes) : Fs (ShardMachine indexes) := do
  let decoded ← Program.ofExcept (decodeStateSnapshot json data)
  if decoded.config ≠ machine.config then
    Program.raise (.io "snapshot config mismatch")
  else do
    let stored := StoredSnapshot.sealing json snapshotMeta data
    writeSnapshot json process stored
    let (state, built) ← Program.ofExcept (restoreSnapshot indexes decoded)
    setFileLength stateJournal.file 0
    io .sync
    return {
      config := machine.config
      state
      index := some built.1
      metadataIndex := some built.2
      dirtyIds := ∅
      currentSnapshot := some stored }

end Programs

/-! ## Refreshing the index -/

def minReindexedPoints : Nat := 256

def reindexDirtyDivisor : Nat := 5

def shouldRebuildIndex (indexed : Bool) (dirtyCount pointCount : Nat) : Bool :=
  if dirtyCount < minReindexedPoints then false
  else !indexed || decide (max ((pointCount + reindexDirtyDivisor - 1) / reindexDirtyDivisor)
    minReindexedPoints ≤ dirtyCount)

/-- The first part of `refresh_index_if_needed`: the points to index, taken under
the lock of the state machine. -/
def ShardMachine.beginRefresh {indexes : ShardIndexes} (machine : ShardMachine indexes) :
    Option (UInt64 × List StoredPoint) :=
  if shouldRebuildIndex machine.index.isSome machine.dirtyIds.size
      machine.state.collection.points.length then
    some (machine.state.collection.latestSequence, machine.state.collection.snapshotStoredPoints)
  else
    none

/-- The second part: the indexes are kept if nothing was written meanwhile. -/
def ShardMachine.finishRefresh {indexes : ShardIndexes} (machine : ShardMachine indexes)
    (sequence : UInt64) (points : List StoredPoint) : Result (ShardMachine indexes) := do
  let built ← buildIndexes indexes machine.config points
  if machine.state.collection.latestSequence = sequence then
    return { machine with
      index := some built.1
      metadataIndex := some built.2
      dirtyIds := ∅ }
  else
    return machine

end FocalVector.Raft
