import FocalVector.Persistence.Manifest
import FocalVector.Persistence.Segment
import FocalVector.Persistence.WalRecovery

/-!
Contract: the persistent collection.

An open collection is the in-memory collection, the graph index of every
current segment and the ids that changed since the last segment. A write goes
to the log before it is applied. A flush is a snapshot, a temporary segment and
its publication, which may be interleaved with writes and with other flushes.

Owns: `PersistentCollection`, the programs of opening, writing and the three
steps of a flush.

Does not own: searches, backups or the lock file. A publication that fails
returns no new state: the only step that can fail once the in-memory state was
touched is cutting the log, which is there as long as the collection is open.
-/

namespace FocalVector.Persistence

open FocalVector.Foundation FocalVector.Engine LittleEndian

inductive Durability where
  | sync
  | flush
deriving DecidableEq, Repr

structure IndexSegment (backend : IndexBackend) where
  sequence : UInt64
  index : backend.Graph

structure PersistentCollection (backend : IndexBackend) where
  inner : Collection
  durability : Durability
  indexes : List (IndexSegment backend)
  metadataIndex : Option backend.MetadataIndex
  dirtyIds : IdSet

/-! ## Loading the current segments -/

/-- The loop state of `load_current_segments`. -/
structure Loading (backend : IndexBackend) where
  collection : Collection
  indexes : List (IndexSegment backend)
  previousSequence : UInt64

def pushIndex (backend : IndexBackend) (indexes : List (IndexSegment backend))
    (sequence : UInt64) (index : backend.Graph) : List (IndexSegment backend) :=
  if backend.isEmpty index then indexes else indexes ++ [⟨sequence, index⟩]

def applySegment {backend : IndexBackend} (collection : Collection)
    (decoded : DecodedSegment backend) : Result Collection :=
  if decoded.full then
    collection.restoreStoredSnapshot decoded.points decoded.sequence
  else
    let upserted :=
      if decoded.points.isEmpty then collection
      else collection.applyPreparedUpsert decoded.points decoded.sequence
    .ok (upserted.applyDeleteAt decoded.tombstones decoded.sequence)

/-- The loop body of `load_current_segments`. -/
def loadSegment (backend : IndexBackend) (manifest : Manifest) (position : Nat) (bytes : Bytes)
    (state : Loading backend) : Result (Loading backend) :=
  if bytes.isEmpty then
    .error (.corruptStorage "segment file is empty")
  else do
    let decoded ← decodeSegment backend bytes
    if decoded.config ≠ state.collection.config then
      .error (.corruptStorage "segment configuration differs from collection metadata")
    else if position = 0 ∧ decoded.full = false then
      .error (.corruptStorage "manifest does not begin with a full segment")
    else if 0 < position ∧ (decoded.full = true ∨ decoded.sequence ≤ state.previousSequence) then
      .error (.corruptStorage "manifest segments are not ordered deltas")
    else if position + 1 = manifest.segments.length ∧ decoded.sequence ≠ manifest.sequence then
      .error (.corruptStorage "manifest and latest segment sequences differ")
    else do
      let collection ← applySegment state.collection decoded
      return {
        collection
        indexes := pushIndex backend state.indexes decoded.sequence decoded.index
        previousSequence := decoded.sequence }

def loadSegments (backend : IndexBackend) (manifest : Manifest) :
    Nat → List String → Loading backend → Fs (Loading backend)
  | _, [], state => pure state
  | position, name :: names, state => do
      let bytes ← readFile name
      let next ← Program.ofExcept (loadSegment backend manifest position bytes state)
      loadSegments backend manifest (position + 1) names next

/-- `load_current_segments`: the collection, the graphs, and the metadata index
when there is a manifest. -/
def loadCurrentSegments (backend : IndexBackend) (collection : Collection) :
    Fs (Collection × List (IndexSegment backend) × Option backend.MetadataIndex) := do
  match ← readManifest with
  | none => return (collection, [], none)
  | some manifest =>
    let loaded ← loadSegments backend manifest 0 manifest.segments ⟨collection, [], 0⟩
    return (loaded.collection, loaded.indexes,
      some (backend.buildMetadata loaded.collection.snapshotStoredPoints))

/-! ## Opening and writing -/

/-- `PersistentCollection::open`. -/
def openCollection (arith : FloatArithmetic) (backend : IndexBackend) (config : CollectionConfig)
    (durability : Durability) : Fs (PersistentCollection backend) := do
  ensureMetadata config
  openOrCreate walName
  let inner ← Program.ofExcept (Collection.new config)
  let (inner, indexes, metadataIndex) ← loadCurrentSegments backend inner
  let (inner, dirtyIds) ← recoverFile arith inner ∅
  return { inner, durability, indexes, metadataIndex, dirtyIds }

def settleLog : Durability → Fs Unit
  | .sync => io .sync
  | .flush => pure ()

/-- `append_frame`: a frame that could not be appended is cut off again. -/
def appendFrame (durability : Durability) (payload : Bytes) : Fs Unit :=
  if payload.length < 2 ^ 32 then do
    let wal ← readFile walName
    Program.rescue
      (do
        appendFile walName (walFormat.frame payload)
        settleLog durability)
      (Program.attempt (.setLen walName wal.length))
  else
    Program.raise (.invalidQuery "WAL record is too large")

namespace PersistentCollection

variable {backend : IndexBackend}

def latestSequence (store : PersistentCollection backend) : UInt64 := store.inner.latestSequence

def upsert (arith : FloatArithmetic) (store : PersistentCollection backend)
    (points : List UpsertPoint) : Fs (PersistentCollection backend × UInt64) := do
  let sequence ← Program.ofExcept store.inner.nextSequence
  let prepared ← Program.ofExcept (store.inner.prepareUpsert arith points sequence)
  let payload ← Program.ofExcept (encodeUpsert sequence prepared)
  appendFrame store.durability payload
  return ({ store with
    inner := store.inner.applyPreparedUpsert prepared sequence
    dirtyIds := store.dirtyIds.insertMany (prepared.map StoredPoint.id) }, sequence)

def delete (store : PersistentCollection backend) (ids : List String) :
    Fs (PersistentCollection backend × UInt64) :=
  if ids.isEmpty then
    Program.raise (.invalidQuery "delete batch must not be empty")
  else if ids.any String.isEmpty then
    Program.raise (.invalidQuery "point ID must not be empty")
  else do
    let sequence ← Program.ofExcept store.inner.nextSequence
    let payload ← Program.ofExcept (encodeDelete sequence ids)
    appendFrame store.durability payload
    return ({ store with
      inner := store.inner.applyDeleteAt ids sequence
      dirtyIds := store.dirtyIds.insertMany ids }, sequence)

end PersistentCollection

/-! ## Flushing -/

/-- The order in which a hash set of ids is walked. -/
structure IterationOrder where
  arrange : IdSet → List String
  perm : ∀ ids : IdSet, (arrange ids).Perm ids.toList

def IterationOrder.sorted : IterationOrder where
  arrange := fun ids => ids.toList
  perm := fun _ => .refl _

structure FlushSnapshot where
  config : CollectionConfig
  sequence : UInt64
  points : List StoredPoint
  graphPoints : List StoredPoint
  tombstones : List String
  compact : Bool

/-- A temporary segment that waits for its publication. -/
structure PreparedFlush (backend : IndexBackend) where
  sequence : UInt64
  temporarySegment : String
  metadataIndex : Option backend.MetadataIndex
  compact : Bool

namespace FlushSnapshot

/-- What `build_flush` writes into the segment. -/
def items (snapshot : FlushSnapshot) : SegmentItems where
  sequence := snapshot.sequence
  full := snapshot.compact
  points := if snapshot.compact then snapshot.points else snapshot.graphPoints
  tombstones := snapshot.tombstones

end FlushSnapshot

/-- `write_segment_file`: a file that could not be completed is removed. -/
def writeSegmentFile (backend : IndexBackend) (name : String) (config : CollectionConfig)
    (items : SegmentItems) (index : backend.Graph) : Fs Unit :=
  Program.rescue
    (match (putSegment backend config items index).run with
    | (.ok (), payload) => do
        io (.createNew name (withChecksum payload))
        io .sync
    | (.error error, payload) => do
        io (.createNew name payload)
        Program.raise error)
    (removeQuietly name)

/-- `build_flush`. -/
def buildFlush (backend : IndexBackend) (snapshot : FlushSnapshot) (stamp : Stamp) :
    Fs (PreparedFlush backend) := do
  let index ← Program.ofExcept (backend.build snapshot.config.dimension snapshot.config.metric
    (snapshot.graphPoints.map fun point => (point.id, point.vector)))
  let temporarySegment := temporarySegmentName snapshot.sequence stamp
  writeSegmentFile backend temporarySegment snapshot.config snapshot.items index
  return {
    sequence := snapshot.sequence
    temporarySegment
    metadataIndex := some (backend.buildMetadata snapshot.points)
    compact := snapshot.compact }

namespace PersistentCollection

variable {backend : IndexBackend}

/-- `flush_snapshot`: everything when compacting, the dirty ids otherwise. -/
def flushSnapshot (store : PersistentCollection backend) (order : IterationOrder) :
    FlushSnapshot :=
  let points := store.inner.snapshotStoredPoints
  let compact := store.indexes.isEmpty || decide (maxIndexSegments ≤ store.indexes.length)
  { config := store.inner.config
    sequence := store.latestSequence
    points
    graphPoints := if compact then points else points.filter (store.dirtyIds.contains ·.id)
    tombstones :=
      if compact then []
      else (order.arrange store.dirtyIds).filter fun id => (store.inner.points.get id).isNone
    compact }

def claimSegment (store : PersistentCollection backend) (prepared : PreparedFlush backend) :
    Fs (DecodedSegment backend) := do
  renameFile prepared.temporarySegment (segmentName prepared.sequence)
  syncDirectory
  let bytes ← readFile (segmentName prepared.sequence)
  let decoded ← Program.ofExcept (decodeSegment backend bytes)
  if decoded.config ≠ store.inner.config ∨ decoded.sequence ≠ prepared.sequence ∨
      decoded.full ≠ prepared.compact then
    Program.raise (.corruptStorage "prepared segment changed before publication")
  else
    pure decoded

/-- The names of the manifest that follows `previous`. -/
def publishedNames (prepared : PreparedFlush backend) (previous : Option Manifest) :
    List String :=
  (if prepared.compact then [] else (previous.map Manifest.segments).getD []) ++
    [segmentName prepared.sequence]

def checkpointLog (store : PersistentCollection backend) (prepared : PreparedFlush backend) :
    Fs IdSet :=
  if store.latestSequence = prepared.sequence then do
    setFileLength walName 0
    io .sync
    pure ∅
  else
    pure store.dirtyIds

def retireSegments (prepared : PreparedFlush backend) (previous : Option Manifest) : Fs Unit :=
  if prepared.compact then
    (((previous.map Manifest.segments).getD []).filter
      (· ≠ segmentName prepared.sequence)).forM removeQuietly
  else
    pure ()

/-- `publish_flush` once the manifest was found not to be newer. -/
def publishSegment (process : Nat) (store : PersistentCollection backend)
    (prepared : PreparedFlush backend) (previous : Option Manifest) :
    Fs (PersistentCollection backend × UInt64) := do
  let decoded ← store.claimSegment prepared
  publishManifest process prepared.sequence (publishedNames prepared previous)
  let inner := store.inner.replacePersistedPoints decoded.points
  let dirtyIds ← store.checkpointLog prepared
  retireSegments prepared previous
  return ({ store with
    inner
    dirtyIds
    indexes := pushIndex backend (if prepared.compact then [] else store.indexes)
      prepared.sequence decoded.index
    metadataIndex := prepared.metadataIndex }, prepared.sequence)

/-- `publish_flush`; dropping the prepared flush removes its temporary file. -/
def publishFlush (process : Nat) (store : PersistentCollection backend)
    (prepared : PreparedFlush backend) : Fs (PersistentCollection backend × UInt64) :=
  Program.cleanup
    (do
      let previous ← readManifest
      match previous with
      | some manifest =>
        if prepared.sequence < manifest.sequence then
          return (store, manifest.sequence)
        else
          store.publishSegment process prepared previous
      | none => store.publishSegment process prepared none)
    (removeQuietly prepared.temporarySegment)

/-- `flush`: nothing to do, or all three steps in a row. -/
def flush (process : Nat) (store : PersistentCollection backend) (order : IterationOrder)
    (stamp : Stamp) : Fs (PersistentCollection backend × UInt64) :=
  if store.dirtyIds.isEmpty ∧ store.indexes ≠ [] then
    pure (store, store.latestSequence)
  else do
    let prepared ← buildFlush backend (store.flushSnapshot order) stamp
    store.publishFlush process prepared

end PersistentCollection

end FocalVector.Persistence
