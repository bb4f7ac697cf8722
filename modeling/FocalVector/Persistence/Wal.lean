import FocalVector.Persistence.Codec
import FocalVector.Foundation.FramedLog

/-!
Contract: the records of the write-ahead log and their replay.

A record is an operation tag, a sequence, and a batch: prepared points, or ids
to remove. Replay skips records a loaded snapshot already contains, insists on
consecutive sequences, and prepares and applies the batch as the live call did.

Owns: `encodeUpsert`, `encodeDelete`, `applyPayload`, the frame format of the
log and the recovery of a whole log, with the exact conditions under which a
written record is replayed.

Does not own: the log file, which the store appends to and truncates.
-/

namespace FocalVector.Persistence

open FocalVector.Foundation FocalVector.Engine LittleEndian

/-! ## Writing records -/

def putPoint (point : StoredPoint) : Output := do
  putString point.id
  putCount point.vector.length
  putVector point.vector
  putMetadata point.metadata

def encodeUpsert (sequence : UInt64) (points : List StoredPoint) : Result Bytes :=
  Encoder.bytes do
    .put [1]
    .put (u64Bytes sequence)
    putCount points.length
    points.forM putPoint

def encodeDelete (sequence : UInt64) (ids : List String) : Result Bytes :=
  Encoder.bytes do
    .put [2]
    .put (u64Bytes sequence)
    putCount ids.length
    ids.forM putString

/-- The record of a batch. -/
def encodeWrite (sequence : UInt64) : Write → Result Bytes
  | .upsert points => encodeUpsert sequence points
  | .delete ids => encodeDelete sequence ids

/-! ## Replaying records -/

/-- A batch as it is read back, before it is prepared. -/
inductive Change where
  | upsert (points : List UpsertPoint)
  | delete (ids : List String)

namespace Input

def upsertPoint (dimension : Nat) : Input UpsertPoint := do
  let id ← string
  let stored ← count
  Decoder.reject (stored ≠ dimension) (.corruptStorage
    s!"stored vector dimension {stored} differs from collection dimension {dimension}")
  let vector ← Decoder.collect f32 stored
  let metadata ← metadata
  pure { id, vector, metadata }

/-- The batch of a record with the given operation tag. -/
def change (dimension : Nat) (operation : UInt8) : Input Change :=
  match operation with
  | 1 => do
      let count ← count
      let points ← Decoder.collect (upsertPoint dimension) count
      pure (.upsert points)
  | 2 => do
      let count ← count
      Decoder.reject (count = 0) (.corruptStorage "empty delete WAL record")
      let ids ← Decoder.collect string count
      pure (.delete ids)
  | tag => throw (.corruptStorage s!"unknown WAL operation {tag}")

end Input

def applyChange (arith : FloatArithmetic) (collection : Collection) (sequence : UInt64) :
    Change → Result (Collection × List String)
  | .upsert points => do
      let prepared ← collection.prepareUpsert arith points sequence
      return (collection.applyPreparedUpsert prepared sequence, points.map UpsertPoint.id)
  | .delete ids => return (collection.applyDeleteAt ids sequence, ids)

def applyPayload (arith : FloatArithmetic) (collection : Collection) (payload : Bytes) :
    Result (Collection × List String) :=
  Decoder.run (do
    let operation ← Input.byte
    let sequence ← Input.u64
    -- A manifest can become durable immediately before the log is truncated:
    -- records already in the snapshot are skipped.
    if sequence ≤ collection.latestSequence then
      pure (collection, [])
    else do
      let expected ← Decoder.ofExcept collection.nextSequence
      Decoder.reject (sequence ≠ expected) (.corruptStorage
        s!"non-consecutive WAL sequence: expected {expected}, got {sequence}")
      let change ← Input.change collection.config.dimension operation
      Input.finish
      Decoder.ofExcept (applyChange arith collection sequence change)) payload

/-! ## The log -/

def walFormat : FrameFormat where
  header := [0x46, 0x56, 0x57, 0x4c]
  maxPayload := maxFrameBytes
  checksum := crc32c
  maxPayload_lt := by decide
  detects := fun left right _ _ differ => crc32c_single_byte left right differ

def walFault : FrameFault → Nat → Error
  | .badHeader, frameStart => .corruptStorage s!"invalid WAL magic at byte {frameStart}"
  | .tooLong, frameStart =>
    .corruptStorage s!"WAL frame at byte {frameStart} exceeds the size limit"
  | .badChecksum, frameStart => .corruptStorage s!"WAL checksum mismatch at byte {frameStart}"

/-- The loop body of `recover` on a whole frame. -/
def recoverStep (arith : FloatArithmetic) (state : Collection × IdSet) (payload : Bytes) :
    Result (Collection × IdSet) := do
  let (collection, changed) ← applyPayload arith state.1 payload
  return (collection, state.2.insertMany changed)

/-- `recover`: the collection and dirty ids after the log, and the length of
the part of the log that is kept. -/
def recover (arith : FloatArithmetic) (wal : Bytes) (collection : Collection)
    (dirtyIds : IdSet) : Result ((Collection × IdSet) × Nat) :=
  walFormat.recover walFault (recoverStep arith) wal 0 (collection, dirtyIds)

/-! ## The bytes of a record -/

def toUpsertPoint (point : StoredPoint) : UpsertPoint :=
  { id := point.id, vector := point.vector, metadata := point.metadata }

def pointBytes (point : UpsertPoint) : Bytes :=
  stringBytes point.id ++ countBytes point.vector.length ++ vectorBytes point.vector ++
    metadataBytes point.metadata

def operationTag : Write → UInt8
  | .upsert _ => 1
  | .delete _ => 2

def changeBytes : Write → Bytes
  | .upsert points =>
    countBytes points.length ++ points.flatMap fun point => pointBytes (toUpsertPoint point)
  | .delete ids => countBytes ids.length ++ ids.flatMap stringBytes

def recordBytes (sequence : UInt64) (write : Write) : Bytes :=
  operationTag write :: (u64Bytes sequence ++ changeBytes write)

def PointWithin (limit : Nat) (point : StoredPoint) : Prop :=
  StringWithin limit point.id ∧ point.vector.length ≤ limit ∧ MetadataWithin limit point.metadata

def WriteWithin (limit : Nat) : Write → Prop
  | .upsert points => points.length ≤ limit ∧ ∀ point ∈ points, PointWithin limit point
  | .delete ids => ids.length ≤ limit ∧ ∀ id ∈ ids, StringWithin limit id

def WriteFinite : Write → Prop
  | .upsert points => ∀ point ∈ points, MetadataFinite point.metadata
  | .delete _ => True

instance (limit : Nat) (point : StoredPoint) : Decidable (PointWithin limit point) :=
  inferInstanceAs (Decidable (_ ∧ _ ∧ _))

instance (limit : Nat) : (write : Write) → Decidable (WriteWithin limit write)
  | .upsert points => inferInstanceAs
      (Decidable (points.length ≤ limit ∧ ∀ point ∈ points, PointWithin limit point))
  | .delete ids => inferInstanceAs
      (Decidable (ids.length ≤ limit ∧ ∀ id ∈ ids, StringWithin limit id))

open Encoder (Writes)

theorem writes_putPoint (point : StoredPoint) :
    Writes (putPoint point) (fun _ => pointBytes (toUpsertPoint point))
      (PointWithin wireLimit point ∧ MetadataFinite point.metadata) := by
  refine ((writes_putString _).seq ((writes_putCount _).seq
    ((writes_putVector _).seq (writes_putMetadata _)))).congr ?_ ?_
  · intro position
    simp [pointBytes, toUpsertPoint, List.append_assoc]
  · simp [PointWithin, and_assoc]

/-- A batch is encoded exactly when its counts fit four bytes and its metadata
numbers are finite. -/
theorem encodeWrite_eq (sequence : UInt64) (write : Write) :
    (WriteWithin wireLimit write ∧ WriteFinite write →
      encodeWrite sequence write = .ok (recordBytes sequence write)) ∧
    (¬ (WriteWithin wireLimit write ∧ WriteFinite write) →
      ∃ error, encodeWrite sequence write = .error error) := by
  cases write with
  | upsert points =>
    have body := Writes.forM points fun point _ => writes_putPoint point
    have whole : Writes _ (fun _ => recordBytes sequence (.upsert points))
        (WriteWithin wireLimit (.upsert points) ∧ WriteFinite (.upsert points)) :=
      ((Writes.put [1]).seq ((Writes.put (u64Bytes sequence)).seq
        ((writes_putCount points.length).seq body))).congr
          (fun _ => by simp [recordBytes, operationTag, changeBytes])
          (by simp [WriteWithin, WriteFinite, and_assoc, forall₂_and])
    exact whole.bytes_eq
  | delete ids =>
    have body := Writes.forM ids fun id _ => writes_putString id
    have whole : Writes _ (fun _ => recordBytes sequence (.delete ids))
        (WriteWithin wireLimit (.delete ids) ∧ WriteFinite (.delete ids)) :=
      ((Writes.put [2]).seq ((Writes.put (u64Bytes sequence)).seq
        ((writes_putCount ids.length).seq body))).congr
          (fun _ => by simp [recordBytes, operationTag, changeBytes])
          (by simp [WriteWithin, WriteFinite])
    exact whole.bytes_eq

theorem encodeWrite_eq_ok {sequence : UInt64} {write : Write} {payload : Bytes}
    (encoded : encodeWrite sequence write = .ok payload) :
    WriteWithin wireLimit write ∧ WriteFinite write ∧ payload = recordBytes sequence write := by
  by_cases accepted : WriteWithin wireLimit write ∧ WriteFinite write
  · rw [(encodeWrite_eq sequence write).1 accepted] at encoded
    exact ⟨accepted.1, accepted.2, (Except.ok.inj encoded).symm⟩
  · obtain ⟨error, fails⟩ := (encodeWrite_eq sequence write).2 accepted
    rw [fails] at encoded
    contradiction

/-! ## Reading a record back -/

/-- The batch a record's reader returns. -/
def toChange : Write → Change
  | .upsert points => .upsert (points.map toUpsertPoint)
  | .delete ids => .delete ids

/-- A batch of the shape the live calls commit: nonempty, with nonempty ids, and
every point of the collection's dimension and of the batch's sequence. -/
def WellShaped (config : CollectionConfig) (sequence : UInt64) : Write → Prop
  | .upsert points => points ≠ [] ∧ ∀ point ∈ points,
      point.vector.length = config.dimension ∧ point.id.isEmpty = false ∧
      point.sequence = sequence
  | .delete ids => ids ≠ [] ∧ ∀ id ∈ ids, id.isEmpty = false

def Accepted (arith : FloatArithmetic) (config : CollectionConfig) (sequence : UInt64) :
    Write → Prop
  | .upsert points => ∃ (collection : Collection) (source : List UpsertPoint),
      collection.config = config ∧ collection.prepareUpsert arith source sequence = .ok points
  | .delete ids => ids ≠ [] ∧ ∀ id ∈ ids, id.isEmpty = false

def prepareAgain (arith : FloatArithmetic) (config : CollectionConfig) (point : StoredPoint) :
    Result StoredPoint := do
  let vector ← config.metric.prepare arith point.vector
  return { point with vector }

/-- The batch that replay commits for a recorded one: its vectors are prepared
a second time. -/
def replayWrite (arith : FloatArithmetic) (config : CollectionConfig) : Write → Result Write
  | .upsert points => do
      let prepared ← points.mapM (prepareAgain arith config)
      return .upsert prepared
  | .delete ids => return .delete ids

def VectorsFinite : Write → Prop
  | .upsert points => ∀ point ∈ points, ∀ value ∈ point.vector, value.isFinite = true
  | .delete _ => True

section Replayed

variable {arith : FloatArithmetic} {config : CollectionConfig} {sequence : UInt64}
  {write : Write}

theorem Accepted.wellShaped (accepted : Accepted arith config sequence write) :
    WellShaped config sequence write := by
  cases write with
  | upsert points =>
    obtain ⟨collection, source, rfl, prepared⟩ := accepted
    obtain ⟨nonempty, each⟩ := Collection.prepareUpsert_eq_ok prepared
    refine ⟨nonempty, fun point member => ?_⟩
    obtain ⟨_, _, fields⟩ := each point member
    exact ⟨fields.dimension, fields.nonempty, fields.sequenced⟩
  | delete ids => exact accepted

theorem mapM_prepareAgain_self {points : List StoredPoint}
    (fixed : ∀ point ∈ points, config.metric.prepare arith point.vector = .ok point.vector) :
    points.mapM (prepareAgain arith config) = .ok points := by
  refine (Checked.mapM_of_forall (g := id) fun point member => ?_).trans (by rw [List.map_id])
  simp only [prepareAgain, fixed point member]
  rfl

theorem Accepted.replays (accepted : Accepted arith config sequence write)
    (idempotent : config.metric.PrepareIdempotent arith) :
    replayWrite arith config write = .ok write := by
  cases write with
  | upsert points =>
    obtain ⟨collection, source, rfl, prepared⟩ := accepted
    have fixed : ∀ point ∈ points,
        collection.config.metric.prepare arith point.vector = .ok point.vector := by
      intro point member
      obtain ⟨_, _, fields⟩ := (Collection.prepareUpsert_eq_ok prepared).2 point member
      exact idempotent _ _ fields.prepared
    simp only [replayWrite, mapM_prepareAgain_self fixed]
    rfl
  | delete ids => rfl

theorem vectorsFinite_of_replayWrite {again : Write}
    (replays : replayWrite arith config write = .ok again) : VectorsFinite write := by
  cases write with
  | upsert points =>
    cases prepared : points.mapM (prepareAgain arith config) with
    | error error => simp [replayWrite, prepared, bind, Except.bind] at replays
    | ok stored =>
      intro point member
      obtain ⟨_, again⟩ := ok_of_mapM prepared point member
      obtain ⟨vector, prepares, -⟩ := Result.of_bind_ok again
      exact Metric.prepare_finite prepares
  | delete ids => trivial

end Replayed

namespace Input

open Decoder (Reads Stable)

theorem reads_upsertPoint (position : Nat) {point : StoredPoint}
    (fits : PointWithin wireLimit point) (finite : MetadataFinite point.metadata) :
    Reads (upsertPoint point.vector.length) position (pointBytes (toUpsertPoint point))
      (toUpsertPoint point)
      (PointWithin maxItems point ∧ ∀ value ∈ point.vector, value.isFinite = true) := by
  have whole : Reads (upsertPoint point.vector.length) position
      (stringBytes point.id ++ (countBytes point.vector.length ++
        (vectorBytes point.vector ++ metadataBytes point.metadata))) (toUpsertPoint point)
      (StringWithin maxItems point.id ∧ point.vector.length ≤ maxItems ∧
        ¬ point.vector.length ≠ point.vector.length ∧
        (∀ value ∈ point.vector, value.isFinite = true) ∧
        MetadataWithin maxItems point.metadata) :=
    (reads_string position fits.1).bind ((reads_count _ fits.2.1).bind
      ((Reads.reject _ _ _).check_bind ((reads_vector _ point.vector).bind
        ((reads_metadata _ fits.2.2 finite).bind_pure rfl))))
  simp only [← List.append_assoc] at whole
  exact whole.congr (by simp only [PointWithin]; tauto)

theorem stable_upsertPoint (dimension : Nat) : Stable (upsertPoint dimension) :=
  stable_string.bind fun _ => stable_count.bind fun _ => (Stable.reject _ _).bind fun _ =>
    (stable_f32.collect _).bind fun _ => stable_metadata.bind fun _ => Stable.pure _

theorem stable_change (dimension : Nat) (operation : UInt8) :
    Stable (change dimension operation) := by
  unfold change
  split
  · exact stable_count.bind fun count => ((stable_upsertPoint dimension).collect count).bind
      fun _ => Stable.pure _
  · exact stable_count.bind fun count => (Stable.reject _ _).bind fun _ =>
      (stable_string.collect count).bind fun _ => Stable.pure _
  · exact Stable.throw _

/-- The batch of a record is read back exactly when it is within the limits of
the decoder and its vectors are finite. -/
theorem reads_change (position : Nat) {config : CollectionConfig} {sequence : UInt64}
    {write : Write} (shaped : WellShaped config sequence write)
    (fits : WriteWithin wireLimit write) (finite : WriteFinite write) :
    Reads (change config.dimension (operationTag write)) position (changeBytes write)
      (toChange write) (WriteWithin maxItems write ∧ VectorsFinite write) := by
  cases write with
  | upsert points =>
    have each : ∀ point ∈ points, ∀ position, Reads (upsertPoint config.dimension) position
        (pointBytes (toUpsertPoint point)) (toUpsertPoint point)
        (PointWithin maxItems point ∧ ∀ value ∈ point.vector, value.isFinite = true) := by
      intro point member position
      obtain ⟨dimension, -, -⟩ := shaped.2 point member
      rw [← dimension]
      exact reads_upsertPoint position (fits.2 point member) (finite point member)
    have items := Reads.collect_map points each (position + (countBytes points.length).length)
    rw [Decoder.encodeAll_const] at items
    have whole : Reads (change config.dimension 1) position (changeBytes (.upsert points))
        (.upsert (points.map toUpsertPoint)) (points.length ≤ maxItems ∧ ∀ point ∈ points,
          PointWithin maxItems point ∧ ∀ value ∈ point.vector, value.isFinite = true) :=
      (reads_count position fits.1).bind (items.bind_pure rfl)
    exact whole.congr (by simp only [WriteWithin, VectorsFinite, forall₂_and, and_assoc])
  | delete ids =>
    have nonempty : ids.length ≠ 0 := fun empty =>
      shaped.1 (List.length_eq_zero_iff.mp empty)
    have texts := Reads.collect_list ids (fun id member position =>
      reads_string position (fits.2 id member)) (position + (countBytes ids.length).length)
    rw [Decoder.encodeAll_const] at texts
    have whole : Reads (change config.dimension 2) position (changeBytes (.delete ids))
        (.delete ids) (ids.length ≤ maxItems ∧ ¬ ids.length = 0 ∧
          ∀ id ∈ ids, StringWithin maxItems id) :=
      (reads_count position fits.1).bind
        ((Reads.reject _ _ _).check_bind (texts.bind_pure rfl))
    exact whole.congr (by simp [WriteWithin, VectorsFinite, nonempty])

end Input

/-! ## What replay does with a record -/

section Replay

variable {arith : FloatArithmetic} {collection : Collection} {sequence : UInt64} {write : Write}

/-- The rest of `apply_payload` once the sequence is known to be the next one. -/
def applyBody (arith : FloatArithmetic) (collection : Collection) (sequence : UInt64)
    (operation : UInt8) : Input (Collection × List String) := do
  let change ← Input.change collection.config.dimension operation
  Input.finish
  Decoder.ofExcept (applyChange arith collection sequence change)

/-- The first nine bytes decide whether a record is read at all. -/
theorem applyPayload_header (operation : UInt8) (body : Bytes) :
    applyPayload arith collection (operation :: (u64Bytes sequence ++ body)) =
      if sequence ≤ collection.sequence then .ok (collection, [])
      else collection.nextSequence.bind fun expected =>
        if sequence ≠ expected then
          .error (.corruptStorage
            s!"non-consecutive WAL sequence: expected {expected}, got {sequence}")
        else
          (applyBody arith collection sequence operation
            ⟨operation :: (u64Bytes sequence ++ body), 9⟩).map Prod.fst := by
  have tag := (Input.reads_byte 0 operation [] (u64Bytes sequence ++ body) rfl).1 trivial
  have number := (Input.reads_u64 1 sequence [operation] body rfl).1 trivial
  simp only [List.nil_append, List.cons_append, List.length_singleton,
    Nat.zero_add, u64Bytes_length] at tag number
  unfold applyPayload Decoder.run
  rw [Decoder.bind_ok tag, Decoder.bind_ok number]
  by_cases stale : sequence ≤ collection.sequence
  · have staleLatest : sequence ≤ collection.latestSequence := stale
    rw [if_pos stale, if_pos staleLatest]
    rfl
  · have freshLatest : ¬ sequence ≤ collection.latestSequence := stale
    rw [if_neg stale, if_neg freshLatest]
    cases next : collection.nextSequence with
    | error error => rfl
    | ok expected =>
      have advance : Decoder.ofExcept (.ok expected : Result UInt64)
          ⟨operation :: (u64Bytes sequence ++ body), 1 + 8⟩ =
            .ok (expected, ⟨operation :: (u64Bytes sequence ++ body), 1 + 8⟩) := rfl
      rw [Decoder.bind_ok advance]
      unfold Decoder.reject
      simp only [Except.bind]
      by_cases same : sequence = expected
      · rw [if_neg (not_not_intro same), if_neg (not_not_intro same)]
        rfl
      · rw [if_pos same, if_pos same]
        rfl

theorem applyChange_eq_ok {change : Change} {next : Collection} {changed : List String}
    (applies : applyChange arith collection sequence change = .ok (next, changed)) :
    ∃ write, next = collection.applyWrite write sequence ∧ (∀ id ∈ write.ids, id ∈ changed) ∧
      ∀ points, write = .upsert points → ∀ point ∈ points,
        point.vector.length = collection.config.dimension ∧ point.sequence = sequence := by
  cases change with
  | delete ids =>
    cases applies
    exact ⟨.delete changed, rfl, fun _ member => member, nofun⟩
  | upsert points =>
    cases prepares : collection.prepareUpsert arith points sequence with
    | error error => simp [applyChange, prepares, Bind.bind, Except.bind] at applies
    | ok prepared =>
      simp only [applyChange, prepares, Bind.bind, Except.bind] at applies
      cases applies
      obtain ⟨-, each⟩ := Collection.prepareUpsert_eq_ok prepares
      refine ⟨.upsert prepared, rfl, fun id member => ?_, ?_⟩
      · obtain ⟨stored, isPrepared, rfl⟩ := List.mem_map.mp member
        obtain ⟨point, isPoint, fields⟩ := each stored isPrepared
        exact List.mem_map.mpr ⟨point, isPoint, fields.sameId.symm⟩
      · rintro _ ⟨rfl⟩ point member
        obtain ⟨_, _, fields⟩ := each point member
        exact ⟨fields.dimension, fields.sequenced⟩

/-- A record that is replayed is skipped, or commits a batch of the next sequence. -/
theorem applyPayload_eq_ok {payload : Bytes} {next : Collection} {changed : List String}
    (applies : applyPayload arith collection payload = .ok (next, changed)) :
    next = collection ∨ ∃ sequence write, collection.nextSequence = .ok sequence ∧
      next = collection.applyWrite write sequence ∧ (∀ id ∈ write.ids, id ∈ changed) ∧
      ∀ points, write = .upsert points → ∀ point ∈ points,
        point.vector.length = collection.config.dimension ∧ point.sequence = sequence := by
  obtain ⟨final, reads⟩ := Decoder.of_run_ok applies
  obtain ⟨operation, second, -, reads⟩ := Decoder.of_bind_ok reads
  obtain ⟨sequence, third, -, reads⟩ := Decoder.of_bind_ok reads
  split at reads
  · cases reads
    exact .inl rfl
  · right
    obtain ⟨expected, fourth, granted, reads⟩ := Decoder.of_bind_ok reads
    obtain ⟨_, fifth, accepted, reads⟩ := Decoder.of_bind_ok reads
    obtain ⟨change, sixth, -, reads⟩ := Decoder.of_bind_ok reads
    obtain ⟨_, seventh, -, applied⟩ := Decoder.of_bind_ok reads
    have same : sequence = expected := by
      unfold Decoder.reject at accepted
      split at accepted
      · cases accepted
      · rename_i agrees
        exact not_not.mp agrees
    subst same
    obtain ⟨write, result⟩ := applyChange_eq_ok (Decoder.of_ofExcept_ok applied)
    exact ⟨sequence, write, Decoder.of_ofExcept_ok granted, result⟩

theorem not_le_of_nextSequence (next : collection.nextSequence = .ok sequence) :
    ¬ sequence ≤ collection.sequence := by
  have advanced := Collection.nextSequence_eq_ok next
  rw [UInt64.le_iff_toNat_le]
  omega

/-- A record at or below the collection's sequence is skipped unread. -/
theorem applyPayload_stale (stale : sequence ≤ collection.sequence) (operation : UInt8)
    (body : Bytes) :
    applyPayload arith collection (operation :: (u64Bytes sequence ++ body)) =
      .ok (collection, []) := by
  rw [applyPayload_header, if_pos stale]

/-- A record of the next sequence goes on to its batch. -/
theorem applyPayload_fresh (next : collection.nextSequence = .ok sequence) (operation : UInt8)
    (body : Bytes) :
    applyPayload arith collection (operation :: (u64Bytes sequence ++ body)) =
      (applyBody arith collection sequence operation
        ⟨operation :: (u64Bytes sequence ++ body), 9⟩).map Prod.fst := by
  rw [applyPayload_header, if_neg (not_le_of_nextSequence next), next]
  simp only [Except.bind, ne_eq, not_true_eq_false, if_false]

theorem preparePoint_toUpsertPoint {point : StoredPoint} {config : CollectionConfig}
    (dimension : point.vector.length = config.dimension) (named : point.id.isEmpty = false)
    (sequenced : point.sequence = sequence) :
    Collection.preparePoint arith config sequence (toUpsertPoint point) =
      prepareAgain arith config point := by
  unfold Collection.preparePoint toUpsertPoint prepareAgain
  simp only [dimension, ne_eq, not_true_eq_false, if_false, named]
  rw [← sequenced]
  rfl

theorem prepareUpsert_toUpsertPoint {points : List StoredPoint}
    (shaped : WellShaped collection.config sequence (.upsert points)) :
    collection.prepareUpsert arith (points.map toUpsertPoint) sequence =
      points.mapM (prepareAgain arith collection.config) := by
  have nonempty : (points.map toUpsertPoint).isEmpty = false := by
    simpa using shaped.1
  have each := shaped.2
  unfold Collection.prepareUpsert
  rw [if_neg (by simp [nonempty])]
  clear nonempty shaped
  induction points with
  | nil => rfl
  | cons point rest ih =>
    obtain ⟨dimension, named, sequenced⟩ := each point List.mem_cons_self
    rw [List.map_cons, List.mapM_cons, List.mapM_cons,
      preparePoint_toUpsertPoint dimension named sequenced,
      ih fun later member => each later (List.mem_cons_of_mem _ member)]

/-- Replaying a batch commits what replay makes of it. -/
theorem applyChange_toChange (shaped : WellShaped collection.config sequence write) :
    applyChange arith collection sequence (toChange write) =
      (replayWrite arith collection.config write).map fun again =>
        (collection.applyWrite again sequence, write.ids) := by
  cases write with
  | upsert points =>
    simp only [applyChange, toChange, prepareUpsert_toUpsertPoint shaped, replayWrite]
    cases points.mapM (prepareAgain arith collection.config) with
    | error error => rfl
    | ok prepared =>
      simp only [bind, Except.bind, pure, Except.pure, List.map_map, Except.map]
      rfl
  | delete ids => rfl

/-- A recorded batch that replay accepts: the decoder reads it, and its vectors
can be prepared again. -/
def Replayable (arith : FloatArithmetic) (config : CollectionConfig) (write : Write) : Prop :=
  WriteWithin maxItems write ∧ ∃ again, replayWrite arith config write = .ok again

def asReplayed (arith : FloatArithmetic) (config : CollectionConfig) (write : Write) : Write :=
  (replayWrite arith config write).toOption.getD write

theorem asReplayed_eq {again : Write} {config : CollectionConfig}
    (replays : replayWrite arith config write = .ok again) :
    asReplayed arith config write = again := by
  unfold asReplayed
  rw [replays]
  rfl

/-- A record of the next sequence is replayed exactly when replay accepts its
batch and nothing stands behind it. -/
theorem applyPayload_record (next : collection.nextSequence = .ok sequence)
    (shaped : WellShaped collection.config sequence write)
    (fits : WriteWithin wireLimit write) (finite : WriteFinite write) (after : Bytes) :
    (Replayable arith collection.config write ∧ after = [] →
      applyPayload arith collection (recordBytes sequence write ++ after) =
        .ok (collection.applyWrite (asReplayed arith collection.config write) sequence,
          write.ids)) ∧
    (¬ (Replayable arith collection.config write ∧ after = []) → ∃ error,
      applyPayload arith collection (recordBytes sequence write ++ after) = .error error) := by
  have shape : recordBytes sequence write ++ after =
      operationTag write :: (u64Bytes sequence ++ (changeBytes write ++ after)) := by
    simp [recordBytes, List.append_assoc]
  have bodyShape : operationTag write :: (u64Bytes sequence ++ (changeBytes write ++ after)) =
      (operationTag write :: u64Bytes sequence) ++ changeBytes write ++ after := by
    simp [List.append_assoc]
  have body := (Input.reads_change 9 shaped fits finite).finish
    (.corruptStorage "trailing bytes in WAL payload") (applyChange arith collection sequence)
    (show (operationTag write :: u64Bytes sequence).length = 9 by simp) after
  rw [shape, applyPayload_fresh next, bodyShape]
  constructor
  · rintro ⟨⟨within, again, replays⟩, nothing⟩
    have applied : applyBody arith collection sequence (operationTag write) _ = _ :=
      body.1 ⟨⟨within, vectorsFinite_of_replayWrite replays⟩, nothing⟩
    rw [applied, applyChange_toChange shaped, replays, asReplayed_eq replays]
    rfl
  · intro rejected
    by_cases read : (WriteWithin maxItems write ∧ VectorsFinite write) ∧ after = []
    · -- The batch is read, so that it is the second preparation that fails.
      have applied : applyBody arith collection sequence (operationTag write) _ = _ :=
        body.1 read
      rw [applied, applyChange_toChange shaped]
      cases replays : replayWrite arith collection.config write with
      | error error => exact ⟨error, rfl⟩
      | ok again => exact absurd ⟨⟨read.1.1, again, replays⟩, read.2⟩ rejected
    · obtain ⟨error, fails⟩ := body.2 read
      have applied : applyBody arith collection sequence (operationTag write) _ = _ := fails
      exact ⟨error, by rw [applied]; rfl⟩

/-- A payload without a whole header is refused. -/
theorem applyPayload_short {payload : Bytes} (short : payload.length < 9) :
    ∃ error, applyPayload arith collection payload = .error error := by
  unfold applyPayload Decoder.run
  cases payload with
  | nil => exact ⟨_, rfl⟩
  | cons operation rest =>
    have tag := (Input.reads_byte 0 operation [] rest rfl).1 trivial
    simp only [List.nil_append, List.singleton_append, List.length_singleton,
      Nat.zero_add] at tag
    have noSequence : Input.u64 ⟨operation :: rest, 1⟩ =
        .error (.corruptStorage "truncated WAL payload") := by
      have beyond : ¬ 1 + 8 ≤ (operation :: rest).length := by omega
      exact Decoder.bind_error (if_neg beyond)
    rw [Decoder.bind_ok tag, Decoder.bind_error noSequence]
    exact ⟨_, rfl⟩

theorem applyPayload_cut (next : collection.nextSequence = .ok sequence)
    (shaped : WellShaped collection.config sequence write)
    (fits : WriteWithin wireLimit write) (finite : WriteFinite write) {length : Nat}
    (shorter : length < (recordBytes sequence write).length) :
    ∃ error, applyPayload arith collection ((recordBytes sequence write).take length) =
      .error error := by
  have headLength : (operationTag write :: u64Bytes sequence).length = 9 := by simp
  have shape : recordBytes sequence write =
      (operationTag write :: u64Bytes sequence) ++ changeBytes write := by
    simp [recordBytes]
  rw [shape, List.length_append, headLength] at shorter
  rw [shape]
  by_cases inHeader : length < 9
  · refine applyPayload_short ?_
    rw [List.length_take]
    omega
  · have inBody : length - 9 < (changeBytes write).length := by omega
    have cut : ((operationTag write :: u64Bytes sequence) ++ changeBytes write).take length =
        operationTag write :: (u64Bytes sequence ++ (changeBytes write).take (length - 9)) := by
      rw [List.take_append, headLength, List.take_of_length_le (by omega)]
      rfl
    obtain ⟨error, fails⟩ := (Input.reads_change 9 shaped fits finite).fails_of_strict
      (Input.stable_change _ _) headLength inBody
    rw [List.cons_append] at fails
    rw [cut, applyPayload_fresh next]
    refine ⟨error, ?_⟩
    unfold applyBody
    rw [Decoder.bind_error fails]
    rfl

end Replay

end FocalVector.Persistence
