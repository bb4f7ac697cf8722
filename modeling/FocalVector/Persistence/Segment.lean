import FocalVector.Persistence.Codec

/-!
Contract: segment files.

A segment holds points with aligned vectors, the ids a delta removes, and the
graph index over its points, under one checksum. The graph and the metadata
index are a parameter: the segment layer only stores the graph's bytes and
compares its dimension, metric and ids with its own.

Owns: `IndexBackend`, the segment writer and decoder, and the exact conditions
under which a written segment is decoded, and to what.

Does not own: how segments are chained. Offsets that overflow the address space
are left out, since they stay inside the file.
-/

namespace FocalVector.Persistence

open FocalVector.Foundation FocalVector.Engine LittleEndian

/-- The indexes the storage engine builds and stores but does not look into. -/
structure IndexBackend where
  Graph : Type
  /-- `HnswIndex::build_quantized_prepared` with the default configuration. -/
  build : Nat → Metric → List (String × List F32) → Result Graph
  encodedLen : Graph → Result Nat
  /-- The bytes `encode_into` writes, and how it ends. -/
  encode : Graph → Bytes × Result Unit
  /-- `HnswIndex::decode_mapped` on graph bytes at an offset of a mapped file. -/
  decodeMapped : Bytes → Bytes → Nat → Result Graph
  dimension : Graph → Nat
  metric : Graph → Metric
  ids : Graph → List String
  MetadataIndex : Type
  buildMetadata : List StoredPoint → MetadataIndex

namespace IndexBackend

def len (backend : IndexBackend) (graph : backend.Graph) : Nat := (backend.ids graph).length

def isEmpty (backend : IndexBackend) (graph : backend.Graph) : Bool := backend.len graph == 0

/-- `encode_into`. -/
def encodeInto (backend : IndexBackend) (graph : backend.Graph) : Output := do
  .put (backend.encode graph).1
  match (backend.encode graph).2 with
  | .ok () => pure ()
  | .error error => throw error

end IndexBackend

/-! ## Vectors -/

def vectorOfBytes : Bytes → List F32
  | a :: b :: c :: d :: rest => ⟨u32OfBytes [a, b, c, d]⟩ :: vectorOfBytes rest
  | _ => []

/-! ## Writing a segment -/

def segmentMagic : Bytes := [0x46, 0x56, 0x53, 0x47]

def segmentVersion : UInt8 := 3

def legacySegmentVersion : UInt8 := 2

/-- Zeros that bring the bytes behind them to a multiple of four. -/
def putPadding : Output :=
  Encoder.atPosition fun position => do
    let padding := (4 - (position + 1) % 4) % 4
    .put [UInt8.ofNat padding]
    .put (List.replicate padding 0)

def putSegmentPoint (point : StoredPoint) : Output := do
  putString point.id
  .put (u64Bytes point.sequence)
  putPadding
  putVector point.vector
  putMetadata point.metadata

/-- What stands in a segment between its fixed header and its graph. -/
structure SegmentItems where
  sequence : UInt64
  full : Bool
  points : List StoredPoint
  tombstones : List String

def putItems (config : CollectionConfig) (items : SegmentItems) : Output := do
  .put segmentMagic
  .put [segmentVersion]
  .put [metricTag config.metric]
  .put (u64Bytes (UInt64.ofNat config.dimension))
  .put (u64Bytes items.sequence)
  .put [if items.full then 0 else 1]
  putCount items.points.length
  items.points.forM putSegmentPoint
  putCount items.tombstones.length
  items.tombstones.forM putString

def putGraph (backend : IndexBackend) (graph : backend.Graph) : Output :=
  match backend.encodedLen graph with
  | .ok length => do
      putCount length
      backend.encodeInto graph
  | .error error => throw error

/-- What `write_segment_file` writes under the checksum. -/
def putSegment (backend : IndexBackend) (config : CollectionConfig) (items : SegmentItems)
    (graph : backend.Graph) : Output := do
  putItems config items
  putGraph backend graph

/-! ## Decoding a segment -/

structure DecodedSegment (backend : IndexBackend) where
  config : CollectionConfig
  sequence : UInt64
  points : List StoredPoint
  tombstones : List String
  index : backend.Graph
  full : Bool

namespace Input

def padding : Input Unit := do
  let length ← byte
  Decoder.reject (3 < length.toNat) (.corruptStorage "invalid vector alignment padding")
  let zeros ← take length.toNat
  Decoder.reject (zeros.any (· != 0)) (.corruptStorage "invalid vector alignment padding")

/-- A vector that is mapped in place. `mapped` is the offset of the decoder's
input in the file. -/
def mappedVector (mapped dimension : Nat) : Input (List F32) := do
  let offset ← Decoder.position
  let bytes ← take (dimension * 4)
  Decoder.reject ((mapped + offset) % 4 ≠ 0)
    (.corruptStorage "mapped vector is unaligned or outside its segment")
  Decoder.reject ((vectorOfBytes bytes).any (fun value => !value.isFinite))
    (.corruptStorage "segment contains a non-finite vector")
  pure (vectorOfBytes bytes)

def segmentVector (version : UInt8) (dimension : Nat) : Input (List F32) :=
  if version = segmentVersion then do
    padding
    mappedVector 14 dimension
  else
    Decoder.collect f32 dimension

def segmentPoint (version : UInt8) (dimension : Nat) : Input StoredPoint := do
  let id ← string
  let sequence ← u64
  let vector ← segmentVector version dimension
  let metadata ← metadata
  pure { id, vector, metadata, sequence }

/-- The ids a delta removes: nonempty and distinct from the ones `seen`. -/
def tombstones (seen : List String) : Nat → Input (List String)
  | 0 => pure []
  | count + 1 => do
      let id ← string
      Decoder.reject (id.isEmpty ∨ id ∈ seen)
        (.corruptStorage "segment contains an empty or duplicate tombstone")
      let rest ← tombstones (id :: seen) count
      pure (id :: rest)

def segmentKind (version : UInt8) : Input Bool :=
  if version = segmentVersion then do
    match ← byte with
    | 0 => pure true
    | 1 => pure false
    | _ => throw (.corruptStorage "invalid segment kind")
  else
    pure true

def segmentTombstones (version : UInt8) : Input (List String) :=
  if version = segmentVersion then do
    let count ← count
    tombstones [] count
  else
    pure []

end Input

def sameIds (left right : List String) : Bool :=
  left.all (right.contains ·) && right.all (left.contains ·)

def matchGraph (backend : IndexBackend) (config : CollectionConfig) (points : List StoredPoint)
    (graph : backend.Graph) : Result Unit :=
  if backend.dimension graph ≠ config.dimension ∨ backend.metric graph ≠ config.metric ∨
      points.length < backend.len graph then
    .error (.corruptStorage "HNSW graph does not match its segment")
  else if !sameIds (backend.ids graph) (points.map StoredPoint.id) then
    .error (.corruptStorage "HNSW graph IDs do not match its segment")
  else
    .ok ()

def Input.segmentItems (version : UInt8) (dimension : Nat) : Input SegmentItems := do
  let sequence ← u64
  let full ← segmentKind version
  let count ← count
  let points ← Decoder.collect (segmentPoint version dimension) count
  let tombstones ← segmentTombstones version
  Decoder.reject (full = true ∧ tombstones ≠ [])
    (.corruptStorage "full segment contains tombstones")
  pure { sequence, full, points, tombstones }

def Input.segmentGraph (backend : IndexBackend) (file : Bytes) : Input backend.Graph := do
  let graphLength ← u32
  let graphOffset ← Decoder.position
  let graphBytes ← take graphLength.toNat
  let index ← Decoder.ofExcept (backend.decodeMapped graphBytes file (14 + graphOffset))
  finish
  pure index

/-- The part of a segment behind its fixed header, up to the checksum. -/
def segmentBody (backend : IndexBackend) (file : Bytes) (version : UInt8)
    (config : CollectionConfig) : Input (DecodedSegment backend) := do
  let items ← Input.segmentItems version config.dimension
  let index ← Input.segmentGraph backend file
  Decoder.ofExcept do
    matchGraph backend config items.points index
    return ⟨config, items.sequence, items.points, items.tombstones, index, items.full⟩

/-- `decode_segment_mapped`. -/
def decodeSegment (backend : IndexBackend) (bytes : Bytes) : Result (DecodedSegment backend) :=
  let version := (bytes.drop 4).headD 0
  let payload := bytes.take (bytes.length - 4)
  if bytes.length < 30 ∨ bytes.take 4 ≠ segmentMagic ∨
      ¬ (version = legacySegmentVersion ∨ version = segmentVersion) then
    .error (.corruptStorage "invalid segment header")
  else if crc32c payload ≠ u32OfBytes (bytes.drop (bytes.length - 4)) then
    .error (.corruptStorage "segment checksum mismatch")
  else do
    let metric ← parseMetric ((bytes.drop 5).headD 0)
    let dimension := u64OfBytes ((bytes.drop 6).take 8)
    if dimension = 0 ∨ maxItems < dimension.toNat then
      .error (.corruptStorage "invalid segment dimension")
    else
      Decoder.run
        (segmentBody backend bytes version ⟨dimension.toNat, metric, dimension.toNat_lt⟩)
        (payload.drop 14)

/-! ## The bytes of a segment -/

/-- How far the byte behind a position is from a multiple of four. -/
def alignment (position : Nat) : Nat := (4 - (position + 1) % 4) % 4

def paddingBytes (position : Nat) : Bytes :=
  UInt8.ofNat (alignment position) :: List.replicate (alignment position) 0

def segmentPointBytes (position : Nat) (point : StoredPoint) : Bytes :=
  stringBytes point.id ++ (u64Bytes point.sequence ++
    (paddingBytes (position + (stringBytes point.id).length + 8) ++
      (vectorBytes point.vector ++ metadataBytes point.metadata)))

def segmentHeader (config : CollectionConfig) : Bytes :=
  segmentMagic ++ ([segmentVersion] ++ ([metricTag config.metric] ++
    u64Bytes (UInt64.ofNat config.dimension)))

def itemsBytes (position : Nat) (items : SegmentItems) : Bytes :=
  u64Bytes items.sequence ++ ([if items.full then 0 else 1] ++
    (countBytes items.points.length ++
      (Decoder.encodeAll segmentPointBytes (position + 13) items.points ++
        (countBytes items.tombstones.length ++ items.tombstones.flatMap stringBytes))))

def SegmentPointWithin (limit : Nat) (point : StoredPoint) : Prop :=
  StringWithin limit point.id ∧ MetadataWithin limit point.metadata

def ItemsWithin (limit : Nat) (items : SegmentItems) : Prop :=
  items.points.length ≤ limit ∧ (∀ point ∈ items.points, SegmentPointWithin limit point) ∧
    items.tombstones.length ≤ limit ∧ ∀ id ∈ items.tombstones, StringWithin limit id

theorem ItemsWithin.mono {small large : Nat} {items : SegmentItems} (le : small ≤ large)
    (within : ItemsWithin small items) : ItemsWithin large items := by
  have value {value : Value} (fits : ValueWithin small value) : ValueWithin large value := by
    cases value with
    | keyword text => exact Nat.le_trans fits le
    | integer | float | boolean => exact trivial
  obtain ⟨fewPoints, points, fewTombstones, tombstones⟩ := within
  refine ⟨fewPoints.trans le, fun point member => ?_, fewTombstones.trans le,
    fun id member => (tombstones id member).trans le⟩
  obtain ⟨id, size, entries⟩ := points point member
  exact ⟨id.trans le, size.trans le, fun entry member =>
    ⟨(entries entry member).1.trans le, value (entries entry member).2⟩⟩

def ItemsFinite (items : SegmentItems) : Prop :=
  ∀ point ∈ items.points, MetadataFinite point.metadata

open Encoder (Writes)

theorem writes_putPadding : Writes putPadding paddingBytes True := by
  have each : ∀ position, Writes (do
      let padding := (4 - (position + 1) % 4) % 4
      .put [UInt8.ofNat padding]
      .put (List.replicate padding 0) : Output) (fun _ => paddingBytes position) True :=
    fun position => ((Writes.put _).seq (Writes.put _)).congr (fun _ => rfl) (by simp)
  exact @Writes.atPosition _ _ _ (fun position _ => paddingBytes position) each

theorem writes_putSegmentPoint (point : StoredPoint) :
    Writes (putSegmentPoint point) (segmentPointBytes · point)
      (SegmentPointWithin wireLimit point ∧ MetadataFinite point.metadata) := by
  refine ((writes_putString _).seq ((Writes.put _).seq (writes_putPadding.seq
    ((writes_putVector _).seq (writes_putMetadata _))))).congr (fun position => ?_) ?_
  · rw [u64Bytes_length]
    rfl
  · simp [SegmentPointWithin, and_assoc]

theorem writes_putItems (config : CollectionConfig) (items : SegmentItems) :
    Writes (putItems config items)
      (fun position => segmentHeader config ++ itemsBytes (position + 14) items)
      (ItemsWithin wireLimit items ∧ ItemsFinite items) := by
  have points := Writes.forM items.points fun point _ => writes_putSegmentPoint point
  have tombstones := Writes.forM items.tombstones fun id _ => writes_putString id
  refine ((Writes.put _).seq ((Writes.put _).seq ((Writes.put _).seq ((Writes.put _).seq
    ((Writes.put _).seq ((Writes.put _).seq ((writes_putCount _).seq (points.seq
      ((writes_putCount _).seq tombstones))))))))).congr (fun position => ?_) ?_
  · simp only [segmentHeader, itemsBytes, List.append_assoc, Decoder.encodeAll_const]
    simp [segmentMagic]
  · simp only [ItemsWithin, ItemsFinite, forall₂_and]
    tauto

/-! ## Reading the items back -/

theorem vectorOfBytes_vectorBytes (vector : List F32) :
    vectorOfBytes (vectorBytes vector) = vector := by
  induction vector with
  | nil => rfl
  | cons value rest ih =>
    have stored : vectorBytes (value :: rest) = u32Bytes value.bits ++ vectorBytes rest := rfl
    have bits := u32OfBytes_u32Bytes value.bits
    rw [stored]
    rw [show u32Bytes value.bits = [_, _, _, _] from rfl] at bits ⊢
    simp only [List.cons_append, List.nil_append, vectorOfBytes]
    rw [bits, ih]

/-- What the decoder requires of items that were written. -/
structure ItemsReadable (items : SegmentItems) : Prop where
  within : ItemsWithin maxItems items
  finite : ∀ point ∈ items.points, ∀ value ∈ point.vector, value.isFinite = true
  named : ∀ id ∈ items.tombstones, id.isEmpty = false
  distinct : items.tombstones.Nodup
  whole : items.full = true → items.tombstones = []

namespace Input

open Decoder (Reads)

theorem alignment_lt (offset : Nat) : alignment offset < 4 := Nat.mod_lt _ (by decide)

@[simp] theorem paddingBytes_length (offset : Nat) :
    (paddingBytes offset).length = alignment offset + 1 := by
  simp [paddingBytes]

theorem reads_padding (position offset : Nat) :
    Reads padding position (paddingBytes offset) () True := by
  have small := alignment_lt offset
  have exact_ : (UInt8.ofNat (alignment offset)).toNat = alignment offset := by
    rw [UInt8.toNat_ofNat']
    exact Nat.mod_eq_of_lt (by omega)
  have zeros : Reads (do
      let zeros ← take (UInt8.ofNat (alignment offset)).toNat
      Decoder.reject (zeros.any (· != 0))
        (.corruptStorage "invalid vector alignment padding"))
      (position + 1) (List.replicate (alignment offset) 0 ++ []) () (True ∧ _) :=
    (reads_take _ (by rw [List.length_replicate, exact_])).bind (Reads.reject _ _ _)
  have whole : Reads padding position
      ([UInt8.ofNat (alignment offset)] ++ (List.replicate (alignment offset) 0 ++ [])) ()
      (True ∧ _ ∧ _) :=
    (reads_byte position _).bind ((Reads.reject _ _ _).check_bind zeros)
  rw [List.append_nil] at whole
  exact whole.congr (by simp [exact_]; omega)

theorem reads_mappedVector {mapped position dimension : Nat} {vector : List F32}
    (aligned : (mapped + position) % 4 = 0) (sized : vector.length = dimension) :
    Reads (mappedVector mapped dimension) position (vectorBytes vector) vector
      (∀ value ∈ vector, value.isFinite = true) := by
  have sameLength : (vectorBytes vector).length = dimension * 4 := by
    rw [vectorBytes_length, sized, Nat.mul_comm]
  have whole : Reads (mappedVector mapped dimension) position
      ([] ++ (vectorBytes vector ++ [])) vector (True ∧ True ∧ _ ∧ _) :=
    (Reads.position_read position).bind ((reads_take _ sameLength).bind
      ((Reads.reject _ _ _).check_bind
        ((Reads.reject _ _ _).check_bind
          (by rw [vectorOfBytes_vectorBytes]; exact Reads.pure vector _))))
  rw [List.append_nil, List.nil_append, vectorOfBytes_vectorBytes] at whole
  exact whole.congr (by simp [aligned])

/-- A padded vector starts on a multiple of four of the file. -/
theorem reads_segmentVector {dimension : Nat} {vector : List F32} (position : Nat)
    (sized : vector.length = dimension) :
    Reads (segmentVector segmentVersion dimension) position
      (paddingBytes (14 + position) ++ vectorBytes vector) vector
      (∀ value ∈ vector, value.isFinite = true) := by
  have aligned : (14 + (position + (paddingBytes (14 + position)).length)) % 4 = 0 := by
    rw [paddingBytes_length]
    unfold alignment
    omega
  exact ((reads_padding position (14 + position)).bind
    (reads_mappedVector aligned sized)).congr (by simp)

theorem reads_segmentPoint {dimension : Nat} {point : StoredPoint} (position : Nat)
    (fits : SegmentPointWithin wireLimit point) (finite : MetadataFinite point.metadata)
    (sized : point.vector.length = dimension) :
    Reads (segmentPoint segmentVersion dimension) position
      (segmentPointBytes (14 + position) point) point
      (SegmentPointWithin maxItems point ∧ ∀ value ∈ point.vector, value.isFinite = true) := by
  have vector := reads_segmentVector (position + (stringBytes point.id).length + 8) sized
  rw [← Nat.add_assoc, ← Nat.add_assoc] at vector
  have whole : Reads (segmentPoint segmentVersion dimension) position
      (stringBytes point.id ++ (u64Bytes point.sequence ++
        ((paddingBytes (14 + position + (stringBytes point.id).length + 8) ++
          vectorBytes point.vector) ++ metadataBytes point.metadata))) point
      (StringWithin maxItems point.id ∧ True ∧ _ ∧ MetadataWithin maxItems point.metadata) :=
    (reads_string position fits.1).bind ((reads_u64 _ _).bind
      (vector.bind ((reads_metadata _ fits.2 finite).bind_pure rfl)))
  rw [List.append_assoc (paddingBytes _)] at whole
  exact whole.congr (by simp only [SegmentPointWithin]; tauto)

theorem reads_tombstones (ids : List String) (fits : ∀ id ∈ ids, StringWithin wireLimit id)
    (seen : List String) (position : Nat) :
    Reads (tombstones seen ids.length) position (ids.flatMap stringBytes) ids
      ((∀ id ∈ ids, StringWithin maxItems id) ∧ (∀ id ∈ ids, id.isEmpty = false) ∧
        (∀ id ∈ ids, id ∉ seen) ∧ ids.Nodup) := by
  induction ids generalizing seen position with
  | nil => exact (Reads.pure [] position).congr (by simp)
  | cons id ids ih =>
    have tail := ih (fun id member => fits id (by simp [member])) (id :: seen)
      (position + (stringBytes id).length)
    have whole : Reads (tombstones seen (id :: ids).length) position
        (stringBytes id ++ ids.flatMap stringBytes) (id :: ids)
        (StringWithin maxItems id ∧ _ ∧ _) :=
      (reads_string position (fits id (by simp))).bind
        ((Reads.reject _ _ _).check_bind (tail.bind_pure rfl))
    refine whole.congr ?_
    simp only [List.mem_cons, forall_eq_or_imp, List.nodup_cons, not_or]
    have apart : (∀ other ∈ ids, ¬ other = id ∧ other ∉ seen) ↔
        id ∉ ids ∧ ∀ other ∈ ids, other ∉ seen := by
      rw [forall₂_and]
      exact and_congr_left' ⟨fun differs member => differs id member rfl,
        fun absent other member same => absent (same ▸ member)⟩
    rw [apart]
    simp only [Bool.not_eq_true]
    tauto

theorem reads_segmentKind (position : Nat) (full : Bool) :
    Reads (segmentKind segmentVersion) position [if full then 0 else 1] full True := by
  have kind : ∀ after, Reads (match (if full then 0 else 1 : UInt8) with
      | 0 => pure true
      | 1 => pure false
      | _ => throw (.corruptStorage "invalid segment kind") : Input Bool) after [] full True := by
    intro after
    cases full <;> exact Reads.pure _ after
  exact ((reads_byte position _).bind (kind _)).congr (by simp)

theorem reads_segmentItems {dimension : Nat} {items : SegmentItems}
    (fits : ItemsWithin wireLimit items) (finite : ItemsFinite items)
    (sized : ∀ point ∈ items.points, point.vector.length = dimension) :
    Reads (segmentItems segmentVersion dimension) 0 (itemsBytes 14 items) items
      (ItemsReadable items) := by
  obtain ⟨fewPoints, pointsFit, fewTombstones, tombstonesFit⟩ := fits
  have points := Reads.collect_list items.points (fun point member position =>
    reads_segmentPoint position (pointsFit point member) (finite point member)
      (sized point member)) 13
  rw [Decoder.encodeAll_shift segmentPointBytes 14] at points
  have tombstones := fun position =>
    (reads_count position fewTombstones).bind (reads_tombstones items.tombstones tombstonesFit []
      (position + (countBytes items.tombstones.length).length))
  have whole : Reads (segmentItems segmentVersion dimension) 0
      (u64Bytes items.sequence ++ ([if items.full then 0 else 1] ++
        (countBytes items.points.length ++
          (Decoder.encodeAll segmentPointBytes (14 + 13) items.points ++
            ((countBytes items.tombstones.length ++ items.tombstones.flatMap stringBytes) ++ [])))))
      items (True ∧ True ∧ items.points.length ≤ maxItems ∧ _ ∧ _ ∧ _) :=
    (reads_u64 0 items.sequence).bind ((reads_segmentKind _ items.full).bind
      ((reads_count _ fewPoints).bind (points.bind ((tombstones _).bind
        ((Reads.reject _ _ _).bind_pure rfl)))))
  rw [List.append_nil] at whole
  refine whole.congr ⟨?_, ?_⟩
  · rintro ⟨-, -, countFits, eachPoint, ⟨tombstoneCount, eachId, named, -, distinct⟩, kind⟩
    exact ⟨⟨countFits, fun point member => (eachPoint point member).1, tombstoneCount, eachId⟩,
      fun point member => (eachPoint point member).2, named, distinct, by simpa using kind⟩
  · rintro ⟨⟨countFits, eachPoint, tombstoneCount, eachId⟩, finite, named, distinct, kind⟩
    exact ⟨trivial, trivial, countFits,
      fun point member => ⟨eachPoint point member, finite point member⟩,
      ⟨tombstoneCount, eachId, named, by simp, distinct⟩, by simpa using kind⟩

end Input

/-! ## Whole segments -/

def segmentPayload (config : CollectionConfig) (items : SegmentItems) (graphLength : Nat)
    (graphBytes : Bytes) : Bytes :=
  segmentHeader config ++ (itemsBytes 14 items ++ (countBytes graphLength ++ graphBytes))

section Whole

variable {backend : IndexBackend} {config : CollectionConfig} {items : SegmentItems}
  {graph : backend.Graph} {graphLength : Nat} {graphBytes : Bytes}

/-- What the writer requires of a segment whose graph has an encoded length. -/
structure SegmentWritable (backend : IndexBackend) (items : SegmentItems) (graph : backend.Graph)
    (graphLength : Nat) : Prop where
  within : ItemsWithin wireLimit items
  finite : ItemsFinite items
  measured : backend.encodedLen graph = .ok graphLength
  short : graphLength ≤ wireLimit
  encoded : (backend.encode graph).2 = .ok ()

theorem writes_encodeInto (graph : backend.Graph) :
    Writes (backend.encodeInto graph) (fun _ => (backend.encode graph).1)
      ((backend.encode graph).2 = .ok ()) := by
  unfold IndexBackend.encodeInto
  cases (backend.encode graph).2 with
  | ok =>
    exact ((Writes.put _).seq Writes.pure).congr (fun _ => by simp) (by simp)
  | error error =>
    exact ((Writes.put _).seq (Writes.throw error fun _ => [])).congr (fun _ => by simp) (by simp)

theorem writes_putGraph (measured : backend.encodedLen graph = .ok graphLength) :
    Writes (putGraph backend graph) (fun _ => countBytes graphLength ++ (backend.encode graph).1)
      (graphLength ≤ wireLimit ∧ (backend.encode graph).2 = .ok ()) := by
  unfold putGraph
  rw [measured]
  exact (writes_putCount graphLength).seq (writes_encodeInto graph)

theorem writes_putGraph_error {error : Error} (measured : backend.encodedLen graph = .error error) :
    Writes (putGraph backend graph) (fun _ => []) False := by
  unfold putGraph
  rw [measured]
  exact Writes.throw error _

/-- A segment is written exactly when everything in it fits, and then as its
payload. -/
theorem bytes_putSegment {output : Bytes} :
    (putSegment backend config items graph).bytes = .ok output ↔
      ∃ graphLength, SegmentWritable backend items graph graphLength ∧
        output = segmentPayload config items graphLength (backend.encode graph).1 := by
  constructor
  · intro succeeds
    cases measured : backend.encodedLen graph with
    | error error =>
      have refused : (putSegment backend config items graph).Writes _ (_ ∧ False) :=
        (writes_putItems config items).seq (writes_putGraph_error measured)
      exact absurd (refused.of_bytes_ok succeeds).1.2 not_false
    | ok length =>
      have written : (putSegment backend config items graph).Writes _ _ :=
        (writes_putItems config items).seq (writes_putGraph measured)
      obtain ⟨⟨⟨within, finite⟩, short, encoded⟩, same⟩ := written.of_bytes_ok succeeds
      exact ⟨length, ⟨within, finite, measured, short, encoded⟩, by
        rw [same, segmentPayload, List.append_assoc]⟩
  · rintro ⟨length, ⟨within, finite, measured, short, encoded⟩, rfl⟩
    have written : (putSegment backend config items graph).Writes _ _ :=
      (writes_putItems config items).seq (writes_putGraph measured)
    rw [written.bytes_eq.1 ⟨⟨within, finite⟩, short, encoded⟩, segmentPayload, List.append_assoc]

theorem segmentGraph_run {file before : Bytes} (short : graphLength ≤ wireLimit)
    {index : backend.Graph} {cursor : Cursor} :
    Input.segmentGraph backend file ⟨before ++ (countBytes graphLength ++ graphBytes),
        before.length⟩ = .ok (index, cursor) ↔
      graphLength = graphBytes.length ∧
        backend.decodeMapped graphBytes file (14 + (before.length + 4)) = .ok index ∧
        cursor = ⟨before ++ (countBytes graphLength ++ graphBytes),
          before.length + 4 + graphLength⟩ := by
  have exact_ : (UInt32.ofNat graphLength).toNat = graphLength := by
    rw [UInt32.toNat_ofNat']
    exact Nat.mod_eq_of_lt (by unfold wireLimit at short; omega)
  have counted := (Input.reads_u32 before.length (UInt32.ofNat graphLength) before graphBytes
    rfl).1 trivial
  rw [List.append_assoc, u32Bytes_length, ← countBytes] at counted
  have behind : before.length + 4 = (before ++ countBytes graphLength).length := by simp
  unfold Input.segmentGraph
  rw [Decoder.bind_ok counted, exact_, ← List.append_assoc, behind]
  have offset : (Decoder.position : Input Nat) ⟨before ++ countBytes graphLength ++ graphBytes,
      (before ++ countBytes graphLength).length⟩ = .ok (_, _) := rfl
  rw [Decoder.bind_ok offset]
  exact Decoder.take_rest

@[simp] theorem segmentHeader_length (config : CollectionConfig) :
    (segmentHeader config).length = 14 := by
  simp [segmentHeader, segmentMagic]

theorem decodeSegment_header (backend : IndexBackend) (config : CollectionConfig) {body : Bytes}
    (long : 12 ≤ body.length) :
    let file := withChecksum (segmentHeader config ++ body)
    decodeSegment backend file =
      if config.dimension = 0 ∨ maxItems < config.dimension then
        .error (.corruptStorage "invalid segment dimension")
      else
        Decoder.run (segmentBody backend file segmentVersion config) body := by
  intro file
  have exact_ : (UInt64.ofNat config.dimension).toNat = config.dimension := by
    rw [UInt64.toNat_ofNat']
    exact Nat.mod_eq_of_lt config.fits
  have split : file = segmentMagic ++ (segmentVersion :: metricTag config.metric ::
      (u64Bytes (UInt64.ofNat config.dimension) ++ (body ++ u32Bytes (crc32c (segmentHeader config ++ body))))) := by
    simp [file, withChecksum, segmentHeader]
  have size : file.length = 18 + body.length := by
    simp [file]
    omega
  have payload : file.take (file.length - 4) = segmentHeader config ++ body :=
    take_withChecksum _
  have stored : file.drop (file.length - 4) = u32Bytes (crc32c (segmentHeader config ++ body)) :=
    drop_withChecksum _
  have dimension : (file.drop 6).take 8 = u64Bytes (UInt64.ofNat config.dimension) := by
    rw [split]
    exact List.take_left' (u64Bytes_length _)
  have magic : file.take 4 = segmentMagic := by rw [split]; rfl
  have version : (file.drop 4).headD 0 = segmentVersion := by rw [split]; rfl
  have tag : (file.drop 5).headD 0 = metricTag config.metric := by rw [split]; rfl
  have rest : (segmentHeader config ++ body).drop 14 = body := List.drop_left' (by simp)
  have notShort : ¬ file.length < 30 := by omega
  have zero : UInt64.ofNat config.dimension = 0 ↔ config.dimension = 0 := by
    rw [← UInt64.toNat_inj, exact_]
    rfl
  unfold decodeSegment
  simp only [version, payload, stored, tag, dimension, rest, magic, notShort, zero, exact_,
    u64OfBytes_u64Bytes, u32OfBytes_u32Bytes, parseMetric_metricTag, ne_eq, not_true_eq_false,
    or_true, or_false, if_false, Bind.bind, Except.bind]

section

variable (within : ItemsWithin wireLimit items) (finite : ItemsFinite items)
  (sized : ∀ point ∈ items.points, point.vector.length = config.dimension)

include within finite sized

theorem segmentBody_run {file : Bytes}
    (short : graphLength ≤ wireLimit) {decoded : DecodedSegment backend} :
    Decoder.run (segmentBody backend file segmentVersion config)
        (itemsBytes 14 items ++ (countBytes graphLength ++ graphBytes)) = .ok decoded ↔
      ItemsReadable items ∧ graphLength = graphBytes.length ∧ ∃ index,
        backend.decodeMapped graphBytes file (14 + ((itemsBytes 14 items).length + 4)) =
          .ok index ∧
        matchGraph backend config items.points index = .ok () ∧
        decoded = ⟨config, items.sequence, items.points, items.tombstones, index, items.full⟩ := by
  have read := Input.reads_segmentItems within finite sized []
    (countBytes graphLength ++ graphBytes) rfl
  rw [List.nil_append, Nat.zero_add] at read
  unfold segmentBody Decoder.run
  by_cases readable : ItemsReadable items
  · rw [Decoder.bind_ok (read.1 readable)]
    cases graphRead : Input.segmentGraph backend file
        ⟨itemsBytes 14 items ++ (countBytes graphLength ++ graphBytes),
          (itemsBytes 14 items).length⟩ with
    | error error =>
      rw [Decoder.bind_error graphRead]
      simp only [Except.map, reduceCtorEq, false_iff]
      rintro ⟨-, whole, index, decodes, -, -⟩
      rw [(segmentGraph_run short).mpr ⟨whole, decodes, rfl⟩] at graphRead
      contradiction
    | ok pair =>
      obtain ⟨index, cursor⟩ := pair
      obtain ⟨whole, decodes, -⟩ := (segmentGraph_run short).mp graphRead
      rw [Decoder.bind_ok graphRead]
      cases checked : matchGraph backend config items.points index with
      | error error =>
        simp [Decoder.ofExcept, Bind.bind, Except.bind, Except.map, checked, decodes]
      | ok =>
        simp [Decoder.ofExcept, Bind.bind, Except.bind, Except.map, Pure.pure, Except.pure,
          checked, decodes, readable, whole, eq_comm]
  · obtain ⟨error, fails⟩ := read.2 readable
    rw [Decoder.bind_error fails]
    simp [Except.map, readable]

/-- A written segment is decoded exactly when its items and its graph pass the
decoder's checks, and then to what was written. -/
theorem decodeSegment_payload (short : graphLength ≤ wireLimit) {decoded : DecodedSegment backend} :
    let file := withChecksum (segmentPayload config items graphLength graphBytes)
    decodeSegment backend file = .ok decoded ↔
      (config.dimension ≠ 0 ∧ config.dimension ≤ maxItems) ∧ ItemsReadable items ∧
        graphLength = graphBytes.length ∧ ∃ index,
          backend.decodeMapped graphBytes file (14 + ((itemsBytes 14 items).length + 4)) =
            .ok index ∧
          matchGraph backend config items.points index = .ok () ∧
          decoded = ⟨config, items.sequence, items.points, items.tombstones, index, items.full⟩ := by
  intro file
  have long : 12 ≤ (itemsBytes 14 items ++ (countBytes graphLength ++ graphBytes)).length := by
    simp [itemsBytes]
    omega
  have headed : decodeSegment backend file = _ := decodeSegment_header backend config long
  rw [headed]
  by_cases sizable : config.dimension = 0 ∨ maxItems < config.dimension
  · rw [if_pos sizable]
    simp only [reduceCtorEq, false_iff]
    rintro ⟨bounds, -⟩
    omega
  · have bounds : config.dimension ≠ 0 ∧ config.dimension ≤ maxItems := by omega
    rw [if_neg sizable, and_iff_right bounds]
    exact segmentBody_run within finite sized short

end

end Whole

/-! ## A flat backend -/

/-- The nodes of an index without links. -/
structure FlatGraph where
  dimension : Nat
  metric : Metric
  ids : List String

def putFlatGraph (graph : FlatGraph) : Output := do
  .put (u64Bytes (UInt64.ofNat graph.dimension))
  .put [metricTag graph.metric]
  putCount graph.ids.length
  graph.ids.forM putString

def Input.flatGraph : Input FlatGraph := do
  let dimension ← u64
  let tag ← byte
  let metric ← Decoder.ofExcept (parseMetric tag)
  let count ← count
  let ids ← Decoder.collect string count
  pure ⟨dimension.toNat, metric, ids⟩

def IndexBackend.flat : IndexBackend where
  Graph := FlatGraph
  build dimension metric points := .ok ⟨dimension, metric, points.map Prod.fst⟩
  encodedLen graph := (putFlatGraph graph).bytes.map List.length
  encode graph := ((putFlatGraph graph).run.2, (putFlatGraph graph).run.1)
  decodeMapped bytes _ _ := Decoder.run Input.flatGraph bytes
  dimension graph := graph.dimension
  metric graph := graph.metric
  ids graph := graph.ids
  MetadataIndex := List String
  buildMetadata points := points.map StoredPoint.id

end FocalVector.Persistence
