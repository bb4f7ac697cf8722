import FocalVector.Hnsw.GraphCodec
import FocalVector.Persistence.Segment

/-!
Contract: what a segment decoder does with bytes that nothing is known about.

Owns: `decodeSegmentInner` with the graph format of the index, its requests for memory, and
exactly which bytes make it or the decoder of graphs panic.

Does not own: what is decoded from segments that were written.
-/

namespace FocalVector.Persistence

open FocalVector.Foundation FocalVector.Engine FocalVector.Hnsw LittleEndian
open GraphDecoder (hashBuckets Located HasRoom)

/-! ## The decoder -/

/-- The size of a stored point: id, vector, metadata, sequence and the view that is made of it. -/
def storedPointBytes : Nat := 24 + 32 + 24 + 8 + 88

structure GraphSegment where
  config : CollectionConfig
  items : SegmentItems
  index : HnswIndex

namespace SegmentDecoder

def vector (mapped : Bool) (version : UInt8) (dimension : Nat) : Decoder (Stop Error) (List F32) :=
  if version = segmentVersion then do
    Input.padding.checked
    if mapped then (Input.mappedVector 14 dimension).checked
    else do
      let bytes ← (Input.take (dimension * 4)).checked
      Decoder.ofExcept (Checked.capacity dimension 4)
      Decoder.reject ((vectorOfBytes bytes).any (fun value => !value.isFinite))
        (.error (.corruptStorage "segment contains a non-finite vector"))
      pure (vectorOfBytes bytes)
  else do
    Decoder.ofExcept (Checked.capacity dimension 4)
    (Decoder.collect Input.f32 dimension).checked

def point (mapped : Bool) (version : UInt8) (dimension : Nat) : Decoder (Stop Error) StoredPoint := do
  let id ← Input.string.checked
  let sequence ← Input.u64.checked
  let vector ← vector mapped version dimension
  let metadata ← Input.metadata.checked
  pure { id, vector, metadata, sequence }

def tombstones (version : UInt8) : Decoder (Stop Error) (List String) :=
  if version = segmentVersion then do
    let count ← Input.count.checked
    Decoder.ofExcept (Checked.capacity count 24)
    Decoder.ofExcept (Checked.capacity (hashBuckets count) 25)
    (Input.tombstones [] count).checked
  else
    pure []

def items (mapped : Bool) (version : UInt8) (dimension : Nat) : Decoder (Stop Error) SegmentItems := do
  let sequence ← Input.u64.checked
  let full ← (Input.segmentKind version).checked
  let count ← Input.count.checked
  Decoder.ofExcept (Checked.capacity count storedPointBytes)
  let points ← Decoder.collect (point mapped version dimension) count
  let tombstones ← tombstones version
  Decoder.reject (full = true ∧ tombstones ≠ [])
    (.error (.corruptStorage "full segment contains tombstones"))
  pure { sequence, full, points, tombstones }

def graph : Decoder (Stop Error) (Nat × Bytes) := do
  let length ← Input.u32.checked
  let position ← Decoder.position
  let bytes ← (Input.take length.toNat).checked
  pure (position, bytes)

def parts (mapped : Bool) (version : UInt8) (dimension : Nat) :
    Decoder (Stop Error) (SegmentItems × Nat × Bytes) := do
  let items ← items mapped version dimension
  let graph ← graph
  pure (items, graph)

def header (bytes : Bytes) : Checking (UInt8 × CollectionConfig × Bytes) :=
  if bytes.length < 30 then
    .error (.error (.corruptStorage "invalid segment header"))
  else do
    let magic ← Checked.slice bytes 0 4
    let version ← Checked.get bytes 4
    if magic ≠ segmentMagic ∨ ¬ (version = legacySegmentVersion ∨ version = segmentVersion) then
      .error (.error (.corruptStorage "invalid segment header"))
    else do
      let stored ← Checked.slice bytes (bytes.length - 4) bytes.length
      let payload ← Checked.slice bytes 0 (bytes.length - 4)
      if crc32c payload ≠ u32OfBytes stored then
        .error (.error (.corruptStorage "segment checksum mismatch"))
      else do
        let tag ← Checked.get bytes 5
        let metric ← Checked.ofResult (parseMetric tag)
        let dimension ← Checked.slice bytes 6 14
        let dimension := u64OfBytes dimension
        if dimension = 0 ∨ maxItems < dimension.toNat then
          .error (.error (.corruptStorage "invalid segment dimension"))
        else do
          let rest ← Checked.slice bytes 14 (bytes.length - 4)
          return (version, ⟨dimension.toNat, metric, dimension.toNat_lt⟩, rest)

/-- What the decoder checks between a segment and its graph. -/
def matchIndex (config : CollectionConfig) (points : List StoredPoint) (index : HnswIndex) :
    Result Unit :=
  if index.dimension ≠ config.dimension ∨ index.metric ≠ config.metric ∨
      points.length < index.nodes.length then
    .error (.corruptStorage "HNSW graph does not match its segment")
  else if !sameIds index.ids (points.map StoredPoint.id) then
    .error (.corruptStorage "HNSW graph IDs do not match its segment")
  else
    .ok ()

def place (mapped : Bool) (file : Bytes) (position : Nat) : Mapping :=
  if mapped then some (file, 14 + position) else none

end SegmentDecoder

open SegmentDecoder

/-- `decode_segment_inner`, on a mapped file or on bytes in memory. -/
def decodeSegmentInner (arith : HnswArithmetic) (mapped : Bool) (bytes : Bytes) :
    Checking GraphSegment := do
  let (version, config, rest) ← header bytes
  let ((items, position, graph), cursor) ← parts mapped version config.dimension ⟨rest, 0⟩
  let index ← HnswIndex.decodeInner arith graph (place mapped bytes position)
  let _ ← Checked.ofResult (Input.finish cursor)
  Checked.ofResult (matchIndex config items.points index)
  return ⟨config, items, index⟩

def GraphHasRoom (mapped : Bool) (bytes : Bytes) : Prop :=
  ∀ version config rest items position graph cursor,
    header bytes = .ok (version, config, rest) →
    parts mapped version config.dimension ⟨rest, 0⟩ = .ok ((items, position, graph), cursor) →
    HasRoom graph (place mapped bytes position)

/-! ## What the decoder ensures -/

namespace SegmentDecoder

open Decoder (Ensures Stable)
open GraphDecoder (ensures_capacity)

variable {bytes : Bytes}

theorem ensures_checked {α : Type} {decoder : Input α} (stable : Stable decoder) :
    Ensures bytes decoder.checked fun _ => True :=
  .checked stable fun _ _ _ _ => trivial

theorem ensures_count : Ensures bytes Input.count.checked (· ≤ maxItems) := by
  refine .checked Input.stable_count fun cursor value next returns => ?_
  obtain ⟨word, _, -, returns⟩ := Decoder.of_bind_ok returns
  obtain ⟨_, _, passes, returns⟩ := Decoder.of_bind_ok returns
  unfold Decoder.reject at passes
  split at passes
  · cases passes
  next few =>
    cases returns
    exact Nat.le_of_not_lt few

theorem stable_padding : Stable Input.padding :=
  Input.stable_byte.bind fun _ => (Stable.reject _ _).bind fun _ =>
    (Input.stable_take _).bind fun _ => Stable.reject _ _

theorem stable_mappedVector (mapped dimension : Nat) : Stable (Input.mappedVector mapped dimension) :=
  Stable.position_read.bind fun _ => (Input.stable_take _).bind fun _ =>
    (Stable.reject _ _).bind fun _ => (Stable.reject _ _).bind fun _ => Stable.pure _

theorem stable_segmentKind (version : UInt8) : Stable (Input.segmentKind version) := by
  unfold Input.segmentKind
  split
  · refine Input.stable_byte.bind fun tag => ?_
    split
    · exact Stable.pure _
    · exact Stable.pure _
    · exact Stable.throw _
  · exact Stable.pure _

theorem stable_tombstones (seen : List String) (count : Nat) : Stable (Input.tombstones seen count) := by
  induction count generalizing seen with
  | zero => exact Stable.pure _
  | succ count ih =>
    exact Input.stable_string.bind fun id => (Stable.reject _ _).bind fun _ =>
      (ih (id :: seen)).bind fun _ => Stable.pure _

theorem ensures_vector (mapped : Bool) (version : UInt8) {dimension : Nat}
    (small : dimension ≤ maxItems) : Ensures bytes (vector mapped version dimension) fun _ => True := by
  have fits : dimension * 4 < 2 ^ 63 := by
    unfold maxItems at small
    omega
  unfold vector
  split
  · refine (ensures_checked stable_padding).bind fun _ _ => ?_
    split
    · exact ensures_checked (stable_mappedVector 14 dimension)
    · exact (ensures_checked (Input.stable_take _)).bind fun _ _ =>
        (ensures_capacity fits).bind fun _ _ => (Ensures.reject _ _).bind fun _ _ => .pure trivial
  · exact (ensures_capacity fits).bind fun _ _ =>
      ensures_checked (Input.stable_f32.collect dimension)

theorem ensures_items (mapped : Bool) (version : UInt8) {dimension : Nat}
    (small : dimension ≤ maxItems) : Ensures bytes (items mapped version dimension) fun _ => True := by
  have isPoint : Ensures bytes (point mapped version dimension) fun _ => True :=
    (ensures_checked Input.stable_string).bind fun _ _ => (ensures_checked Input.stable_u64).bind
      fun _ _ => (ensures_vector mapped version small).bind fun _ _ =>
      (ensures_checked Input.stable_metadata).bind fun _ _ => .pure trivial
  have areTombstones : Ensures bytes (tombstones version) fun _ => True := by
    unfold tombstones
    split
    · refine ensures_count.bind fun count few => ?_
      have buckets := GraphDecoder.hashBuckets_le count
      unfold maxItems at few
      exact (ensures_capacity (by omega)).bind fun _ _ => (ensures_capacity (by omega)).bind
        fun _ _ => ensures_checked (stable_tombstones [] count)
    · exact .pure trivial
  refine (ensures_checked Input.stable_u64).bind fun _ _ =>
    (ensures_checked (stable_segmentKind version)).bind fun _ _ =>
    ensures_count.bind fun count few => ?_
  unfold maxItems at few
  exact (ensures_capacity (by unfold storedPointBytes; omega)).bind fun _ _ =>
    (isPoint.collect count).bind fun _ _ => areTombstones.bind fun _ _ =>
    (Ensures.reject _ _).bind fun _ _ => .pure trivial

theorem ensures_graph : Ensures bytes graph fun read => read.1 + read.2.length ≤ bytes.length := by
  refine (ensures_checked Input.stable_u32).bind fun length _ =>
    (ensures_checked (Input.stable_take length.toNat)).with_position fun position taken next took => ?_
  have took := Decoder.of_checked_ok took
  simp only [Input.take, Decoder.take] at took
  split at took
  next within =>
    cases took
    simp only [List.length_take, List.length_drop]
    omega
  next => cases took

theorem header_settles (bytes : Bytes) : (header bytes).Settles ∧
    ∀ version config rest, header bytes = .ok (version, config, rest) →
      config.dimension ≤ maxItems ∧ 14 + rest.length ≤ bytes.length := by
  unfold header
  split
  · exact ⟨trivial, fun _ _ _ returns => by cases returns⟩
  next long =>
    obtain ⟨version, -, isVersion⟩ := @Checked.exists_get Error _ bytes 4 (by omega)
    obtain ⟨tag, -, isTag⟩ := @Checked.exists_get Error _ bytes 5 (by omega)
    rw [Checked.bind_ok (Checked.slice_of_le (Nat.zero_le 4) (by omega)), Checked.bind_ok isVersion]
    split
    · exact ⟨trivial, fun _ _ _ returns => by cases returns⟩
    rw [Checked.bind_ok (Checked.slice_of_le (by omega) le_rfl),
      Checked.bind_ok (Checked.slice_of_le (Nat.zero_le _) (by omega))]
    split
    · exact ⟨trivial, fun _ _ _ returns => by cases returns⟩
    rw [Checked.bind_ok isTag]
    cases parseMetric tag with
    | error => exact ⟨trivial, fun _ _ _ returns => by cases returns⟩
    | ok metric =>
      rw [Checked.ofResult, Except.mapError, Checked.bind_ok rfl,
        Checked.bind_ok (Checked.slice_of_le (by omega) (by omega))]
      simp only
      split
      · exact ⟨trivial, fun _ _ _ returns => by cases returns⟩
      next within =>
        rw [Checked.bind_ok (Checked.slice_of_le (by omega) (by omega))]
        refine ⟨trivial, fun version config rest returns => ?_⟩
        cases returns
        rw [not_or] at within
        refine ⟨Nat.le_of_not_lt within.2, ?_⟩
        rw [List.length_take, List.length_drop]
        omega

theorem decodeSegmentInner_settles (arith : HnswArithmetic) (mapped : Bool)
    (small : bytes.length < 2 ^ 63) :
    (decodeSegmentInner arith mapped bytes).Settles ↔ GraphHasRoom mapped bytes := by
  obtain ⟨headerSettles, within⟩ := header_settles bytes
  unfold decodeSegmentInner GraphHasRoom
  rw [Checked.settles_bind, and_iff_right headerSettles]
  constructor
  · intro settles version config rest items position graph cursor isHeader isParts
    obtain ⟨fewItems, inside⟩ := within version config rest isHeader
    have later := settles _ isHeader
    simp only at later
    rw [Checked.bind_ok isParts] at later
    simp only at later
    by_contra large
    rw [HnswIndex.decodeInner_panics arith large] at later
    exact later
  · rintro room ⟨version, config, rest⟩ isHeader
    obtain ⟨fewItems, inside⟩ := within version config rest isHeader
    have ensures : Decoder.Ensures rest (parts mapped version config.dimension) fun read =>
        read.2.1 + read.2.2.length ≤ rest.length :=
      (ensures_items mapped version fewItems).bind fun _ _ => ensures_graph.bind fun _ placed =>
        .pure placed
    obtain ⟨settles, found⟩ := ensures 0 (Nat.zero_le _)
    refine Checked.settles_bind.mpr ⟨settles, ?_⟩
    rintro ⟨⟨items, position, graph⟩, cursor⟩ isParts
    have placed : position + graph.length ≤ rest.length := (found _ _ isParts).2.2
    have located : Located graph (place mapped bytes position) := by
      intro file offset isFile
      unfold place at isFile
      split at isFile
      · obtain ⟨rfl, rfl⟩ := Prod.mk.inj (Option.some.inj isFile)
        exact ⟨small, by omega⟩
      · cases isFile
    have graphSettles := (HnswIndex.decodeInner_of_room arith located
      (room version config rest items position graph cursor isHeader isParts)).1
    refine Checked.settles_bind.mpr ⟨graphSettles, fun _ _ => ?_⟩
    exact Checked.settles_ofResult_bind.mpr fun _ _ => Checked.settles_ofResult_bind.mpr
      fun _ _ => trivial

end SegmentDecoder

/-- The decoders of graphs and of segments, mapped or not, return or fail with an error of
their own for exactly those bytes whose graph leaves room for its vectors. -/
theorem decoders_settle_iff (arith : HnswArithmetic) {bytes : Bytes} (small : bytes.length < 2 ^ 63) :
    (∀ mapping, Located bytes mapping →
      ((HnswIndex.decodeInner arith bytes mapping).Settles ↔ HasRoom bytes mapping)) ∧
    ∀ mapped, (decodeSegmentInner arith mapped bytes).Settles ↔ GraphHasRoom mapped bytes := by
  refine ⟨fun mapping located => ⟨fun settles => ?_, fun room => ?_⟩, fun mapped =>
    decodeSegmentInner_settles arith mapped small⟩
  · by_contra large
    rw [HnswIndex.decodeInner_panics arith large] at settles
    exact settles
  · exact (HnswIndex.decodeInner_of_room arith located room).1

/-- Two points and a deleted id, with a graph whose nodes link to each other. -/
def linkedSegment : Bytes :=
  withChecksum (segmentPayload lineConfig ⟨1, false, ["a", "b"].map fun id =>
    ⟨id, [⟨0x3f800000⟩], ∅, 1⟩, ["c"]⟩ HnswIndex.linkedNodes.length HnswIndex.linkedNodes)

/-- A segment that is accepted, mapped or not, has room for its vectors. -/
theorem accepted_segment_has_room :
    (decodeSegmentInner .unit true linkedSegment).isOk = true ∧ GraphHasRoom true linkedSegment ∧
      (decodeSegmentInner .unit false linkedSegment).isOk = true ∧
      GraphHasRoom false linkedSegment := by
  have room : ∀ mapped, (decodeSegmentInner .unit mapped linkedSegment).isOk = true →
      GraphHasRoom mapped linkedSegment := by
    intro mapped accepted
    obtain ⟨segment, decodes⟩ := exists_ok_of_isOk accepted
    refine ((@decoders_settle_iff .unit linkedSegment (by decide +kernel)).2 mapped).mp ?_
    rw [decodes]
    trivial
  have accepted : ∀ mapped, (decodeSegmentInner .unit mapped linkedSegment).isOk = true := by
    decide +kernel
  exact ⟨accepted true, room true (accepted true), accepted false, room false (accepted false)⟩

/-- A graph of one node, whose header says that its vector has 2^62 components. -/
def hugeGraph : Bytes :=
  graphMagic ++ [graphVersion] ++ u64Bytes 0x4000000000000000 ++ [1, 1] ++ u32Bytes 16 ++ u32Bytes 200 ++
    u32Bytes 1 ++ u64Bytes 0 ++ u32Bytes 0

def hugeSegment : Bytes :=
  withChecksum (segmentMagic ++ [segmentVersion, 1] ++ u64Bytes 1 ++ u64Bytes 0 ++ [0] ++
    u32Bytes 0 ++ u32Bytes 0 ++ u32Bytes 39 ++ hugeGraph)

theorem huge_dimension_panics :
    HnswIndex.decodeInner .unit hugeGraph none = .error (.panic .capacity) ∧
      ¬ (decodeSegmentInner .unit true hugeSegment).Settles ∧
      ¬ (decodeSegmentInner .unit false hugeSegment).Settles := by
  exact ⟨by decide +kernel, by decide +kernel, by decide +kernel⟩

end FocalVector.Persistence
