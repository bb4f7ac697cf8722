import FocalVector.Sharding.ShardRefinement

/-!
Contract: which refused batches leave all shards unchanged.

A request is validated on a collection in memory. Each shard then encodes its batch
for its log, and the encoder refuses numbers that are not finite in the metadata and
sizes that do not fit its fields, which nobody checked before. When it does, the
batches of earlier shards are committed already.

Owns: `Loggable` batches, and when a refused request leaves no trace.

Does not own: requests that fail for storage reasons.
-/

namespace FocalVector.Sharding

open FocalVector.Foundation FocalVector.Engine FocalVector.Persistence

def Error.ofRequest : Error → Bool
  | .invalidDimension _ _ | .invalidVector _ | .invalidQuery _ => true
  | _ => false

/-! ## Batches that a log takes -/

def asStored (point : UpsertPoint) : StoredPoint := ⟨point.id, point.vector, point.metadata, 0⟩

/-- The record of a batch is encoded: its sizes fit four bytes, its metadata numbers are
finite, and it is shorter than 4 GiB. -/
def Encodes (points : List StoredPoint) : Prop :=
  (WriteWithin wireLimit (.upsert points) ∧ WriteFinite (.upsert points)) ∧
    recordLength (.upsert points) < 2 ^ 32

def Loggable (points : List UpsertPoint) : Prop := Encodes (points.map asStored)

/-- What the record's size and its limits depend on. -/
def shape (point : StoredPoint) : String × Nat × Metadata :=
  (point.id, point.vector.length, point.metadata)

section Recording

variable {arith : FloatArithmetic} {config : CollectionConfig}

variable {left right : List StoredPoint}

theorem forall_mem_of_shapes (property : String × Nat × Metadata → Prop) (same : left.map shape = right.map shape) :
    (∀ point ∈ left, property (shape point)) ↔ ∀ point ∈ right, property (shape point) := by
  have mapped : ∀ points : List StoredPoint, (∀ point ∈ points, property (shape point)) ↔
      ∀ found ∈ points.map shape, property found := fun _ => List.forall_mem_map.symm
  rw [mapped, mapped, same]

theorem length_of_shapes (same : left.map shape = right.map shape) :
    left.length = right.length := by
  have lengths := congrArg List.length same
  rwa [List.length_map, List.length_map] at lengths

theorem recordLength_of_shapes (same : left.map shape = right.map shape) :
    recordLength (.upsert left) = recordLength (.upsert right) := by
  have sized : ∀ points : List StoredPoint, recordLength (.upsert points) = 13 +
      ((points.map shape).map fun found => (stringBytes found.1).length + 4 + 4 * found.2.1 +
        (metadataBytes found.2.2).length).sum := by
    intro points
    simp only [recordLength, changeBytes, List.length_append, List.length_flatMap, pointBytes,
      toUpsertPoint, List.map_map, vectorBytes_length, countBytes_length]
    rw [← Nat.add_assoc]
    rfl
  rw [sized, sized, same]

theorem encodes_of_shapes
    (same : left.map shape = right.map shape) : Encodes left ↔ Encodes right := by
  have within : WriteWithin wireLimit (.upsert left) ↔ WriteWithin wireLimit (.upsert right) := by
    have each := forall_mem_of_shapes (fun found => StringWithin wireLimit found.1 ∧
      found.2.1 ≤ wireLimit ∧ MetadataWithin wireLimit found.2.2) same
    exact and_congr (by rw [length_of_shapes same]) each
  have finite : WriteFinite (.upsert left) ↔ WriteFinite (.upsert right) :=
    forall_mem_of_shapes (fun found => MetadataFinite found.2.2) same
  unfold Encodes
  rw [within, finite, recordLength_of_shapes same]

theorem shapes_of_mapM {points : List UpsertPoint} {sequence : UInt64}
    {prepared : List StoredPoint}
    (prepares : points.mapM (Collection.preparePoint arith config sequence) = .ok prepared) :
    prepared.map shape = (points.map asStored).map shape := by
  have all := Checked.of_mapM prepares
  clear prepares
  induction all with
  | nil => rfl
  | @cons point stored _ _ first _ ih =>
    have fields := Collection.preparePoint_eq_ok first
    have same : shape stored = shape (asStored point) := by
      simp only [shape, asStored, fields.sameId, fields.sameMetadata,
        Metric.prepare_length fields.prepared]
    rw [List.map_cons, ih, same]
    rfl

end Recording

/-! ## One shard -/

section Shards

variable {arith : FloatArithmetic} {backend : IndexBackend} {config : CollectionConfig}
  {shard next : Shard backend config} {points : List UpsertPoint}

theorem loggable_of_perform {sequence : UInt64}
    (performs : shard.perform arith (.upsert points) = (next, .ok sequence)) : Loggable points := by
  unfold Shard.perform at performs
  split at performs
  next disk store _ runs =>
    obtain ⟨write, isBatch, appended, -⟩ := perform_eq_ok runs
    obtain ⟨sequence, -, isBatch⟩ := Result.of_bind_ok isBatch
    obtain ⟨prepared, prepares, returns⟩ := Result.of_bind_ok isBatch
    cases returns
    unfold Collection.prepareUpsert at prepares
    split at prepares
    · cases prepares
    · obtain ⟨payload, encodes, small⟩ := appended.encoded 0 _ rfl
      obtain ⟨within, finite, rfl⟩ := encodeWrite_eq_ok encodes
      rw [recordBytes_length] at small
      exact (encodes_of_shapes (shapes_of_mapM prepares)).mp ⟨⟨within, finite⟩, small⟩
  next => cases performs

/-- A shard that refuses a batch keeps its collection. -/
theorem store_of_perform_error {request : Request} {error : Error}
    (performs : shard.perform arith request = (next, .error error)) : next.store = shard.store := by
  unfold Shard.perform at performs
  split at performs
  · cases performs
  · cases performs
    rfl

theorem not_ofRequest_of_loggable {error : Error} (loggable : Loggable points) (nonempty : points ≠ [])
    (prepares : ∀ sequence, ∃ prepared,
      points.mapM (Collection.preparePoint arith config sequence) = .ok prepared)
    (performs : shard.perform arith (.upsert points) = (next, .error error)) :
    Error.ofRequest error = false := by
  have refuses : ((shard.store.upsert arith points).run shard.disk).2 = .error error := by
    unfold Shard.perform at performs
    split at performs
    · cases performs
    next disk _ runs =>
      cases performs
      exact congrArg Prod.snd runs
  unfold PersistentCollection.upsert at refuses
  cases granted : shard.store.inner.nextSequence with
  | error error =>
    rw [granted] at refuses
    cases refuses
    unfold Collection.nextSequence at granted
    split at granted
    · cases granted
    · cases granted
      rfl
  | ok sequence =>
    obtain ⟨prepared, prepares⟩ := prepares sequence
    have accepts : shard.store.inner.prepareUpsert arith points sequence = .ok prepared := by
      unfold Collection.prepareUpsert
      rw [if_neg (by simpa using nonempty), shard.sameConfig, prepares]
    obtain ⟨within, small⟩ := (encodes_of_shapes (shapes_of_mapM prepares)).mpr loggable
    have encodes : encodeUpsert sequence prepared = .ok _ :=
      (encodeWrite_eq sequence (.upsert prepared)).1 within
    rw [granted, Program.run_bind_ok (Program.run_ofExcept _), accepts,
      Program.run_bind_ok (Program.run_ofExcept _), encodes,
      Program.run_bind_ok (Program.run_ofExcept _)] at refuses
    cases found : shard.disk walName with
    | some wal =>
      rw [Program.run_bind_ok (run_appendFrame found (by rwa [recordBytes_length]))] at refuses
      cases refuses
    | none =>
      unfold appendFrame at refuses
      rw [if_pos (by rwa [recordBytes_length]), Program.run_bind_error
        (Program.run_bind_error (run_readFile_missing found))] at refuses
      cases refuses
      rfl

end Shards

/-! ## Whole requests -/

section Requests

variable {arith : FloatArithmetic} {backend : IndexBackend} {config : CollectionConfig}

/-- The shards hold the same points under the same sequences. -/
def Unchanged (shards after : List (Shard backend config)) : Prop :=
  List.Forall₂ (fun shard next => next.store.inner.points = shard.store.inner.points ∧
    next.latestSequence = shard.latestSequence) shards after

theorem unchanged_refl (shards : List (Shard backend config)) : Unchanged shards shards :=
  List.forall₂_same.mpr fun _ _ => ⟨rfl, rfl⟩

theorem Unchanged.sequences {shards after : List (Shard backend config)}
    (unchanged : Unchanged shards after) :
    after.map Shard.latestSequence = shards.map Shard.latestSequence := by
  induction unchanged with
  | nil => rfl
  | cons same _ ih =>
    rw [List.map_cons, List.map_cons, same.2, ih]

theorem commitBatches_unchanged_iff {number : Nat} {shards after : List (Shard backend config)}
    {batches : List (List UpsertPoint)} {error : Error}
    (prepares : ∀ batch ∈ batches, ∀ sequence, ∃ prepared,
      batch.mapM (Collection.preparePoint arith config sequence) = .ok prepared)
    (fails : commitBatches arith .upsert number shards batches = (after, .error error))
    (ofRequest : Error.ofRequest error = true) :
    Unchanged shards after ↔
      ∀ batch, batches.find? (!·.isEmpty) = some batch → ¬ Loggable batch := by
  induction shards generalizing number batches after with
  | nil =>
    unfold commitBatches at fails
    cases batches <;> cases fails
  | cons shard shards ih =>
    cases batches with
    | nil => cases fails
    | cons batch batches =>
      obtain ⟨first, later⟩ := List.forall_mem_cons.mp prepares
      unfold commitBatches at fails
      obtain ⟨⟨others, outcome⟩, committed⟩ : ∃ rest,
        commitBatches arith .upsert (number + 1) shards batches = rest := ⟨_, rfl⟩
      rw [committed] at fails
      split at fails
      next isEmpty =>
        cases fails
        rw [List.find?_cons_of_neg (by simpa using isEmpty),
          ← ih later committed]
        exact ⟨fun same => (List.forall₂_cons.mp same).2,
          fun same => .cons ⟨rfl, rfl⟩ same⟩
      next nonempty =>
        rw [List.find?_cons_of_pos (by simpa using nonempty)]
        split at fails
        next refused performs =>
          cases fails
          have kept := store_of_perform_error performs
          refine ⟨fun _ found isFound loggable => ?_, fun _ => ?_⟩
          · cases isFound
            have other := not_ofRequest_of_loggable loggable (by simpa using nonempty) first performs
            rw [ofRequest] at other
            cases other
          · exact .cons ⟨by rw [kept], by rw [Shard.latestSequence, kept]; rfl⟩
              (unchanged_refl shards)
        next performed sequence performs =>
          have advanced := (Shard.perform_eq_ok performs).2
          have logged := loggable_of_perform performs
          have isAfter : after = performed :: others := by
            cases outcome with
            | error => exact (congrArg Prod.fst fails).symm
            | ok => exact (congrArg Prod.fst fails).symm
          subst isAfter
          refine ⟨fun same => ?_, fun refused => absurd logged (refused batch rfl)⟩
          have sameSequence := (List.forall₂_cons.mp same).1.2
          rw [sameSequence] at advanced
          omega

theorem prepared_batches {points : List UpsertPoint} {count : Nat}
    (validates : validatePoints arith config points = .ok ()) :
    ∀ batch ∈ shardBatches UpsertPoint.id count points, ∀ sequence, ∃ prepared,
      batch.mapM (Collection.preparePoint arith config sequence) = .ok prepared := by
  intro batch member sequence
  obtain ⟨number, isBatch⟩ := List.mem_iff_getElem?.mp member
  have within : number < count := by
    have inside := (List.getElem?_eq_some_iff.mp isBatch).1
    rwa [shardBatches, buckets_length] at inside
  rw [shardBatches, getElem?_buckets _ within] at isBatch
  cases isBatch
  obtain ⟨prepared, prepares⟩ := prepared_of_validatePoints validates sequence
  exact exists_mapM_ok fun point isPoint => ok_of_mapM prepares point (List.mem_of_mem_filter isPoint)

/-- An upsert that is refused for what it asks leaves all shards unchanged exactly when
it fails the validation, or the first shard that gets a batch cannot log it. -/
theorem refused_upsert_unchanged_iff {sharded after : ShardedCollection backend config}
    {points : List UpsertPoint} {error : Error}
    (refused : sharded.upsert arith points = (after, .error error))
    (ofRequest : Error.ofRequest error = true) :
    Unchanged sharded.shards after.shards ↔
      (validatePoints arith config points = .ok () →
        ∀ batch, (shardBatches UpsertPoint.id sharded.shardCount points).find? (!·.isEmpty) =
          some batch → ¬ Loggable batch) := by
  unfold ShardedCollection.upsert at refused
  split at refused
  next isEmpty =>
    cases refused
    refine ⟨fun _ validates => ?_, fun _ => unchanged_refl _⟩
    rw [List.isEmpty_iff.mp isEmpty] at validates
    obtain ⟨_, -, validates⟩ := Result.of_bind_ok validates
    obtain ⟨_, upserts, -⟩ := Result.of_bind_ok validates
    obtain ⟨_, -, upserts⟩ := Result.of_bind_ok upserts
    obtain ⟨_, prepares, -⟩ := Result.of_bind_ok upserts
    cases prepares
  next nonempty =>
    cases validates : validatePoints arith config points with
    | error invalid =>
      rw [validates] at refused
      cases refused
      exact ⟨fun _ valid => absurd valid (by simp), fun _ => unchanged_refl _⟩
    | ok valid =>
      rw [validates] at refused
      obtain ⟨rfl, fails⟩ := Prod.mk.inj refused
      rw [commitBatches_unchanged_iff (prepared_batches validates) (Prod.ext rfl fails) ofRequest]
      exact ⟨fun unlogged _ => unlogged, fun unlogged => unlogged rfl⟩

end Requests

/-- A number that is not finite is refused by the only shard that gets a batch. -/
theorem infinite_metadata_leaves_one_shard :
    let config : CollectionConfig := ⟨1, .dotProduct, by decide⟩
    let sharded := ShardedCollection.created .flat config .sync 2 (by decide)
    let points : List UpsertPoint :=
      [⟨"b", [⟨0x3f800000⟩], (∅ : Metadata).insert "k" (.float ⟨0x7ff0000000000000⟩)⟩]
    ∃ after, sharded.upsert .normalised points =
        (after, .error (.invalidQuery "metadata floats must be finite")) ∧
      Unchanged sharded.shards after.shards := by
  intro config sharded points
  have refused : (sharded.upsert .normalised points).2 =
      .error (.invalidQuery "metadata floats must be finite") := by
    decide +kernel
  have whole : sharded.upsert .normalised points =
      ((sharded.upsert .normalised points).1,
        .error (.invalidQuery "metadata floats must be finite")) := Prod.ext rfl refused
  have unlogged : ∀ batch, (shardBatches UpsertPoint.id sharded.shardCount points).find?
      (!·.isEmpty) = some batch → ¬ Loggable batch := by
    have isSecond : shardIndex "b" 2 = 1 := by decide +kernel
    have only : (shardBatches UpsertPoint.id 2 points).find? (!·.isEmpty) = some points := by
      simp [shardBatches, buckets, points, isSecond, List.replicate_succ]
    intro batch isBatch loggable
    cases only.symm.trans isBatch
    exact absurd (loggable.1.2 _ List.mem_cons_self) (by decide +kernel)
  exact ⟨_, whole, (refused_upsert_unchanged_iff whole rfl).mpr fun _ => unlogged⟩

/-- The shard of `a` has committed its batch when the shard of `b` refuses its own. -/
theorem infinite_metadata_splits_request :
    let config : CollectionConfig := ⟨1, .dotProduct, by decide⟩
    let sharded := ShardedCollection.created .flat config .sync 2 (by decide)
    let points : List UpsertPoint := [⟨"a", [⟨0x3f800000⟩], ∅⟩,
      ⟨"b", [⟨0x3f800000⟩], (∅ : Metadata).insert "k" (.float ⟨0x7ff0000000000000⟩)⟩]
    ∃ after, sharded.upsert .normalised points =
        (after, .error (.invalidQuery "metadata floats must be finite")) ∧
      ¬ Unchanged sharded.shards after.shards := by
  intro config sharded points
  have refused : (sharded.upsert .normalised points).2 =
      .error (.invalidQuery "metadata floats must be finite") := by
    decide +kernel
  refine ⟨(sharded.upsert .normalised points).1, Prod.ext rfl refused, fun unchanged => ?_⟩
  have committed : (sharded.upsert .normalised points).1.shards.map Shard.latestSequence =
      [1, 0] := by
    decide +kernel
  have before : sharded.shards.map Shard.latestSequence = [0, 0] := rfl
  rw [unchanged.sequences, before] at committed
  cases committed

end FocalVector.Sharding
