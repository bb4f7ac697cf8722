import FocalVector.Engine.Values
import FocalVector.Foundation.Overwrite
import Mathlib.Data.List.Nodup

/-!
Contract: the in-memory collection, the state every durable layer rebuilds.

A collection holds its points under their ids together with the sequence of
the last committed batch. Batches are validated as a whole before they touch
the map, so a rejected batch leaves no trace.

Owns: `PointMap`, `Collection` and its mutating operations, and the effect of
a committed batch on point lookups.

Does not own: searching, or the durable forms of a batch.
-/

namespace FocalVector.Engine

open FocalVector.Foundation

/-! ## Point maps -/

/-- Points, each stored under its own id. -/
structure PointMap where
  entries : Std.ExtTreeMap String StoredPoint
  keyed : ∀ (id : String) (point : StoredPoint), entries[id]? = some point → point.id = id

namespace PointMap

def empty : PointMap := ⟨∅, by simp⟩

def get (points : PointMap) (id : String) : Option StoredPoint := points.entries[id]?

def insert (points : PointMap) (point : StoredPoint) : PointMap where
  entries := points.entries.insert point.id point
  keyed := by
    intro id found lookup
    rw [Std.ExtTreeMap.getElem?_insert] at lookup
    split at lookup
    next same =>
      rw [← Option.some.inj lookup]
      exact Std.LawfulEqCmp.eq_of_compare same
    next => exact points.keyed id found lookup

def remove (points : PointMap) (id : String) : PointMap where
  entries := points.entries.erase id
  keyed := by
    intro key found lookup
    rw [Std.ExtTreeMap.getElem?_erase] at lookup
    split at lookup
    next => contradiction
    next => exact points.keyed key found lookup

def values (points : PointMap) : List StoredPoint := points.entries.toList.map Prod.snd

def length (points : PointMap) : Nat := points.entries.size

def insertAll (points : PointMap) (batch : List StoredPoint) : PointMap :=
  batch.foldl insert points

def removeAll (points : PointMap) (ids : List String) : PointMap :=
  ids.foldl remove points

theorem ext_get {left right : PointMap} (same : ∀ id, left.get id = right.get id) :
    left = right := by
  cases left
  cases right
  congr
  exact Std.ExtTreeMap.ext_getElem? same

@[simp] theorem get_empty (id : String) : empty.get id = none := by
  simp [get, empty]

theorem get_insert (points : PointMap) (point : StoredPoint) (id : String) :
    (points.insert point).get id = if point.id = id then some point else points.get id := by
  simp [get, insert, Std.ExtTreeMap.getElem?_insert]

theorem get_remove (points : PointMap) (key id : String) :
    (points.remove key).get id = if key = id then none else points.get id := by
  simp [get, remove, Std.ExtTreeMap.getElem?_erase]

variable {points : PointMap} {id : String} {point : StoredPoint}

theorem id_of_get (found : points.get id = some point) : point.id = id :=
  points.keyed id point found

def lastWith (batch : List StoredPoint) (id : String) : Option StoredPoint :=
  batch.reverse.find? (·.id = id)

theorem get_insertAll (points : PointMap) (batch : List StoredPoint) (id : String) :
    (points.insertAll batch).get id = (lastWith batch id).or (points.get id) := by
  unfold insertAll
  induction batch generalizing points with
  | nil => rfl
  | cons point rest ih =>
    rw [List.foldl_cons, ih, get_insert]
    unfold lastWith
    rw [List.reverse_cons, List.find?_append, Option.or_assoc]
    congr 1
    by_cases same : point.id = id <;> simp [same]

variable {batch : List StoredPoint}

theorem mem_of_get_insertAll (found : (points.insertAll batch).get id = some point) :
    point ∈ batch ∨ points.get id = some point := by
  rw [get_insertAll] at found
  rcases Option.or_eq_some_iff.mp found with inBatch | ⟨-, before⟩
  · exact .inl (List.mem_reverse.mp (List.mem_of_find?_eq_some inBatch))
  · exact .inr before

theorem get_removeAll (points : PointMap) (ids : List String) (id : String) :
    (points.removeAll ids).get id = if id ∈ ids then none else points.get id := by
  unfold removeAll
  induction ids generalizing points with
  | nil => rfl
  | cons key rest ih =>
    rw [List.foldl_cons, ih, get_remove]
    by_cases same : key = id
    · simp [same]
    · simp [same, Ne.symm same]

theorem mem_values : point ∈ points.values ↔ points.get point.id = some point := by
  unfold values get
  rw [List.mem_map]
  constructor
  · rintro ⟨⟨id, found⟩, member, rfl⟩
    rw [Std.ExtTreeMap.mem_toList_iff_getElem?_eq_some] at member
    rw [points.keyed id found member, member]
  · intro found
    exact ⟨(point.id, point), Std.ExtTreeMap.mem_toList_iff_getElem?_eq_some.mpr found, rfl⟩

theorem values_ids (points : PointMap) :
    points.values.map StoredPoint.id = points.entries.toList.map Prod.fst := by
  unfold values
  rw [List.map_map]
  refine List.map_congr_left fun entry member => ?_
  have found := Std.ExtTreeMap.mem_toList_iff_getElem?_eq_some.mp (show (entry.1, entry.2) ∈ _ from member)
  exact points.keyed entry.1 entry.2 found

theorem values_ids_nodup (points : PointMap) :
    (points.values.map StoredPoint.id).Nodup := by
  rw [values_ids, Std.ExtTreeMap.map_fst_toList_eq_keys]
  exact Std.ExtTreeMap.nodup_keys

theorem lastWith_eq_some (distinct : (batch.map StoredPoint.id).Nodup) :
    lastWith batch id = some point ↔ point ∈ batch ∧ point.id = id := by
  unfold lastWith
  constructor
  · intro found
    exact ⟨List.mem_reverse.mp (List.mem_of_find?_eq_some found), by
      simpa using List.find?_some found⟩
  · rintro ⟨member, rfl⟩
    cases search : batch.reverse.find? (·.id = point.id) with
    | none =>
      have absent := List.find?_eq_none.mp search point (List.mem_reverse.mpr member)
      simp at absent
    | some found =>
      have sameId : found.id = point.id := by simpa using List.find?_some search
      have foundMember := List.mem_reverse.mp (List.mem_of_find?_eq_some search)
      rw [List.inj_on_of_nodup_map distinct foundMember member sameId]

theorem lastWith_eq_none : lastWith batch id = none ↔ id ∉ batch.map StoredPoint.id := by
  simp [lastWith]

theorem lastWith_values (points : PointMap) (id : String) :
    lastWith points.values id = points.get id := by
  ext point
  rw [lastWith_eq_some points.values_ids_nodup, mem_values]
  constructor
  · rintro ⟨found, rfl⟩
    exact found
  · intro found
    have sameId := id_of_get found
    exact ⟨by rw [sameId, found], sameId⟩

theorem insertAll_values (points : PointMap) : empty.insertAll points.values = points := by
  refine ext_get fun id => ?_
  rw [get_insertAll, lastWith_values]
  simp

end PointMap

/-! ## The collection -/

structure Collection where
  config : CollectionConfig
  points : PointMap
  sequence : UInt64

namespace Collection

/-- `Collection::new`: an empty collection of a positive dimension. -/
def new (config : CollectionConfig) : Result Collection :=
  if config.dimension = 0 then
    .error (.invalidConfig "dimension must be greater than zero")
  else
    .ok { config, points := .empty, sequence := 0 }

def latestSequence (collection : Collection) : UInt64 := collection.sequence

/-- `next_sequence`: a checked increment. -/
def nextSequence (collection : Collection) : Result UInt64 :=
  if collection.sequence.toNat + 1 < 2 ^ 64 then
    .ok (collection.sequence + 1)
  else
    .error .sequenceOverflow

/-- The loop body of `prepare_upsert`. -/
def preparePoint (arith : FloatArithmetic) (config : CollectionConfig) (sequence : UInt64)
    (point : UpsertPoint) : Result StoredPoint :=
  if point.vector.length ≠ config.dimension then
    .error (.invalidDimension config.dimension point.vector.length)
  else if point.id.isEmpty then
    .error (.invalidQuery "point ID must not be empty")
  else do
    let vector ← config.metric.prepare arith point.vector
    return { id := point.id, vector, metadata := point.metadata, sequence }

/-- `prepare_upsert`: validate a whole batch and give every point its sequence. -/
def prepareUpsert (arith : FloatArithmetic) (collection : Collection) (points : List UpsertPoint)
    (sequence : UInt64) : Result (List StoredPoint) :=
  if points.isEmpty then
    .error (.invalidQuery "upsert batch must not be empty")
  else
    points.mapM (preparePoint arith collection.config sequence)

def applyPreparedUpsert (collection : Collection) (points : List StoredPoint)
    (sequence : UInt64) : Collection :=
  { collection with points := collection.points.insertAll points, sequence }

def applyDeleteAt (collection : Collection) (ids : List String) (sequence : UInt64) :
    Collection :=
  { collection with points := collection.points.removeAll ids, sequence }

/-- `Collection::upsert`: a batch that is only kept in memory. -/
def upsert (arith : FloatArithmetic) (collection : Collection) (points : List UpsertPoint) :
    Result (Collection × UInt64) := do
  let sequence ← collection.nextSequence
  let prepared ← collection.prepareUpsert arith points sequence
  return (collection.applyPreparedUpsert prepared sequence, sequence)

/-- `Collection::delete`: missing ids are no-ops. -/
def delete (collection : Collection) (ids : List String) : Result (Collection × UInt64) := do
  let sequence ← collection.nextSequence
  return (collection.applyDeleteAt ids sequence, sequence)

/-- `snapshot_stored_points`: all points, sorted by id. -/
def snapshotStoredPoints (collection : Collection) : List StoredPoint := collection.points.values

/-- The loop body of `replace_persisted_points`. -/
def replacePersistedPoint (points : PointMap) (point : StoredPoint) : PointMap :=
  match points.get point.id with
  | some current => if current.sequence = point.sequence then points.insert point else points
  | none => points

/-- `replace_persisted_points`: swap in persisted copies of unchanged points. -/
def replacePersistedPoints (collection : Collection) (points : List StoredPoint) : Collection :=
  { collection with points := points.foldl replacePersistedPoint collection.points }

/-- The loop body of `restore_stored_snapshot`. -/
def restorePoint (points : PointMap) (point : StoredPoint) : Result PointMap :=
  if (points.get point.id).isSome then
    .error (.corruptStorage "segment contains duplicate point IDs")
  else
    .ok (points.insert point)

/-- `restore_stored_snapshot`: replace the contents by a snapshot's. -/
def restoreStoredSnapshot (collection : Collection) (points : List StoredPoint)
    (sequence : UInt64) : Result Collection :=
  if points.any (fun point => point.sequence > sequence) then
    .error (.corruptStorage "point sequence is newer than its segment")
  else do
    let restored ← points.foldlM restorePoint .empty
    return { collection with points := restored, sequence }

/-! ## Preparing a batch -/

variable {arith : FloatArithmetic} {config : CollectionConfig} {collection : Collection}
  {sequence : UInt64}

theorem nextSequence_eq_ok {next : UInt64} (granted : collection.nextSequence = .ok next) :
    next.toNat = collection.sequence.toNat + 1 := by
  unfold nextSequence at granted
  split at granted
  next fits =>
    rw [← Except.ok.inj granted, UInt64.toNat_add]
    exact Nat.mod_eq_of_lt fits
  next => contradiction

/-- Everything an accepted point satisfies. -/
structure PreparedPoint (arith : FloatArithmetic) (config : CollectionConfig)
    (sequence : UInt64) (point : UpsertPoint) (stored : StoredPoint) : Prop where
  sameId : stored.id = point.id
  sameMetadata : stored.metadata = point.metadata
  dimension : stored.vector.length = config.dimension
  nonempty : stored.id.isEmpty = false
  prepared : config.metric.prepare arith point.vector = .ok stored.vector
  sequenced : stored.sequence = sequence

theorem preparePoint_eq_ok {point : UpsertPoint} {stored : StoredPoint}
    (accepted : preparePoint arith config sequence point = .ok stored) :
    PreparedPoint arith config sequence point stored := by
  unfold preparePoint at accepted
  split at accepted
  next => contradiction
  next sameDimension =>
    split at accepted
    next => contradiction
    next named =>
      cases prepared : config.metric.prepare arith point.vector with
      | error => simp [prepared, bind, Except.bind] at accepted
      | ok vector =>
        simp only [prepared, bind, Except.bind, pure, Except.pure, Except.ok.injEq] at accepted
        subst accepted
        exact {
          sameId := rfl
          sameMetadata := rfl
          dimension := by
            rw [Metric.prepare_length prepared]
            exact not_not.mp sameDimension
          nonempty := by simpa using named
          prepared := prepared
          sequenced := rfl }

theorem mapM_preparePoint_eq_ok {points : List UpsertPoint} {prepared : List StoredPoint}
    (accepted : points.mapM (preparePoint arith config sequence) = .ok prepared) :
    prepared.length = points.length ∧ ∀ stored ∈ prepared, ∃ point ∈ points,
      PreparedPoint arith config sequence point stored := by
  have all := Checked.of_mapM accepted
  refine ⟨all.length_eq.symm, fun stored member => ?_⟩
  obtain ⟨point, isPoint, prepares⟩ := Checked.exists_of_forall₂ all stored member
  exact ⟨point, isPoint, preparePoint_eq_ok prepares⟩

theorem prepareUpsert_eq_ok {points : List UpsertPoint} {prepared : List StoredPoint}
    (accepted : collection.prepareUpsert arith points sequence = .ok prepared) :
    prepared ≠ [] ∧ ∀ stored ∈ prepared, ∃ point ∈ points,
      PreparedPoint arith collection.config sequence point stored := by
  unfold prepareUpsert at accepted
  split at accepted
  next => contradiction
  next nonempty =>
    obtain ⟨sameLength, each⟩ := mapM_preparePoint_eq_ok accepted
    refine ⟨?_, each⟩
    rintro rfl
    exact nonempty (List.isEmpty_iff.mpr (List.length_eq_zero_iff.mp sameLength.symm))

/-! ## Committed batches -/

end Collection

/-- A batch as it is committed: prepared points, or ids to remove. -/
inductive Write where
  | upsert (points : List StoredPoint)
  | delete (ids : List String)

namespace Write

def ids : Write → List String
  | .upsert points => points.map StoredPoint.id
  | .delete ids => ids

def effect : Write → Overwrite String StoredPoint
  | .upsert points => fun id => (PointMap.lastWith points id).map some
  | .delete ids => fun id => if id ∈ ids then some none else none

theorem effect_ne_none {write : Write} {id : String} :
    write.effect id ≠ none ↔ id ∈ write.ids := by
  cases write with
  | upsert points =>
    rw [← not_iff_not]
    simp only [effect, ids, ne_eq, Option.map_eq_none_iff, not_not]
    exact PointMap.lastWith_eq_none
  | delete ids => by_cases member : id ∈ ids <;> simp [effect, Write.ids, member]

end Write

namespace Collection

def applyWrite (collection : Collection) (write : Write) (sequence : UInt64) : Collection :=
  match write with
  | .upsert points => collection.applyPreparedUpsert points sequence
  | .delete ids => collection.applyDeleteAt ids sequence

variable {collection : Collection} {sequence : UInt64}

@[simp] theorem applyWrite_config (write : Write) :
    (collection.applyWrite write sequence).config = collection.config := by
  cases write <;> rfl

@[simp] theorem applyWrite_sequence (write : Write) :
    (collection.applyWrite write sequence).sequence = sequence := by
  cases write <;> rfl

theorem get_applyWrite (write : Write) :
    (collection.applyWrite write sequence).points.get =
      write.effect.apply collection.points.get := by
  funext id
  cases write with
  | upsert points =>
    simp only [applyWrite, applyPreparedUpsert, PointMap.get_insertAll, Write.effect,
      Overwrite.apply]
    cases PointMap.lastWith points id <;> rfl
  | delete ids =>
    simp only [applyWrite, applyDeleteAt, PointMap.get_removeAll, Write.effect,
      Overwrite.apply]
    split <;> rfl

theorem get_applyWrite_of_not_mem {write : Write} {id : String} (other : id ∉ write.ids) :
    (collection.applyWrite write sequence).points.get id = collection.points.get id := by
  rw [get_applyWrite, Overwrite.apply_of_none]
  exact not_not.mp fun touched => other (Write.effect_ne_none.mp touched)

/-- A lookup after a batch finds a point of the batch or one that was there. -/
theorem get_of_applyWrite {write : Write} {id : String} {point : StoredPoint}
    (found : (collection.applyWrite write sequence).points.get id = some point) :
    (∃ points, write = .upsert points ∧ point ∈ points) ∨
      id ∉ write.ids ∧ collection.points.get id = some point := by
  by_cases named : id ∈ write.ids
  · left
    cases write with
    | delete ids =>
      have isNamed : id ∈ ids := named
      rw [applyWrite, applyDeleteAt, PointMap.get_removeAll, if_pos isNamed] at found
      cases found
    | upsert points =>
      refine ⟨points, rfl, ?_⟩
      rw [applyWrite, applyPreparedUpsert, PointMap.get_insertAll] at found
      rcases Option.or_eq_some_iff.mp found with inBatch | ⟨missing, -⟩
      · exact List.mem_reverse.mp (List.mem_of_find?_eq_some inBatch)
      · exact absurd named (PointMap.lastWith_eq_none.mp missing)
  · rw [get_applyWrite_of_not_mem named] at found
    exact .inr ⟨named, found⟩

theorem ext_get {left right : Collection} (sameConfig : left.config = right.config)
    (sameSequence : left.sequence = right.sequence)
    (samePoints : ∀ id, left.points.get id = right.points.get id) : left = right := by
  cases left
  cases right
  simp only [Collection.mk.injEq]
  exact ⟨sameConfig, PointMap.ext_get samePoints, sameSequence⟩

/-! ## Restoring and replacing points -/

variable {batch : List StoredPoint} {points : PointMap}

theorem foldlM_restorePoint (fresh : ∀ point ∈ batch, points.get point.id = none)
    (distinct : (batch.map StoredPoint.id).Nodup) :
    batch.foldlM restorePoint points = .ok (points.insertAll batch) := by
  induction batch generalizing points with
  | nil => rfl
  | cons point rest ih =>
    rw [List.map_cons, List.nodup_cons] at distinct
    have absent : points.get point.id = none := fresh point List.mem_cons_self
    have restored : restorePoint points point = .ok (points.insert point) := by
      simp [restorePoint, absent]
    rw [List.foldlM_cons, restored]
    refine ih ?_ distinct.2
    intro later member
    have differs : point.id ≠ later.id := fun same =>
      distinct.1 (same ▸ List.mem_map_of_mem member)
    rw [PointMap.get_insert, if_neg differs]
    exact fresh later (List.mem_cons_of_mem _ member)

theorem insertAll_of_foldlM_restorePoint {restored : PointMap}
    (restores : batch.foldlM restorePoint points = .ok restored) :
    restored = points.insertAll batch := by
  induction batch generalizing points with
  | nil => exact (Except.ok.inj restores).symm
  | cons point rest ih =>
    rw [List.foldlM_cons] at restores
    unfold restorePoint at restores
    split at restores
    · cases restores
    · exact ih restores

theorem restoreStoredSnapshot_ok (sequenced : ∀ point ∈ batch, point.sequence ≤ sequence)
    (distinct : (batch.map StoredPoint.id).Nodup) :
    collection.restoreStoredSnapshot batch sequence =
      .ok { collection with points := PointMap.empty.insertAll batch, sequence } := by
  have noneNewer : batch.any (fun point => point.sequence > sequence) = false := by
    simpa [List.any_eq_false] using sequenced
  unfold restoreStoredSnapshot
  rw [if_neg (by simp [noneNewer]),
    foldlM_restorePoint (fun _ _ => PointMap.get_empty _) distinct]
  rfl

theorem restoreStoredSnapshot_eq_ok {restored : Collection}
    (restores : collection.restoreStoredSnapshot batch sequence = .ok restored) :
    restored = { collection with points := PointMap.empty.insertAll batch, sequence } := by
  unfold restoreStoredSnapshot at restores
  split at restores
  · cases restores
  · obtain ⟨points, inserts, returns⟩ := Result.of_bind_ok restores
    cases returns
    rw [insertAll_of_foldlM_restorePoint inserts]

theorem get_replacePersistedPoint {point : StoredPoint}
    (faithful : ∀ current, points.get point.id = some current →
      current.sequence = point.sequence → current = point) :
    replacePersistedPoint points point = points := by
  unfold replacePersistedPoint
  split
  next current found =>
    split
    next same =>
      have identical := faithful current found same
      subst identical
      refine PointMap.ext_get fun id => ?_
      rw [PointMap.get_insert]
      split
      next sameId => rw [← sameId, found]
      next => rfl
    next => rfl
  next => rfl

theorem replacePersistedPoints_of_faithful
    (faithful : ∀ point ∈ batch, ∀ current, collection.points.get point.id = some current →
      current.sequence = point.sequence → current = point) :
    collection.replacePersistedPoints batch = collection := by
  have unchanged : batch.foldl replacePersistedPoint collection.points = collection.points := by
    induction batch with
    | nil => rfl
    | cons point rest ih =>
      rw [List.foldl_cons,
        get_replacePersistedPoint (faithful point List.mem_cons_self)]
      exact ih fun later member =>
        faithful later (List.mem_cons_of_mem _ member)
  unfold replacePersistedPoints
  rw [unchanged]

end Collection

end FocalVector.Engine
