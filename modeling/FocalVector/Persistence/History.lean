import FocalVector.Persistence.Store

/-!
Contract: the history of a collection and what its segments hold.

A log of committed batches gives a collection at each of its positions. A full
segment holds the collection at one position; a delta holds every id that
changed since an earlier one, and carries the collection there.

Owns: `history`, the points along it, and what applying a segment gives.

Does not own: how segments are chained in a directory.
-/

namespace FocalVector.Persistence

open FocalVector.Foundation FocalVector.Engine LittleEndian

/-! ## Histories -/

/-- The collection that `Collection::new` returns. -/
def blank (config : CollectionConfig) : Collection where
  config := config
  points := .empty
  sequence := 0

/-- The collection after the first `count` batches of a log. -/
def history (config : CollectionConfig) (log : List Write) (count : Nat) : Collection :=
  commitAll (blank config) (log.take count)

section History

variable {config : CollectionConfig} {log : List Write} {count : Nat}

theorem new_eq_ok (positive : config.dimension ≠ 0) : Collection.new config = .ok (blank config) :=
  if_neg positive

@[simp] theorem history_config (config : CollectionConfig) (log : List Write) (count : Nat) :
    (history config log count).config = config :=
  commitAll_config _ _

theorem history_append (config : CollectionConfig) (within : count ≤ log.length)
    (later : List Write) : history config (log ++ later) count = history config log count := by
  unfold history
  rw [List.take_append_of_le_length within]

theorem history_toNat (config : CollectionConfig) (within : count ≤ log.length)
    (bounded : log.length < 2 ^ 64) : (history config log count).sequence.toNat = count := by
  have size : (log.take count).length = count := by simp [within]
  have advanced := commitAll_sequence (blank config) (log.take count)
    (by rw [size]; exact lt_of_le_of_lt (by simp [blank, within]) bounded)
  rw [size] at advanced
  exact advanced.trans (Nat.zero_add count)

theorem history_sequence (config : CollectionConfig) (within : count ≤ log.length)
    (bounded : log.length < 2 ^ 64) :
    (history config log count).sequence = UInt64.ofNat count := by
  apply UInt64.toNat_inj.mp
  rw [history_toNat config within bounded, toNat_ofNat_of_lt (by omega)]

theorem commitAll_append (collection : Collection) (left right : List Write) :
    commitAll collection (left ++ right) = commitAll (commitAll collection left) right :=
  List.foldl_append

theorem commitAll_history (config : CollectionConfig) (log : List Write) (count : Nat) :
    commitAll (history config log count) (log.drop count) = history config log log.length := by
  unfold history
  rw [← commitAll_append, List.take_append_drop, List.take_length]

theorem commit_history (config : CollectionConfig) (log : List Write) (write : Write) :
    commit (history config log log.length) write =
      history config (log ++ [write]) (log ++ [write]).length := by
  unfold history
  rw [List.take_length, List.take_length, commitAll_append]
  rfl

theorem get_history (config : CollectionConfig) (log : List Write) (count : Nat) :
    (history config log count).points.get =
      Overwrite.stateAt (log.map Write.effect) count := by
  have along : ∀ (writes : List Write) (collection : Collection),
      (commitAll collection writes).points.get =
        Overwrite.applyAll (writes.map Write.effect) collection.points.get := by
    intro writes
    induction writes with
    | nil => exact fun collection => rfl
    | cons write rest ih =>
      intro collection
      change (commitAll (commit collection write) rest).points.get = _
      rw [ih, commit, Collection.get_applyWrite]
      rfl
  unfold history Overwrite.stateAt
  rw [along, List.map_take]
  rfl

theorem exists_upsert_of_get {id : String} {point : StoredPoint}
    (found : (history config log count).points.get id = some point) :
    ∃ position points, position < count ∧ log[position]? = some (.upsert points) ∧
      PointMap.lastWith points id = some point := by
  rw [get_history] at found
  obtain ⟨position, update, early, recorded, sets⟩ := Overwrite.exists_update_of_stateAt found
  rw [List.getElem?_map] at recorded
  cases lookup : log[position]? with
  | none => simp [lookup] at recorded
  | some write =>
    rw [lookup, Option.map_some, Option.some.injEq] at recorded
    subst recorded
    cases write with
    | upsert points =>
      refine ⟨position, points, early, lookup, ?_⟩
      simpa [Write.effect] using sets
    | delete ids =>
      simp only [Write.effect] at sets
      split at sets <;> simp at sets

/-- What a recorded log says about the points of its history. -/
structure HistoricalPoint (config : CollectionConfig) (log : List Write) (count : Nat)
    (point : StoredPoint) : Prop where
  sized : point.vector.length = config.dimension
  within : SegmentPointWithin wireLimit point
  finite : MetadataFinite point.metadata
  sequenced : ∃ position points, position < count ∧ log[position]? = some (.upsert points) ∧
    PointMap.lastWith points point.id = some point ∧
    point.sequence = UInt64.ofNat (1 + position)

theorem historicalPoint_of_mem (recorded : Recorded config 1 log) {point : StoredPoint}
    (member : point ∈ (history config log count).points.values) :
    HistoricalPoint config log count point := by
  obtain ⟨position, points, early, found, last⟩ :=
    exists_upsert_of_get (PointMap.mem_values.mp member)
  have inBatch : point ∈ points := List.mem_reverse.mp (List.mem_of_find?_eq_some last)
  have inLog : Write.upsert points ∈ log := List.mem_of_getElem? found
  obtain ⟨-, shaped⟩ := recorded.shaped position _ found
  obtain ⟨-, each⟩ := recorded.fits _ inLog
  exact {
    sized := (shaped point inBatch).1
    within := ⟨(each point inBatch).1, (each point inBatch).2.2⟩
    finite := recorded.finite _ inLog point inBatch
    sequenced := ⟨position, points, early, found, last, (shaped point inBatch).2.2⟩ }

theorem bounded_of_recorded (recorded : Recorded config 1 log) : log.length < 2 ^ 64 := by
  have bound := recorded.bounded
  omega

/-- Points of two histories of one log with the same id and sequence are equal. -/
theorem historicalPoint_unique (recorded : Recorded config 1 log) {other : Nat}
    {left right : StoredPoint} (inLeft : left ∈ (history config log count).points.values)
    (inRight : right ∈ (history config log other).points.values) (sameId : left.id = right.id)
    (sameSequence : left.sequence = right.sequence) : left = right := by
  obtain ⟨leftPosition, leftPoints, -, leftFound, leftLast, leftSequence⟩ :=
    (historicalPoint_of_mem recorded inLeft).sequenced
  obtain ⟨rightPosition, rightPoints, -, rightFound, rightLast, rightSequence⟩ :=
    (historicalPoint_of_mem recorded inRight).sequenced
  have bound := bounded_of_recorded recorded
  have leftInside := (List.getElem?_eq_some_iff.mp leftFound).1
  have rightInside := (List.getElem?_eq_some_iff.mp rightFound).1
  have samePosition : leftPosition = rightPosition := by
    rw [leftSequence, rightSequence] at sameSequence
    have numbers := congrArg UInt64.toNat sameSequence
    rw [toNat_ofNat_of_lt (by omega), toNat_ofNat_of_lt (by omega)] at numbers
    omega
  subst samePosition
  rw [leftFound, Option.some.injEq, Write.upsert.injEq] at rightFound
  subst rightFound
  rw [sameId, rightLast, Option.some.injEq] at leftLast
  exact leftLast.symm

end History

/-! ## What segments hold -/

def DecodedSegment.items {backend : IndexBackend} (decoded : DecodedSegment backend) :
    SegmentItems where
  sequence := decoded.sequence
  full := decoded.full
  points := decoded.points
  tombstones := decoded.tombstones

section Segments

variable {backend : IndexBackend} {config : CollectionConfig} {log : List Write}
  {start count : Nat} {items : SegmentItems} {decoded : DecodedSegment backend}

/-- The items of a full segment of the collection at a position of its log. -/
structure HoldsAll (config : CollectionConfig) (log : List Write) (count : Nat)
    (items : SegmentItems) : Prop where
  full : items.full = true
  points : items.points = (history config log count).points.values
  tombstones : items.tombstones = []

/-- The items of a delta that holds every id changed between two positions of a
log. -/
structure HoldsChanges (config : CollectionConfig) (log : List Write) (start count : Nat)
    (items : SegmentItems) : Prop where
  full : items.full = false
  captured : ∃ chosen : String → Bool,
    (∀ id, Overwrite.ChangedBetween (log.map Write.effect) start count id → chosen id = true) ∧
    items.points = (history config log count).points.values.filter (chosen ·.id) ∧
    ∀ id, id ∈ items.tombstones ↔
      chosen id = true ∧ (history config log count).points.get id = none

theorem HoldsAll.append (holds : HoldsAll config log count items) (within : count ≤ log.length)
    (later : List Write) : HoldsAll config (log ++ later) count items where
  full := holds.full
  points := by
    rw [history_append config within]
    exact holds.points
  tombstones := holds.tombstones

theorem HoldsChanges.append (holds : HoldsChanges config log start count items)
    (within : count ≤ log.length) (later : List Write) :
    HoldsChanges config (log ++ later) start count items where
  full := holds.full
  captured := by
    obtain ⟨chosen, covers, points, tombstones⟩ := holds.captured
    rw [history_append config within]
    refine ⟨chosen, fun id changed => covers id ?_, points, tombstones⟩
    rw [List.map_append] at changed
    exact changed.of_append (by rw [List.length_map]; exact within)

/-- A delta over some segments is one over any that reach further. -/
theorem HoldsChanges.advance {next : Nat} (holds : HoldsChanges config log start count items)
    (further : start ≤ next) : HoldsChanges config log next count items where
  full := holds.full
  captured := by
    obtain ⟨chosen, covers, holdsRest⟩ := holds.captured
    exact ⟨chosen, fun id changed => covers id (changed.widen further le_rfl), holdsRest⟩

theorem applySegment_holdsAll (recorded : Recorded config 1 log) (within : count ≤ log.length)
    (holds : HoldsAll config log count decoded.items) (sequenced : decoded.sequence = UInt64.ofNat count)
    {collection : Collection} (sameConfig : collection.config = config) :
    applySegment collection decoded = .ok (history config log count) := by
  have bound := bounded_of_recorded recorded
  have isFull : decoded.full = true := holds.full
  have points : decoded.points = (history config log count).points.values := holds.points
  have older : ∀ point ∈ decoded.points, point.sequence ≤ decoded.sequence := by
    intro point member
    rw [points] at member
    obtain ⟨position, -, early, -, -, same⟩ :=
      (historicalPoint_of_mem recorded member).sequenced
    rw [same, sequenced, UInt64.le_iff_toNat_le, toNat_ofNat_of_lt (by omega),
      toNat_ofNat_of_lt (by omega)]
    omega
  have distinct : (decoded.points.map StoredPoint.id).Nodup := by
    rw [points]
    exact PointMap.values_ids_nodup _
  unfold applySegment
  rw [if_pos isFull, Collection.restoreStoredSnapshot_ok older distinct, points,
    PointMap.insertAll_values, sequenced, ← history_sequence config within bound]
  apply congrArg
  exact Collection.ext_get (sameConfig.trans (history_config config log count).symm) rfl
    fun _ => rfl

theorem lastWith_filter_values (points : PointMap) (chosen : String → Bool) (id : String) :
    PointMap.lastWith (points.values.filter (chosen ·.id)) id =
      if chosen id then points.get id else none := by
  have distinct : ((points.values.filter (chosen ·.id)).map StoredPoint.id).Nodup :=
    points.values_ids_nodup.sublist (List.filter_sublist.map StoredPoint.id)
  ext point
  rw [PointMap.lastWith_eq_some distinct, List.mem_filter, PointMap.mem_values]
  constructor
  · intro ⟨⟨found, isChosen⟩, sameId⟩
    subst sameId
    rw [if_pos isChosen, found]
  · intro found
    by_cases isChosen : chosen id = true
    · rw [if_pos isChosen] at found
      have sameId := PointMap.id_of_get found
      rw [sameId]
      exact ⟨⟨found, isChosen⟩, rfl⟩
    · rw [if_neg isChosen] at found
      cases found

theorem applySegment_holdsChanges (bounded : log.length < 2 ^ 64) (ordered : start ≤ count)
    (within : count ≤ log.length) (holds : HoldsChanges config log start count decoded.items)
    (sequenced : decoded.sequence = UInt64.ofNat count) :
    applySegment (history config log start) decoded = .ok (history config log count) := by
  have captured := holds.captured
  simp only [DecodedSegment.items] at captured
  obtain ⟨chosen, covers, points, tombstones⟩ := captured
  have isDelta : decoded.full = false := holds.full
  unfold applySegment
  rw [if_neg (by simp [isDelta])]
  apply congrArg
  have upserted : (if decoded.points.isEmpty then history config log start
      else (history config log start).applyPreparedUpsert decoded.points decoded.sequence).points =
      (history config log start).points.insertAll decoded.points := by
    split
    next empty => rw [List.isEmpty_iff.mp empty]; rfl
    next => rfl
  have configured : (if decoded.points.isEmpty then history config log start
      else (history config log start).applyPreparedUpsert decoded.points decoded.sequence).config =
      config := by
    split <;> exact history_config config log start
  refine Collection.ext_get (configured.trans (history_config config log count).symm)
    (sequenced.trans (history_sequence config within bounded).symm) fun id => ?_
  -- The segment acts as the capture of the chosen ids at the later position.
  have captures : (Overwrite.capture chosen (history config log count).points.get).apply
      (history config log start).points.get = (history config log count).points.get := by
    apply Overwrite.capture_apply
    intro key unchosen
    rw [get_history, get_history]
    apply Overwrite.stateAt_of_not_changed ordered
    intro changed
    rw [covers key changed] at unchosen
    cases unchosen
  rw [← congrFun captures id]
  simp only [Collection.applyDeleteAt, upserted]
  simp only [PointMap.get_removeAll, PointMap.get_insertAll, points, lastWith_filter_values,
    tombstones, Overwrite.apply, Overwrite.capture]
  cases isChosen : chosen id with
  | false => simp
  | true => cases found : (history config log count).points.get id <;> simp

end Segments

end FocalVector.Persistence
