import FocalVector.Persistence.Acknowledge
import FocalVector.Persistence.Flush

/-!
Contract: collections whose directory stores their history, and the flushes that
were taken of them.

A flush holds the history at the position where it was taken, or what changed
since the segments. Its segment may replace one of the same name only when both
have the same bytes. Then the directory stores the same history before and after
the publication.

Owns: `Snapped`, `Taken`, `Ready`, `Held`, and directories after a publication.

Does not own: what the open collection knows about its segments.
-/

namespace FocalVector.Persistence

open FocalVector.Foundation FocalVector.Engine LittleEndian

/-! ## Flushes on their way -/

section Snapshots

variable {backend : IndexBackend} {config : CollectionConfig} {log : List Write}
  {count taken : Nat} {items : SegmentItems}

/-- The items of a flush that was taken at a position of the log. They can go on
top of segments that end at `count` or later. -/
structure Snapped (config : CollectionConfig) (log : List Write) (count taken : Nat)
    (items : SegmentItems) : Prop where
  within : taken ≤ log.length
  sequenced : items.sequence = UInt64.ofNat taken
  holds : HoldsAll config log taken items ∨ HoldsChanges config log count taken items

namespace Snapped

section

variable (snapped : Snapped config log count taken items)

include snapped

theorem append (later : List Write) :
    Snapped config (log ++ later) count taken items where
  within := le_trans snapped.within (by simp)
  sequenced := snapped.sequenced
  holds := snapped.holds.imp (·.append snapped.within later) (·.append snapped.within later)

theorem advance {next : Nat}
    (further : count ≤ next) : Snapped config log next taken items where
  within := snapped.within
  sequenced := snapped.sequenced
  holds := snapped.holds.imp id (·.advance further)

theorem holdsAll (isFull : items.full = true) :
    HoldsAll config log taken items := by
  rcases snapped.holds with holds | holds
  · exact holds
  · rw [holds.full] at isFull
    cases isFull

theorem holdsChanges
    (isDelta : items.full = false) : HoldsChanges config log count taken items := by
  rcases snapped.holds with holds | holds
  · rw [holds.full] at isDelta
    cases isDelta
  · exact holds

theorem historical : ∀ point ∈ items.points, point ∈ (history config log taken).points.values := by
  intro point member
  rcases snapped.holds with holds | holds
  · rwa [holds.points] at member
  · obtain ⟨chosen, -, points, -⟩ := holds.captured
    rw [points] at member
    exact List.mem_of_mem_filter member

end

theorem sized (recorded : Recorded config 1 log)
    (snapped : Snapped config log count taken items) :
    ∀ point ∈ items.points, point.vector.length = config.dimension :=
  fun point member => (historicalPoint_of_mem recorded (snapped.historical point member)).sized

end Snapped

/-- A full segment of a position is determined by it. -/
theorem items_of_holdsAll {left right : SegmentItems} (first : HoldsAll config log taken left)
    (second : HoldsAll config log taken right) (same : left.sequence = right.sequence) :
    left = right := by
  cases left
  cases right
  obtain ⟨leftFull, leftPoints, leftTombstones⟩ := first
  obtain ⟨rightFull, rightPoints, rightTombstones⟩ := second
  simp_all

structure Taken (config : CollectionConfig) (log : List Write)
    (chain : List (DecodedSegment backend)) (count taken : Nat) (snapshot : FlushSnapshot) :
    Prop where
  sameConfig : snapshot.config = config
  snapped : Snapped config log count taken snapshot.items
  graphed : snapshot.graphPoints = snapshot.items.points
  based : snapshot.compact = false → chain ≠ []

namespace Taken

variable {chain : List (DecodedSegment backend)} {snapshot : FlushSnapshot}

theorem append (pending : Taken config log chain count taken snapshot) (later : List Write) :
    Taken config (log ++ later) chain count taken snapshot :=
  { pending with snapped := pending.snapped.append later }

theorem advance {segments : List (DecodedSegment backend)} {next : Nat}
    (pending : Taken config log chain count taken snapshot) (further : count ≤ next)
    (nonempty : segments ≠ []) : Taken config log segments next taken snapshot where
  sameConfig := pending.sameConfig
  snapped := pending.snapped.advance further
  graphed := pending.graphed
  based := fun _ => nonempty

end Taken

structure Ready (backend : IndexBackend) (config : CollectionConfig) (disk : Directory)
    (log : List Write) (chain : List (DecodedSegment backend)) (count taken : Nat)
    (prepared : PreparedFlush backend) (items : SegmentItems) (bytes : Bytes) : Prop where
  temporary : leading prepared.temporarySegment = ['.', 's']
  file : disk prepared.temporarySegment = some bytes
  built : Built backend config items bytes
  snapped : Snapped config log count taken items
  sameSequence : prepared.sequence = items.sequence
  sameKind : prepared.compact = items.full
  based : items.full = false → chain ≠ []

namespace Ready

variable {disk other : Directory} {chain : List (DecodedSegment backend)}
  {prepared : PreparedFlush backend} {bytes : Bytes}

section

variable (ready : Ready backend config disk log chain count taken prepared items bytes)

include ready

theorem append (later : List Write) :
    Ready backend config disk (log ++ later) chain count taken prepared items bytes :=
  { ready with snapped := ready.snapped.append later }

theorem advance {segments : List (DecodedSegment backend)} {next : Nat}
    (further : count ≤ next) (nonempty : segments ≠ []) :
    Ready backend config disk log segments next taken prepared items bytes :=
  { ready with
    snapped := ready.snapped.advance further
    based := fun _ => nonempty }

theorem frame (same : other prepared.temporarySegment = disk prepared.temporarySegment) :
    Ready backend config other log chain count taken prepared items bytes :=
  { ready with file := same.trans ready.file }

end

end Ready

end Snapshots

/-! ## Directories after a publication -/

section Publishing

variable {backend : IndexBackend} {config : CollectionConfig} {disk other : Directory}
  {log : List Write} {chain : List (DecodedSegment backend)} {count start taken next : Nat}
  {store : PersistentCollection backend} {prepared : PreparedFlush backend}
  {previous : Option Manifest} {items : SegmentItems} {bytes : Bytes}
  {decoded : DecodedSegment backend}

/-- A directory that a publication did not get to still stores its log, when the
moved segment left those of the chain as they were. -/
theorem OnDisk.untouched (onDisk : OnDisk backend config disk log chain count start)
    (untouched : Untouched prepared previous bytes disk other)
    (safe : ∀ decoded ∈ chain, decoded.sequence = prepared.sequence →
      ¬ Stale prepared previous → disk (segmentName prepared.sequence) = some bytes) :
    OnDisk backend config other log chain count start where
  metadata := untouched.metadata.trans onDisk.metadata
  base := by
    cases onDisk.base with
    | empty missing => exact .empty (untouched.manifest.trans missing)
    | chain chained few manifest =>
      refine .chain (chained.frame fun decoded member => ?_) few
        (untouched.manifest.trans manifest)
      rcases untouched.segments decoded.sequence with same | ⟨fresh, isNew, file⟩
      · exact same
      · rw [file, isNew, safe decoded member isNew fresh]
  logged := untouched.log.trans onDisk.logged
  overlap := onDisk.overlap

theorem OnDisk.visible (onDisk : OnDisk backend config disk log chain count start)
    (same : SameVisible disk other) : OnDisk backend config other log chain count start where
  metadata := (same _ (by simp)).trans onDisk.metadata
  base := onDisk.base.frame (same _ (by simp)) fun _ => same _ (by simp)
  logged := (same _ (by simp)).trans onDisk.logged
  overlap := onDisk.overlap

/-- A directory stores one more batch once its frame is at the end of the log. -/
theorem OnDisk.log_append (onDisk : OnDisk backend config disk log chain count start)
    (write : Write) :
    OnDisk backend config
      (disk.write walName (walBytes (1 + start) ((log ++ [write]).drop start)))
      (log ++ [write]) chain count start where
  metadata := by
    rw [write_apart _ _ (by simp)]
    exact onDisk.metadata
  base := by
    apply Base.write_log
    cases onDisk.base with
    | empty missing => exact .empty missing
    | chain chained few manifest => exact .chain (chained.append [write]) few manifest
  logged := Disk.write_same _ _ _
  overlap := onDisk.overlap

def nextChain (prepared : PreparedFlush backend) (chain : List (DecodedSegment backend))
    (decoded : DecodedSegment backend) : List (DecodedSegment backend) :=
  if prepared.compact then [decoded] else chain ++ [decoded]

theorem nextChain_of_compact (compact : prepared.compact = true) :
    nextChain prepared chain decoded = [decoded] :=
  if_pos compact

theorem nextChain_of_delta (isDelta : prepared.compact = false) :
    nextChain prepared chain decoded = chain ++ [decoded] :=
  if_neg (by simp [isDelta])

theorem nextChain_length (few : prepared.compact = false → chain.length ≤ maxIndexSegments) :
    (nextChain prepared chain decoded).length ≤ maxIndexSegments + 1 := by
  unfold nextChain
  cases kind : prepared.compact with
  | true => exact Nat.le_add_left 1 _
  | false => simpa using few kind

theorem Ready.stored (recorded : Recorded config 1 log)
    (ready : Ready backend config disk log chain count taken prepared items bytes)
    (claims : Claims store prepared bytes decoded)
    (file : other (segmentName prepared.sequence) = some bytes) :
    Stored backend config other taken decoded ∧ decoded.items = items := by
  obtain ⟨sameConfig, sameItems, -⟩ :=
    ready.built.decoded (ready.snapped.sized recorded) claims.1
  have sequenced : prepared.sequence = UInt64.ofNat taken :=
    ready.sameSequence.trans ready.snapped.sequenced
  refine ⟨⟨sameConfig, claims.2.2.1.trans sequenced, bytes, sequenced ▸ file, claims.1, ?_⟩,
    sameItems⟩
  rw [sameItems]
  exact ready.built

theorem Ready.claims (recorded : Recorded config 1 log)
    (ready : Ready backend config disk log chain count taken prepared items bytes)
    (sameConfig : store.inner.config = config)
    (decodes : decodeSegment backend bytes = .ok decoded) :
    Claims store prepared bytes decoded := by
  obtain ⟨decodedConfig, sameItems, -⟩ :=
    ready.built.decoded (ready.snapped.sized recorded) decodes
  refine ⟨decodes, decodedConfig.trans sameConfig.symm, ?_, ?_⟩
  · rw [ready.sameSequence, ← sameItems]
    rfl
  · rw [ready.sameKind, ← sameItems]
    rfl

theorem nextManifest_eq (ready : Ready backend config disk log chain count taken prepared items bytes)
    (claims : Claims store prepared bytes decoded) :
    nextManifest prepared (baseManifest chain count) =
      chainManifest (nextChain prepared chain decoded) taken := by
  have sequenced : prepared.sequence = UInt64.ofNat taken :=
    ready.sameSequence.trans ready.snapped.sequenced
  unfold nextManifest chainManifest manifestOf PersistentCollection.publishedNames nextChain
  rw [sequenced]
  cases kind : prepared.compact with
  | true => simp [claims.2.2.1, sequenced]
  | false =>
    have nonempty : chain ≠ [] := ready.based (ready.sameKind.symm.trans kind)
    simp [baseManifest, nonempty, chainManifest, manifestOf, claims.2.2.1, sequenced]

theorem Ready.names_within
    (ready : Ready backend config disk log chain count taken prepared items bytes)
    (claims : Claims store prepared bytes decoded)
    (few : prepared.compact = false → chain.length ≤ maxIndexSegments) :
    NamesWithin wireLimit (nextManifest prepared (baseManifest chain count)).segments := by
  rw [nextManifest_eq ready claims]
  apply manifestOf_within
  rw [List.length_map]
  exact le_trans (nextChain_length few) (by decide)

/-- A published directory stores the same log with its segments at the position
where the flush was taken. -/
theorem OnDisk.promoted (recorded : Recorded config 1 log)
    (onDisk : OnDisk backend config disk log chain count start)
    (ready : Ready backend config disk log chain count taken prepared items bytes)
    (claims : Claims store prepared bytes decoded)
    (promoted : Promoted store prepared (baseManifest chain count) bytes disk other)
    (later : prepared.compact = false → count < taken)
    (few : prepared.compact = false → chain.length ≤ maxIndexSegments)
    (logged : other walName = some (walBytes (1 + next) (log.drop next)))
    (overlap : next ≤ taken) :
    OnDisk backend config other log (nextChain prepared chain decoded) taken next := by
  have bounded := bounded_of_recorded recorded
  obtain ⟨stored, sameItems⟩ := ready.stored recorded claims promoted.segment
  have manifest := promoted.manifest
  rw [nextManifest_eq ready claims] at manifest
  refine ⟨promoted.metadata.trans onDisk.metadata, ?_, logged, overlap⟩
  unfold nextChain at manifest ⊢
  cases kind : prepared.compact with
  | true =>
    rw [kind, if_pos rfl] at manifest
    rw [if_pos rfl]
    refine .chain (.full ready.snapped.within stored ?_) (Nat.le_add_left 1 _) manifest
    rw [sameItems]
    exact ready.snapped.holdsAll (ready.sameKind.symm.trans kind)
  | false =>
    rw [kind, if_neg Bool.false_ne_true] at manifest
    rw [if_neg Bool.false_ne_true]
    have isDelta : items.full = false := ready.sameKind.symm.trans kind
    have advances := later kind
    cases base : onDisk.base with
    | empty missing => exact absurd rfl (ready.based isDelta)
    | chain chained small _ =>
      have kept : Chain backend config other log chain count := by
        refine chained.frame fun earlier member => promoted.segments kind _ fun same => ?_
        have bound := chained.sequence_le bounded earlier member
        have within := ready.snapped.within
        rw [same, ready.sameSequence, ready.snapped.sequenced,
          toNat_ofNat_of_lt (by omega)] at bound
        omega
      refine .chain (.delta kept advances ready.snapped.within stored ?_) ?_ manifest
      · rw [sameItems]
        exact ready.snapped.holdsChanges isDelta
      · rw [List.length_append, List.length_singleton]
        exact Nat.succ_le_succ (few kind)

end Publishing

/-! ## Dirty ids -/

theorem contains_changedIds {dirtyIds : IdSet} {writes : List Write} {id : String} :
    (changedIds dirtyIds writes).contains id = true ↔
      dirtyIds.contains id = true ∨ ∃ write ∈ writes, id ∈ write.ids := by
  simp [changedIds, Std.ExtTreeSet.contains_insertMany_list, List.mem_flatMap]

theorem ids_of_changedBetween {log : List Write} {count stop : Nat} {id : String}
    (changed : Overwrite.ChangedBetween (log.map Write.effect) count stop id) :
    ∃ write ∈ log.drop count, id ∈ write.ids := by
  obtain ⟨position, update, low, -, found, speaks⟩ := changed
  rw [List.getElem?_map] at found
  cases lookup : log[position]? with
  | none => simp [lookup] at found
  | some write =>
    rw [lookup, Option.map_some, Option.some.injEq] at found
    subst found
    refine ⟨write, List.mem_of_getElem? (i := position - count) ?_, Write.effect_ne_none.mp speaks⟩
    rw [List.getElem?_drop, Nat.add_sub_cancel' low, lookup]

theorem dirty_committed {backend : IndexBackend} {store : PersistentCollection backend}
    {log : List Write} {count : Nat}
    (dirty : ∀ id, Overwrite.ChangedBetween (log.map Write.effect) count log.length id →
      store.dirtyIds.contains id = true) (write : Write) :
    ∀ id, Overwrite.ChangedBetween ((log ++ [write]).map Write.effect) count
        (log ++ [write]).length id →
      (store.committed write).dirtyIds.contains id = true := by
  intro id changed
  rw [List.map_append, List.map_singleton] at changed
  apply contains_changedIds.mpr
  rcases changed.split log.length with earlier | last
  · exact .inl (dirty id (earlier.of_append (by rw [List.length_map])))
  · rw [← List.length_map] at last
    exact .inr ⟨write, List.mem_singleton_self _, Write.effect_ne_none.mp last.of_last⟩

/-! ## Collections and their directories -/

section Held

variable {arith : FloatArithmetic} {backend : IndexBackend} {config : CollectionConfig}
  {disk other : Directory} {store : PersistentCollection backend}
  {log : List Write} {chain : List (DecodedSegment backend)} {count start taken : Nat}
  {prepared : PreparedFlush backend} {items : SegmentItems} {bytes : Bytes}
  {decoded : DecodedSegment backend}

/-- The points of an open collection are the history that its directory stores. -/
structure Held (arith : FloatArithmetic) (backend : IndexBackend) (config : CollectionConfig)
    (disk : Directory) (store : PersistentCollection backend) (log : List Write)
    (chain : List (DecodedSegment backend)) (count start : Nat) : Prop where
  onDisk : OnDisk backend config disk log chain count start
  recorded : Recorded config 1 log
  replays : ∀ write ∈ log, replayWrite arith config write = .ok write
  inner : store.inner = history config log log.length

namespace Held

section

variable (held : Held arith backend config disk store log chain count start)

include held

theorem bounded : log.length < 2 ^ 64 :=
  bounded_of_recorded held.recorded

theorem latest : store.latestSequence = UInt64.ofNat log.length := by
  show store.inner.sequence = _
  rw [held.inner]
  exact history_sequence config le_rfl held.bounded

theorem latest_toNat : store.inner.sequence.toNat = log.length := by
  rw [held.inner]
  exact history_toNat config le_rfl held.bounded

theorem sameConfig : store.inner.config = config := by
  rw [held.inner, history_config]

theorem readManifest_eq : readManifest.run disk = (disk, .ok (baseManifest chain count)) :=
  held.onDisk.base.run_readManifest held.bounded

theorem opens (durability : Durability) (positive : config.dimension ≠ 0)
    (readable : Readable arith config count (1 + start) (log.drop start)) :
    ∃ reopened, (openCollection arith backend config durability).run disk =
        (disk, .ok reopened) ∧ reopened.inner = store.inner ∧
      reopened.indexes = chainIndexes backend chain ∧
      reopened.dirtyIds = changedIds ∅ (log.drop count) :=
  ⟨_, held.onDisk.opens positive held.recorded held.replays readable, held.inner.symm, rfl, rfl⟩

theorem log_next (write : Write) :
    walBytes (1 + start) (log.drop start) ++ walBytes (store.inner.sequence.toNat + 1) [write] =
      walBytes (1 + start) ((log ++ [write]).drop start) := by
  have within := held.onDisk.base.within
  have overlap := held.onDisk.overlap
  rw [List.drop_append_of_le_length (by omega), walBytes_append, List.length_drop,
    held.latest_toNat, show 1 + start + (log.length - start) = log.length + 1 by omega]

/-- A batch whose frame was appended belongs to the history. -/
theorem append {write : Write}
    (appended : Appended arith store.inner.config (store.inner.sequence.toNat + 1) [write])
    (replays : replayWrite arith config write = .ok write) :
    Held arith backend config
      (disk.write walName (walBytes (1 + start) ((log ++ [write]).drop start)))
      (store.committed write) (log ++ [write]) chain count start := by
  rw [held.sameConfig, held.latest_toNat, Nat.add_comm] at appended
  exact {
    onDisk := held.onDisk.log_append write
    recorded := held.recorded.append appended.recorded
    replays := List.forall_mem_append.mpr ⟨held.replays, List.forall_mem_singleton.mpr replays⟩
    inner := by
      rw [← commit_history, ← held.inner]
      rfl }

end

theorem mem_arrange (order : IterationOrder) {ids : IdSet} {id : String} :
    id ∈ order.arrange ids ↔ ids.contains id = true := by
  rw [(order.perm ids).mem_iff, Std.ExtTreeSet.mem_toList, Std.ExtTreeSet.contains_iff_mem]

section

variable (held : Held arith backend config disk store log chain count start)

include held

/-- A snapshot holds the history, or what changed since the segments when the dirty ids
cover that. -/
theorem snapshot (order : IterationOrder)
    (covers : (store.flushSnapshot order).compact = false → chain ≠ [] ∧
      ∀ id, Overwrite.ChangedBetween (log.map Write.effect) count log.length id →
        store.dirtyIds.contains id = true) :
    Taken config log chain count log.length (store.flushSnapshot order) := by
  have points : store.inner.snapshotStoredPoints = (history config log log.length).points.values := by
    rw [held.inner]
    rfl
  unfold PersistentCollection.flushSnapshot at covers ⊢
  cases compact : store.indexes.isEmpty || decide (maxIndexSegments ≤ store.indexes.length) with
  | true =>
    refine ⟨held.sameConfig, ⟨le_rfl, held.latest, .inl ⟨rfl, points, ?_⟩⟩, ?_, ?_⟩
    · simp [FlushSnapshot.items]
    · simp [FlushSnapshot.items]
    · exact fun isDelta => absurd isDelta (by simp)
  | false =>
    obtain ⟨based, dirty⟩ := covers compact
    refine ⟨held.sameConfig, ⟨le_rfl, held.latest, .inr ⟨rfl, ?_⟩⟩, ?_, fun _ => based⟩
    · refine ⟨store.dirtyIds.contains, dirty, ?_, fun id => ?_⟩
      · simp [FlushSnapshot.items, points]
      · simp [FlushSnapshot.items, mem_arrange, held.inner]
    · simp [FlushSnapshot.items]

/-- A flush is stale exactly when segments beyond its position were published. -/
theorem stale_iff
    (sequenced : prepared.sequence = UInt64.ofNat taken) (within : taken ≤ log.length) :
    Stale prepared (baseManifest chain count) ↔ taken < count := by
  have bounded := held.bounded
  have reach := held.onDisk.base.within
  have numbers : prepared.sequence < UInt64.ofNat count ↔ taken < count := by
    rw [sequenced, UInt64.lt_iff_toNat_lt, toNat_ofNat_of_lt (by omega),
      toNat_ofNat_of_lt (by omega)]
  unfold Stale
  cases base : held.onDisk.base with
  | empty missing => simp [baseManifest]
  | chain chained few manifest => simp [baseManifest, chained.ne_nil, chainManifest, manifestOf, numbers]

/-- Swapping in the persisted copies changes no point. -/
theorem replace_eq {holding : Directory}
    (ready : Ready backend config holding log chain count taken prepared items bytes)
    (sameItems : decoded.items = items) :
    store.inner.replacePersistedPoints decoded.points = store.inner := by
  apply Collection.replacePersistedPoints_of_faithful
  intro point member current found sameSequence
  have samePoints : decoded.points = items.points := congrArg SegmentItems.points sameItems
  rw [samePoints] at member
  have sameId : current.id = point.id := PointMap.id_of_get found
  rw [held.inner, ← sameId] at found
  exact historicalPoint_unique held.recorded (PointMap.mem_values.mpr found)
    (ready.snapped.historical point member) sameId sameSequence

/-- The segment of a flush replaces none, or one with the same bytes, when a chain that
reaches its position is a single segment and the flush compacts. -/
theorem safe {order : IterationOrder}
    (pending : Taken config log chain count log.length (store.flushSnapshot order))
    (reached : count = log.length →
      (store.flushSnapshot order).compact = true ∧ chain.length ≤ 1)
    (built : Built backend config (store.flushSnapshot order).items bytes) :
    ∀ decoded ∈ chain, decoded.sequence = UInt64.ofNat log.length →
      disk (segmentName (UInt64.ofNat log.length)) = some bytes := by
  intro decoded member same
  have bounded := held.bounded
  cases held.onDisk.base with
  | empty missing => cases member
  | chain chained few manifest =>
    have bound := chained.sequence_le bounded decoded member
    rw [same, toNat_ofNat_of_lt bounded] at bound
    have atEnd : count = log.length := le_antisymm chained.within bound
    obtain ⟨compact, short⟩ := reached atEnd
    cases chained with
    | @full first count within stored holds =>
      subst atEnd
      obtain ⟨old, file, -, oldBuilt⟩ := stored.file
      have sameItems : first.items = (store.flushSnapshot order).items :=
        items_of_holdsAll holds (pending.snapped.holdsAll compact)
          (stored.sequenced.trans pending.snapped.sequenced.symm)
      rw [sameItems] at oldBuilt
      rw [file, oldBuilt.unique built]
    | delta below later within stored holds =>
      have nonempty := List.length_pos_of_ne_nil below.ne_nil
      rw [List.length_append, List.length_singleton] at short
      omega

end

end Held

end Held

end FocalVector.Persistence
