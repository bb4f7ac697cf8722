import FocalVector.Persistence.Acknowledge
import FocalVector.Persistence.Publication
import FocalVector.Persistence.Search

/-!
Contract: opening whatever directory the engine left.

The segments of a directory were built from live points, but which of them the
manifest lists, and whether they belong together, is not assumed here: two flushes
may have used one name, or a delta may stand where a full segment was. When such a
directory opens at all, its points have the collection's dimension, none is newer
than the collection, and the metadata index covers what the log did not change.

Owns: `Sound` collections, `Composed` segment files, and what an opening that
succeeds returns.

Does not own: when an opening succeeds.
-/

namespace FocalVector.Persistence

open FocalVector.Foundation FocalVector.Engine LittleEndian

/-! ## Points of a collection -/

/-- A point of the collection's dimension that is not newer than a sequence. -/
structure StoredAt (config : CollectionConfig) (sequence : UInt64) (point : StoredPoint) :
    Prop where
  sized : point.vector.length = config.dimension
  older : point.sequence ≤ sequence

/-- No point of the collection is newer than the collection. -/
def Sound (collection : Collection) : Prop :=
  ∀ id point, collection.points.get id = some point →
    StoredAt collection.config collection.sequence point

section Points

variable {config : CollectionConfig} {collection : Collection} {sequence : UInt64}

theorem StoredAt.later {point : StoredPoint} {next : UInt64}
    (stored : StoredAt config sequence point) (later : sequence ≤ next) :
    StoredAt config next point :=
  ⟨stored.sized, UInt64.le_trans stored.older later⟩

theorem sound_blank (config : CollectionConfig) : Sound (blank config) := by
  intro id point found
  rw [blank, PointMap.get_empty] at found
  cases found

theorem Sound.applyWrite (sound : Sound collection) (write : Write)
    (later : collection.sequence ≤ sequence)
    (stored : ∀ points, write = .upsert points → ∀ point ∈ points,
      StoredAt collection.config sequence point) :
    Sound (collection.applyWrite write sequence) := by
  intro id point found
  rw [Collection.applyWrite_config, Collection.applyWrite_sequence]
  rcases Collection.get_of_applyWrite found with ⟨points, isUpsert, member⟩ | ⟨-, before⟩
  · exact stored points isUpsert point member
  · exact (sound id point before).later later

theorem Sound.committed {arith : FloatArithmetic} {backend : IndexBackend}
    {store : PersistentCollection backend} (sound : Sound store.inner) {write : Write}
    (appended : Appended arith store.inner.config (store.inner.sequence.toNat + 1) [write]) :
    Sound (store.committed write).inner := by
  obtain ⟨later, fields⟩ := appended.newer
  have isNext : (store.committed write).inner.sequence = store.inner.sequence + 1 :=
    Collection.applyWrite_sequence write
  rw [isNext] at later fields
  refine sound.applyWrite write (UInt64.le_of_lt later) fun points isUpsert point member => ?_
  obtain ⟨dimension, sequenced⟩ := fields points isUpsert point member
  exact ⟨dimension, sequenced ▸ UInt64.le_refl _⟩

theorem not_mem_changedIds {dirtyIds : IdSet} {write : Write} {id : String}
    (clean : id ∉ changedIds dirtyIds [write]) : id ∉ dirtyIds ∧ id ∉ write.ids := by
  simpa [changedIds, not_or, and_comm] using clean

end Points

section Opening

variable {arith : FloatArithmetic} {backend : IndexBackend} {config : CollectionConfig}
  {disk next : Directory}

/-! ## Replaying the log -/

structure Replayed (base : Collection) (state : Collection × IdSet) : Prop where
  config : state.1.config = base.config
  sound : Sound state.1
  agrees : ∀ id, id ∉ state.2 → base.points.get id = state.1.points.get id

theorem Replayed.step {base : Collection} {state next : Collection × IdSet} {payload : Bytes}
    (replayed : Replayed base state) (steps : recoverStep arith state payload = .ok next) :
    Replayed base next := by
  unfold recoverStep at steps
  cases applies : applyPayload arith state.1 payload with
  | error error => simp [applies, Bind.bind, Except.bind] at steps
  | ok outcome =>
    obtain ⟨collection, changed⟩ := outcome
    rw [applies] at steps
    cases steps
    have unchanged : ∀ id, id ∉ state.2.insertMany changed → id ∉ state.2 ∧ id ∉ changed := by
      intro id outside
      simpa [not_or, and_comm] using outside
    rcases applyPayload_eq_ok applies with rfl | ⟨sequence, write, granted, rfl, named, sized⟩
    · exact ⟨replayed.config, replayed.sound, fun id outside =>
        replayed.agrees id (unchanged id outside).1⟩
    · have later : state.1.sequence ≤ sequence := by
        have advanced := Collection.nextSequence_eq_ok granted
        rw [UInt64.le_iff_toNat_le]
        omega
      have stored : ∀ points, write = .upsert points → ∀ point ∈ points,
          StoredAt state.1.config sequence point := by
        intro points isUpsert point member
        obtain ⟨dimension, sequenced⟩ := sized points isUpsert point member
        exact ⟨dimension, sequenced ▸ UInt64.le_refl _⟩
      refine ⟨(Collection.applyWrite_config _).trans replayed.config,
        replayed.sound.applyWrite write later stored, fun id outside => ?_⟩
      obtain ⟨clean, notChanged⟩ := unchanged id outside
      rw [Collection.get_applyWrite_of_not_mem fun member => notChanged (named id member)]
      exact replayed.agrees id clean

theorem replayed_of_recoverFile {base : Collection} (sound : Sound base)
    {state : Collection × IdSet}
    (runs : (recoverFile arith base ∅).run disk = (next, .ok state)) : Replayed base state := by
  obtain ⟨_, wal, -, runs⟩ := Program.of_run_bind_ok runs
  obtain ⟨_, outcome, recovers, runs⟩ := Program.of_run_bind_ok runs
  obtain ⟨recovered, validLength⟩ := outcome
  have start : Replayed base (base, ∅) := ⟨rfl, sound, fun _ _ => rfl⟩
  have whole : Replayed base recovered := by
    rw [Program.run_ofExcept, Prod.mk.injEq] at recovers
    exact FrameFormat.recover_induction (fun _ _ _ replayed => replayed.step) start recovers.2
  have same : recovered = state := by
    simp only at runs
    split at runs
    · obtain ⟨_, _, -, finishes⟩ := Program.of_run_bind_ok runs
      exact Except.ok.inj (Prod.mk.inj finishes).2
    · exact Except.ok.inj (Prod.mk.inj runs).2
  exact same ▸ whole

/-! ## Loading the segments -/

/-- A segment file of points that are not newer than the segment. -/
def Composed (backend : IndexBackend) (config : CollectionConfig) (bytes : Bytes) : Prop :=
  ∃ items, Built backend config items bytes ∧
    ∀ point ∈ items.points, StoredAt config items.sequence point

theorem Composed.decoded {bytes : Bytes} {decoded : DecodedSegment backend}
    (composed : Composed backend config bytes)
    (decodes : decodeSegment backend bytes = .ok decoded) :
    ∀ point ∈ decoded.points, StoredAt config decoded.sequence point := by
  obtain ⟨items, built, stored⟩ := composed
  obtain ⟨-, rfl, -⟩ := built.decoded (fun point member => (stored point member).sized) decodes
  exact stored

structure Loaded (config : CollectionConfig) (state : Loading backend) : Prop where
  config : state.collection.config = config
  sound : Sound state.collection
  sequenced : state.collection.sequence = state.previousSequence

variable {collection : Collection}

theorem sound_of_applySegment {after : Collection} {decoded : DecodedSegment backend}
    (sameConfig : collection.config = config) (sound : Sound collection)
    (stored : ∀ point ∈ decoded.points, StoredAt config decoded.sequence point)
    (later : decoded.full = false → collection.sequence ≤ decoded.sequence)
    (applies : applySegment collection decoded = .ok after) :
    after.config = config ∧ after.sequence = decoded.sequence ∧ Sound after := by
  subst sameConfig
  unfold applySegment at applies
  split at applies
  next isFull =>
    obtain rfl := Collection.restoreStoredSnapshot_eq_ok applies
    refine ⟨rfl, rfl, fun id point found => ?_⟩
    rcases PointMap.mem_of_get_insertAll found with member | empty
    · exact stored point member
    · rw [PointMap.get_empty] at empty
      cases empty
  next isDelta =>
    have notOlder := later (by simpa using isDelta)
    cases applies
    have upserted : ∀ upserted, upserted = (if decoded.points.isEmpty then collection
          else collection.applyPreparedUpsert decoded.points decoded.sequence) →
        upserted.config = collection.config ∧ upserted.sequence ≤ decoded.sequence ∧
          Sound upserted := by
      rintro _ rfl
      split
      · exact ⟨rfl, notOlder, sound⟩
      · refine ⟨rfl, UInt64.le_refl _, sound.applyWrite (.upsert decoded.points) notOlder ?_⟩
        rintro _ ⟨rfl⟩
        exact stored
    obtain ⟨sameConfig, below, soundBelow⟩ := upserted _ rfl
    exact ⟨sameConfig, rfl, soundBelow.applyWrite (.delete decoded.tombstones) below nofun⟩

variable {manifest : Manifest} {position : Nat} {state : Loading backend}

theorem Loaded.step {bytes : Bytes}
    {after : Loading backend} (loaded : Loaded config state)
    (composed : Composed backend config bytes)
    (steps : loadSegment backend manifest position bytes state = .ok after) :
    Loaded config after := by
  unfold loadSegment at steps
  split at steps
  · cases steps
  cases decodes : decodeSegment backend bytes with
  | error error => simp [decodes, Bind.bind, Except.bind] at steps
  | ok decoded =>
    simp only [decodes, Bind.bind, Except.bind] at steps
    split at steps
    · cases steps
    split at steps
    · cases steps
    split at steps
    · cases steps
    split at steps
    · cases steps
    rename_i sameConfig first ordered _
    cases applies : applySegment state.collection decoded with
    | error error => simp [applies] at steps
    | ok collection =>
      simp only [applies] at steps
      cases steps
      have isLater : decoded.full = false → state.collection.sequence ≤ decoded.sequence := by
        intro isDelta
        have positive : 0 < position := Nat.pos_of_ne_zero fun isFirst => first ⟨isFirst, isDelta⟩
        have above := fun stale => ordered ⟨positive, .inr stale⟩
        rw [loaded.sequenced]
        exact UInt64.le_of_lt (UInt64.not_le.mp above)
      obtain ⟨sameConfig, sequenced, sound⟩ := sound_of_applySegment loaded.config loaded.sound
        (composed.decoded decodes) isLater applies
      exact ⟨sameConfig, sound, sequenced⟩

theorem readFile_eq_ok {name : String} {bytes : Bytes}
    (runs : (readFile name).run disk = (next, .ok bytes)) : next = disk ∧ disk name = some bytes := by
  cases found : disk name with
  | none =>
    rw [run_readFile_missing found] at runs
    cases runs
  | some content =>
    rw [run_readFile found] at runs
    cases runs
    exact ⟨rfl, rfl⟩

def SegmentsComposed (backend : IndexBackend) (config : CollectionConfig) (disk : Directory) :
    Prop :=
  ∀ file bytes, leading file = ['s', 'e'] → disk file = some bytes → Composed backend config bytes

theorem Loaded.segments {names : List String}
    {after : Loading backend} (composed : SegmentsComposed backend config disk)
    (named : ∀ name ∈ names, leading name = ['s', 'e']) (loaded : Loaded config state)
    (runs : (loadSegments backend manifest position names state).run disk = (next, .ok after)) :
    Loaded config after := by
  induction names generalizing position state with
  | nil =>
    cases runs
    exact loaded
  | cons name names ih =>
    obtain ⟨_, bytes, reading, decoding⟩ := Program.of_run_bind_ok runs
    obtain ⟨rfl, found⟩ := readFile_eq_ok reading
    obtain ⟨_, middle, loading, continuing⟩ := Program.of_run_bind_ok decoding
    rw [Program.run_ofExcept, Prod.mk.injEq] at loading
    obtain ⟨rfl, loads⟩ := loading
    refine ih (fun other member => named other (List.mem_cons_of_mem _ member))
      (loaded.step ?_ loads) continuing
    exact composed name bytes (named name List.mem_cons_self) found

theorem loadCurrentSegments_eq_ok
    {indexes : List (IndexSegment backend)} {metadataIndex : Option backend.MetadataIndex}
    (composed : SegmentsComposed backend config disk)
    (runs : (loadCurrentSegments backend (blank config)).run disk =
      (next, .ok (collection, indexes, metadataIndex))) :
    collection.config = config ∧ Sound collection ∧
      ∀ index, metadataIndex = some index → index = backend.buildMetadata collection.points.values := by
  obtain ⟨read, previous, reading, loading⟩ := Program.of_run_bind_ok runs
  have kept : read = disk := (congrArg Prod.fst reading).symm.trans readManifest_keeps
  subst kept
  cases previous with
  | none =>
    cases loading
    exact ⟨rfl, sound_blank config, nofun⟩
  | some manifest =>
    obtain ⟨_, loaded, segments, finishes⟩ := Program.of_run_bind_ok loading
    have named := namesSegments_of_read (congrArg Prod.snd reading) manifest rfl
    have start : Loaded config (⟨blank config, [], 0⟩ : Loading backend) :=
      ⟨rfl, sound_blank config, rfl⟩
    have whole := start.segments composed named segments
    cases finishes
    exact ⟨whole.config, whole.sound, fun index found => (Option.some.inj found).symm⟩

/-! ## Opening -/

variable {durability : Durability}

theorem openCollection_eq_ok {store : PersistentCollection backend}
    (composed : SegmentsComposed backend config disk)
    (runs : (openCollection arith backend config durability).run disk = (next, .ok store)) :
    store.inner.config = config ∧ Sound store.inner ∧ store.IndexCurrent := by
  obtain ⟨first, _, checking, runs⟩ := Program.of_run_bind_ok runs
  obtain ⟨second, _, touching, runs⟩ := Program.of_run_bind_ok runs
  obtain ⟨third, inner, creating, runs⟩ := Program.of_run_bind_ok runs
  obtain ⟨fourth, ⟨collection, indexes, metadataIndex⟩, loading, runs⟩ :=
    Program.of_run_bind_ok runs
  obtain ⟨fifth, ⟨recovered, dirtyIds⟩, replaying, finishes⟩ := Program.of_run_bind_ok runs
  rw [Program.run_ofExcept, Prod.mk.injEq] at creating
  obtain ⟨rfl, creates⟩ := creating
  have isBlank : inner = blank config := by
    unfold Collection.new at creates
    split at creates
    · cases creates
    · exact (Except.ok.inj creates).symm
  subst isBlank
  have untouched : SegmentsComposed backend config second := by
    intro file bytes isSegment found
    have kept : second file = disk file :=
      ((avoids_io (by simpa [FileOp.targets] using ne_of_leading (by simp [isSegment]))).of_run
        touching).trans ((ensureMetadata_avoids (ne_of_leading (by simp [isSegment]))
          (ne_of_leading (by simp [isSegment]))).of_run checking)
    exact composed file bytes isSegment (kept ▸ found)
  obtain ⟨sameConfig, sound, indexed⟩ := loadCurrentSegments_eq_ok untouched loading
  have replayed := replayed_of_recoverFile sound replaying
  cases finishes
  exact ⟨replayed.config.trans sameConfig, replayed.sound, fun index found =>
    ⟨collection.points, indexed index found, replayed.agrees⟩⟩

variable {file : String}

theorem loadSegments_avoids {names : List String} :
    (loadSegments backend manifest position names state).Avoids file := by
  induction names generalizing position state with
  | nil => exact .pure _
  | cons name names ih =>
    exact Program.Avoids.bind (avoids_io (by simp [FileOp.targets])) fun _ =>
      (Program.Avoids.ofExcept _).bind fun after => ih

theorem loadCurrentSegments_avoids (file : String) :
    (loadCurrentSegments backend collection).Avoids file := by
  refine Program.Avoids.bind readManifest_avoids fun previous => ?_
  cases previous with
  | none => exact .pure _
  | some manifest => exact loadSegments_avoids.bind fun _ => .pure _

/-- `PersistentCollection::open` once the metadata was checked. -/
def openStored (arith : FloatArithmetic) (backend : IndexBackend) (config : CollectionConfig)
    (durability : Durability) : Fs (PersistentCollection backend) := do
  openOrCreate walName
  let inner ← Program.ofExcept (Collection.new config)
  let (inner, indexes, metadataIndex) ← loadCurrentSegments backend inner
  let (inner, dirtyIds) ← recoverFile arith inner ∅
  return { inner, durability, indexes, metadataIndex, dirtyIds }

theorem openCollection_eq : openCollection arith backend config durability =
    ensureMetadata config >>= fun _ => openStored arith backend config durability := rfl

theorem recoverFile_avoids {dirtyIds : IdSet}
    (notLog : file ≠ walName) : (recoverFile arith collection dirtyIds).Avoids file := by
  refine Program.Avoids.bind (avoids_io (by simp [FileOp.targets])) fun wal =>
    (Program.Avoids.ofExcept _).bind fun ⟨state, validLength⟩ => ?_
  by_cases torn : validLength < wal.length
  · simp only [if_pos torn]
    exact Program.Avoids.bind (avoids_io (by simpa [FileOp.targets] using notLog)) fun _ => .pure _
  · simp only [if_neg torn]
    exact .pure _

/-- Behind the metadata only the log is touched. -/
theorem openStored_avoids (notLog : file ≠ walName) :
    (openStored arith backend config durability).Avoids file :=
  Program.Avoids.bind (avoids_io (by simpa [FileOp.targets] using notLog)) fun _ =>
    (Program.Avoids.ofExcept _).bind fun _ => Program.Avoids.bind (loadCurrentSegments_avoids file)
      fun _ => Program.Avoids.bind (recoverFile_avoids notLog) fun _ => .pure _

theorem openCollection_avoids
    (notMetadata : leading file ≠ leading metaName) (notLog : file ≠ walName) :
    (openCollection arith backend config durability).Avoids file :=
  Program.Avoids.bind (ensureMetadata_avoids (ne_of_leading notMetadata)
    (ne_of_leading (by simpa using notMetadata))) fun _ => openStored_avoids notLog

variable (arith backend config) in
theorem openCollection_keeps_log (durability : Durability) :
    (openCollection arith backend config durability).Keeps
      fun disk => ∃ wal, disk walName = some wal := by
  let Logged := fun content : Option Bytes => ∃ wal, content = some wal
  have touching : (openOrCreate walName).Keeps fun disk => Logged (disk walName) := by
    rintro disk ⟨wal, found⟩
    rw [run_openOrCreate found]
    exact ⟨wal, found⟩
  have cutting : ∀ length, (setFileLength walName length).Keeps
      fun disk => Logged (disk walName) := by
    rintro length disk ⟨wal, found⟩
    rw [setFileLength, io, Program.run_demand]
    simp [FileOp.after, found, Logged]
  have metadata : (ensureMetadata config).Avoids walName :=
    ensureMetadata_avoids (ne_of_leading (by simp)) (ne_of_leading (by simp))
  refine (metadata.keeps Logged).bind fun _ => touching.bind fun _ =>
    ((Program.Avoids.ofExcept _).keeps Logged).bind fun inner =>
      ((loadCurrentSegments_avoids walName).keeps Logged).bind fun loaded =>
        Program.Keeps.bind ?_ fun replayed => .pure _ _
  refine Program.Keeps.bind ((avoids_io (by simp [FileOp.targets])).keeps Logged) fun wal =>
    ((Program.Avoids.ofExcept _).keeps Logged).bind fun recovered => ?_
  by_cases torn : recovered.2 < wal.length
  · simp only [if_pos torn]
    exact (cutting _).bind fun _ => .pure _ _
  · simp only [if_neg torn]
    exact .pure _ _

end Opening

/-! ## Configurations are kept -/

section Configuration

variable {arith : FloatArithmetic} {backend : IndexBackend} {config : CollectionConfig}
  {disk next : Directory}

theorem config_of_perform {store after : PersistentCollection backend} {request : Request}
    {sequence : UInt64}
    (performs : (store.perform arith request).run disk = (next, .ok (after, sequence))) :
    after.inner.config = store.inner.config := by
  obtain ⟨write, -, -, rfl⟩ := perform_eq_ok performs
  exact Collection.applyWrite_config write

theorem config_of_applySegment {collection after : Collection} {decoded : DecodedSegment backend}
    (applies : applySegment collection decoded = .ok after) : after.config = collection.config := by
  unfold applySegment at applies
  split at applies
  · obtain rfl := Collection.restoreStoredSnapshot_eq_ok applies
    rfl
  · cases applies
    simp only [Collection.applyDeleteAt]
    split <;> rfl

theorem config_of_loadSegment {manifest : Manifest} {position : Nat} {bytes : Bytes}
    {state after : Loading backend}
    (loads : loadSegment backend manifest position bytes state = .ok after) :
    after.collection.config = state.collection.config := by
  unfold loadSegment at loads
  split at loads
  · cases loads
  obtain ⟨decoded, -, loads⟩ := Result.of_bind_ok loads
  split at loads
  · cases loads
  split at loads
  · cases loads
  split at loads
  · cases loads
  split at loads
  · cases loads
  obtain ⟨collection, applies, returns⟩ := Result.of_bind_ok loads
  cases returns
  exact config_of_applySegment applies

theorem config_of_loadSegments {manifest : Manifest} {names : List String} {position : Nat}
    {state after : Loading backend}
    (runs : (loadSegments backend manifest position names state).run disk = (next, .ok after)) :
    after.collection.config = state.collection.config := by
  induction names generalizing position state disk with
  | nil =>
    cases runs
    rfl
  | cons name names ih =>
    obtain ⟨_, bytes, -, decoding⟩ := Program.of_run_bind_ok runs
    obtain ⟨_, middle, loading, continuing⟩ := Program.of_run_bind_ok decoding
    obtain ⟨-, loads⟩ := Program.of_run_ofExcept loading
    exact (ih continuing).trans (config_of_loadSegment loads)

theorem config_of_recoverFile {base : Collection} {dirtyIds : IdSet} {state : Collection × IdSet}
    (runs : (recoverFile arith base dirtyIds).run disk = (next, .ok state)) :
    state.1.config = base.config := by
  obtain ⟨_, wal, -, runs⟩ := Program.of_run_bind_ok runs
  obtain ⟨_, ⟨recovered, validLength⟩, recovers, runs⟩ := Program.of_run_bind_ok runs
  obtain ⟨-, recovers⟩ := Program.of_run_ofExcept recovers
  have kept : recovered.1.config = base.config := by
    refine FrameFormat.recover_induction (motive := fun current => current.1.config = base.config)
      (fun current payload following same steps => ?_) rfl recovers
    unfold recoverStep at steps
    obtain ⟨⟨collection, changed⟩, applies, returns⟩ := Result.of_bind_ok steps
    cases returns
    rcases applyPayload_eq_ok applies with rfl | ⟨sequence, write, -, rfl, -⟩
    · exact same
    · exact (Collection.applyWrite_config write).trans same
  simp only at runs
  split at runs
  · obtain ⟨_, _, -, finishes⟩ := Program.of_run_bind_ok runs
    cases finishes
    exact kept
  · cases runs
    exact kept

theorem config_of_openCollection {durability : Durability} {store : PersistentCollection backend}
    (runs : (openCollection arith backend config durability).run disk = (next, .ok store)) :
    store.inner.config = config := by
  obtain ⟨_, _, -, runs⟩ := Program.of_run_bind_ok runs
  obtain ⟨_, _, -, runs⟩ := Program.of_run_bind_ok runs
  obtain ⟨_, inner, creating, runs⟩ := Program.of_run_bind_ok runs
  obtain ⟨_, ⟨collection, indexes, metadataIndex⟩, loading, runs⟩ := Program.of_run_bind_ok runs
  obtain ⟨_, ⟨recovered, dirtyIds⟩, replaying, finishes⟩ := Program.of_run_bind_ok runs
  obtain ⟨-, creates⟩ := Program.of_run_ofExcept creating
  have isNew : inner.config = config := by
    unfold Collection.new at creates
    split at creates
    · cases creates
    · cases creates
      rfl
  have loaded : collection.config = inner.config := by
    obtain ⟨_, previous, -, loading⟩ := Program.of_run_bind_ok loading
    cases previous with
    | none =>
      cases loading
      rfl
    | some manifest =>
      obtain ⟨_, segments, loads, returns⟩ := Program.of_run_bind_ok loading
      cases returns
      exact config_of_loadSegments loads
  cases finishes
  exact (config_of_recoverFile replaying).trans (loaded.trans isNew)

end Configuration

end FocalVector.Persistence
