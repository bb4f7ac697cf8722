import FocalVector.Persistence.SoundOpening

/-!
Contract: opening a collection twice.

Opening a collection that opens writes its metadata and its log where they are missing and cuts
what is torn off the log. Opening what it leaves gives the same collection and changes nothing.

Owns: what opening requires of the metadata, and that it is idempotent.

Does not own: what a collection that is written to reopens to.
-/

namespace FocalVector.Persistence

open FocalVector.Foundation FocalVector.Engine

variable {arith : FloatArithmetic} {backend : IndexBackend} {config : CollectionConfig}
  {disk next other : Directory}

/-! ## The metadata -/

def Configured (disk : Directory) (config : CollectionConfig) : Prop :=
  ∃ bytes, disk metaName = some bytes ∧ decodeMetadata bytes = .ok config

/-- Metadata that is there is compared with what is asked for. -/
theorem run_ensureMetadata_found (configured : Configured disk config) (requested : CollectionConfig) :
    (ensureMetadata requested).run disk = (disk, if config ≠ requested then
      .error (.invalidConfig "requested configuration differs from persisted collection")
    else .ok ()) := by
  obtain ⟨bytes, found, decodes⟩ := configured
  have present : (fileExists metaName).run disk = (disk, .ok true) := by
    rw [run_fileExists, found]
    rfl
  unfold ensureMetadata
  rw [Program.run_bind_ok present, if_pos rfl, Program.run_bind_ok (run_readFile found), decodes]
  change (if config ≠ requested then _ else pure () : Fs Unit).run disk = _
  split <;> rfl

theorem run_ensureMetadata_configured (configured : Configured disk config) :
    (ensureMetadata config).run disk = (disk, .ok ()) := by
  rw [run_ensureMetadata_found configured, if_neg (not_not.mpr rfl)]

theorem ensureMetadata_eq_ok (runs : (ensureMetadata config).run disk = (next, .ok ())) :
    (Configured disk config ∧ next = disk) ∨
      (disk metaName = none ∧ disk metaTemporaryName = none ∧
        next metaName = some (encodeMetadata config)) := by
  cases found : disk metaName with
  | some bytes =>
    have present : (fileExists metaName).run disk = (disk, .ok true) := by
      rw [run_fileExists, found]
      rfl
    unfold ensureMetadata at runs
    rw [Program.run_bind_ok present, if_pos rfl, Program.run_bind_ok (run_readFile found)] at runs
    obtain ⟨_, actual, decoding, comparing⟩ := Program.of_run_bind_ok runs
    obtain ⟨rfl, decodes⟩ := Program.of_run_ofExcept decoding
    split at comparing
    · cases comparing
    next same =>
      cases comparing
      exact .inl ⟨⟨bytes, found, by rw [decodes, not_not.mp same]⟩, rfl⟩
  | none =>
    cases used : disk metaTemporaryName with
    | none =>
      rw [run_ensureMetadata_new config found used, Prod.mk.injEq] at runs
      rw [← runs.1]
      exact .inr ⟨rfl, rfl, Disk.write_same _ _ _⟩
    | some left =>
      rw [run_ensureMetadata_blocked config found used] at runs
      cases runs

/-! ## The segments -/

theorem result_readManifest (same : disk manifestName = other manifestName) :
    (readManifest.run disk).2 = (readManifest.run other).2 := by
  cases found : disk manifestName with
  | none => rw [run_readManifest_missing found, run_readManifest_missing (same ▸ found)]
  | some bytes => rw [run_readManifest found, run_readManifest (same ▸ found)]

theorem result_loadSegments {manifest : Manifest} {position : Nat} {names : List String}
    {state : Loading backend} (same : ∀ name ∈ names, disk name = other name) :
    ((loadSegments backend manifest position names state).run disk).2 =
      ((loadSegments backend manifest position names state).run other).2 := by
  induction names generalizing position state with
  | nil => rfl
  | cons name names ih =>
    obtain ⟨first, later⟩ := List.forall_mem_cons.mp same
    unfold loadSegments
    cases found : disk name with
    | none =>
      rw [Program.run_bind_error (run_readFile_missing found),
        Program.run_bind_error (run_readFile_missing (first ▸ found))]
    | some bytes =>
      rw [Program.run_bind_ok (run_readFile found),
        Program.run_bind_ok (run_readFile (first ▸ found))]
      cases loadSegment backend manifest position bytes state with
      | error error => rfl
      | ok following => exact ih later

theorem loadCurrentSegments_keeps {collection : Collection} :
    ((loadCurrentSegments backend collection).run disk).1 = disk :=
  Program.crash_of_avoids_all (fun _ => loadCurrentSegments_avoids _) Program.final_mem_crashStates

/-- The log has no part in what the segments hold. -/
theorem result_loadCurrentSegments {collection : Collection}
    (same : ∀ file, file ≠ walName → disk file = other file) :
    ((loadCurrentSegments backend collection).run disk).2 =
      ((loadCurrentSegments backend collection).run other).2 := by
  have manifests := @result_readManifest disk other (same _ (by decide))
  unfold loadCurrentSegments
  cases reading : (readManifest.run disk).2 with
  | error error =>
    rw [Program.run_bind_error (Prod.ext readManifest_keeps reading),
      Program.run_bind_error (Prod.ext readManifest_keeps (manifests ▸ reading))]
  | ok previous =>
    rw [Program.run_bind_ok (Prod.ext readManifest_keeps reading),
      Program.run_bind_ok (Prod.ext readManifest_keeps (manifests ▸ reading))]
    cases previous with
    | none => rfl
    | some manifest =>
      have named := namesSegments_of_read reading manifest rfl
      have segments := @result_loadSegments backend disk other manifest 0 manifest.segments
        ⟨collection, [], 0⟩ fun name member => same name (ne_of_leading (by simp [named _ member]))
      have keeps : ∀ start : Directory, ((loadSegments backend manifest 0 manifest.segments
          ⟨collection, [], 0⟩).run start).1 = start := fun start =>
        Program.crash_of_avoids_all (fun _ => loadSegments_avoids) Program.final_mem_crashStates
      cases loading : ((loadSegments backend manifest 0 manifest.segments
          ⟨collection, [], 0⟩).run disk).2 with
      | error error =>
        rw [Program.run_bind_error (Prod.ext (keeps _) loading),
          Program.run_bind_error (Prod.ext (keeps _) (segments ▸ loading))]
      | ok loaded =>
        rw [Program.run_bind_ok (Prod.ext (keeps _) loading),
          Program.run_bind_ok (Prod.ext (keeps _) (segments ▸ loading))]
        rfl

/-! ## The log -/

theorem recoverFile_eq_ok {base : Collection} {dirtyIds : IdSet} {state : Collection × IdSet}
    (runs : (recoverFile arith base dirtyIds).run disk = (next, .ok state)) :
    ∃ wal validLength, disk walName = some wal ∧
      recover arith wal base dirtyIds = .ok (state, validLength) ∧
      next = disk.write walName (wal.take validLength) := by
  cases found : disk walName with
  | none =>
    unfold recoverFile at runs
    rw [Program.run_bind_error (run_readFile_missing found)] at runs
    cases runs
  | some wal =>
    cases recovers : recover arith wal base dirtyIds with
    | error error =>
      unfold recoverFile at runs
      rw [Program.run_bind_ok (run_readFile found), recovers] at runs
      cases runs
    | ok result =>
      obtain ⟨final, validLength⟩ := result
      have within : validLength ≤ wal.length := by
        simpa using FrameFormat.recover_le recovers
      rw [run_recoverFile found recovers within, Prod.mk.injEq, Except.ok.injEq] at runs
      obtain ⟨isNext, rfl⟩ := runs
      exact ⟨wal, validLength, rfl, recovers, isNext.symm⟩

theorem recoverFile_again {base : Collection} {dirtyIds : IdSet} {state : Collection × IdSet}
    (runs : (recoverFile arith base dirtyIds).run disk = (next, .ok state)) :
    (recoverFile arith base dirtyIds).run next = (next, .ok state) := by
  obtain ⟨wal, validLength, -, recovers, rfl⟩ := recoverFile_eq_ok runs
  have again : recover arith (wal.take validLength) base dirtyIds = .ok (state, validLength) :=
    (FrameFormat.recover_valid recovers).2
  have within : validLength ≤ wal.length := by
    simpa using FrameFormat.recover_le recovers
  rw [run_recoverFile (Disk.write_same _ _ _) again (by simp [within]), Disk.write_write,
    List.take_take, min_self]

/-! ## Opening -/

variable {durability : Durability} {store : PersistentCollection backend}

theorem openCollection_steps
    (runs : (openCollection arith backend config durability).run disk = (next, .ok store)) :
    ∃ first collection indexes metadataIndex,
      config.dimension ≠ 0 ∧
      (ensureMetadata config).run disk = (first, .ok ()) ∧
      ((loadCurrentSegments backend (blank config)).run
        (first.write walName ((first walName).getD []))).2 =
          .ok (collection, indexes, metadataIndex) ∧
      ∃ inner dirtyIds, store = ⟨inner, durability, indexes, metadataIndex, dirtyIds⟩ ∧
        (recoverFile arith collection ∅).run (first.write walName ((first walName).getD [])) =
          (next, .ok (inner, dirtyIds)) := by
  obtain ⟨first, _, checking, runs⟩ := Program.of_run_bind_ok runs
  obtain ⟨second, _, touching, runs⟩ := Program.of_run_bind_ok runs
  obtain ⟨third, inner, creating, runs⟩ := Program.of_run_bind_ok runs
  obtain ⟨fourth, ⟨collection, indexes, metadataIndex⟩, loading, runs⟩ :=
    Program.of_run_bind_ok runs
  obtain ⟨fifth, ⟨recovered, dirtyIds⟩, replaying, finishes⟩ := Program.of_run_bind_ok runs
  rw [run_openOrCreate_getD, Prod.mk.injEq] at touching
  obtain ⟨rfl, -⟩ := touching
  obtain ⟨rfl, creates⟩ := Program.of_run_ofExcept creating
  have positive : config.dimension ≠ 0 := by
    intro zero
    rw [Collection.new, if_pos zero] at creates
    cases creates
  rw [new_eq_ok positive] at creates
  cases creates
  have kept := congrArg Prod.fst loading
  rw [loadCurrentSegments_keeps] at kept
  cases finishes
  exact ⟨first, collection, indexes, metadataIndex, positive, checking, congrArg Prod.snd loading,
    recovered, dirtyIds, rfl, kept.symm ▸ replaying⟩

/-- The metadata of a directory that opens. -/
theorem configured_of_ensured (positive : config.dimension ≠ 0)
    (runs : (ensureMetadata config).run disk = (next, .ok ())) : Configured next config := by
  rcases ensureMetadata_eq_ok runs with ⟨configured, rfl⟩ | ⟨-, -, found⟩
  · exact configured
  · exact ⟨_, found, decodeMetadata_encodeMetadata positive⟩

theorem configured_of_opened
    (runs : (openCollection arith backend config durability).run disk = (next, .ok store)) :
    Configured next config := by
  obtain ⟨first, collection, indexes, metadataIndex, positive, checking, -⟩ :=
    openCollection_steps runs
  rw [openCollection_eq, Program.run_bind_ok checking] at runs
  obtain ⟨bytes, found, decodes⟩ := configured_of_ensured positive checking
  exact ⟨bytes, ((openStored_avoids (by decide)).of_run runs).trans found, decodes⟩

theorem openCollection_again
    (runs : (openCollection arith backend config durability).run disk = (next, .ok store)) :
    (openCollection arith backend config durability).run next = (next, .ok store) := by
  obtain ⟨first, collection, indexes, metadataIndex, positive, checking, loading, inner, dirtyIds,
    rfl, replaying⟩ := openCollection_steps runs
  obtain ⟨wal, validLength, -, -, isNext⟩ := recoverFile_eq_ok replaying
  have apart : ∀ file, file ≠ walName →
      (first.write walName ((first walName).getD [])) file = next file := by
    intro file differs
    rw [isNext, Disk.write_other _ _ differs, Disk.write_other _ _ differs,
      Disk.write_other _ _ differs]
  have reloads := (result_loadCurrentSegments apart).symm.trans loading
  unfold openCollection
  rw [Program.run_bind_ok (run_ensureMetadata_configured (configured_of_opened runs)),
    Program.run_bind_ok (run_openOrCreate (isNext ▸ Disk.write_same _ _ _)), new_eq_ok positive]
  show (loadCurrentSegments backend (blank config) >>= _).run next = _
  rw [Program.run_bind_ok (Prod.ext loadCurrentSegments_keeps reloads)]
  show (recoverFile arith collection ∅ >>= _).run next = _
  rw [Program.run_bind_ok (recoverFile_again replaying)]
  rfl

/-- Whatever the files of a directory hold, once it has been opened it opens to the same
collection again and stays as it is, and no other configuration can open or change it. -/
theorem opened_directory_is_settled
    (runs : (openCollection arith backend config durability).run disk = (next, .ok store)) :
    (openCollection arith backend config durability).run next = (next, .ok store) ∧
    ∀ requested reopening, requested ≠ config →
      (openCollection arith backend requested reopening).run next =
        (next, .error
          (.invalidConfig "requested configuration differs from persisted collection")) := by
  refine ⟨openCollection_again runs, fun requested reopening differs => ?_⟩
  have refused := run_ensureMetadata_found (configured_of_opened runs) requested
  rw [if_pos differs.symm] at refused
  rw [openCollection_eq, Program.run_bind_error refused]

/-- A directory whose second batch did not reach the disk whole. -/
def tornDirectory : Directory :=
  (newDirectory lineConfig).write walName ((walBytes 1
    [.upsert [⟨"a", [⟨0x3f800000⟩], ∅, 1⟩], .delete ["a"]]).dropLast)

/-- The torn batch is cut off once. The directory then opens to the first batch again, but not with
another dimension. -/
theorem torn_directory_is_settled :
    let opened := (openCollection .normalised .flat lineConfig .sync).run tornDirectory
    ∃ store, opened.2 = .ok store ∧ store.inner.latestSequence = 1 ∧
      opened.1 walName = some (walBytes 1 [.upsert [⟨"a", [⟨0x3f800000⟩], ∅, 1⟩]]) ∧
      (openCollection .normalised .flat lineConfig .sync).run opened.1 = opened ∧
      ∃ error, (openCollection .normalised .flat ⟨2, .dotProduct, by decide⟩ .sync).run opened.1 =
        (opened.1, .error error) := by
  intro opened
  have opens : opened.2.map (·.inner.latestSequence) = .ok 1 := by decide +kernel
  have cut : opened.1 walName = some (walBytes 1 [.upsert [⟨"a", [⟨0x3f800000⟩], ∅, 1⟩]]) := by
    decide +kernel
  have runs : (openCollection .normalised .flat lineConfig .sync).run tornDirectory = opened := rfl
  generalize opened = result at opens cut runs ⊢
  obtain ⟨next, outcome⟩ := result
  cases outcome with
  | error error => cases opens
  | ok store =>
    have settled := opened_directory_is_settled runs
    exact ⟨store, rfl, Except.ok.inj opens, cut, settled.1, _, settled.2 _ .sync (by decide)⟩

end FocalVector.Persistence
