import FocalVector.Persistence.Flush

/-!
Contract: publications in any directory.

A flush is published over whatever other flushes left behind. Nothing is assumed
of the directory but the prepared segment and the log: the manifest may be newer,
may name the segment already, or may not be readable at all.

Owns: what a flush that succeeds did, and what a publication may do to each kind of
file whatever comes of it.

Does not own: what recovery makes of the directory.
-/

namespace FocalVector.Persistence

open FocalVector.Foundation FocalVector.Engine LittleEndian

variable {backend : IndexBackend} {disk : Directory} {store : PersistentCollection backend}
  {prepared : PreparedFlush backend} {previous : Option Manifest} {process : Nat} {bytes : Bytes}

/-! ## Building -/

theorem flushSnapshot_graphed (order : IterationOrder) :
    (store.flushSnapshot order).graphPoints = (store.flushSnapshot order).items.points := by
  unfold PersistentCollection.flushSnapshot FlushSnapshot.items
  simp only
  split <;> rfl

/-- A snapshot has all live points when it compacts, and the dirty ones otherwise. -/
theorem flushSnapshot_points (order : IterationOrder) :
    (store.flushSnapshot order).items.points =
      if (store.flushSnapshot order).compact then store.inner.points.values
      else store.inner.points.values.filter (store.dirtyIds.contains ·.id) := by
  rw [← flushSnapshot_graphed]
  rfl

theorem flushSnapshot_sublist (order : IterationOrder) :
    (store.flushSnapshot order).items.points.Sublist store.inner.points.values := by
  rw [flushSnapshot_points]
  split
  · exact .refl _
  · exact List.filter_sublist

theorem flushSnapshot_members (order : IterationOrder) :
    ∀ point ∈ (store.flushSnapshot order).items.points,
      store.inner.points.get point.id = some point :=
  fun _ member => PointMap.mem_values.mp ((flushSnapshot_sublist order).subset member)

variable {next : Directory}

theorem writeSegmentFile_eq_ok {name : String} {config : CollectionConfig} {items : SegmentItems}
    {index : backend.Graph}
    (runs : (writeSegmentFile backend name config items index).run disk = (next, .ok ())) :
    ∃ output, (putSegment backend config items index).bytes = .ok output ∧
      next name = some (withChecksum output) := by
  cases found : disk name with
  | none =>
    cases written : (putSegment backend config items index).bytes with
    | error error =>
      rw [run_writeSegmentFile_error found written] at runs
      cases runs
    | ok output =>
      rw [run_writeSegmentFile_ok found written, Prod.mk.injEq] at runs
      exact ⟨output, rfl, runs.1 ▸ Disk.write_same _ _ _⟩
  | some old =>
    have exists_ : ∀ bytes, (io (.createNew name bytes)).run disk =
        (disk, .error (.io "file exists")) := by
      intro bytes
      rw [io, Program.run_demand]
      simp [FileOp.after, FileOp.answer, found, Except.mapError]
    unfold writeSegmentFile at runs
    rw [Program.run_rescue fun _ => rfl] at runs
    split at runs <;> simp only [Program.run_bind_error (exists_ _)] at runs <;> cases runs

/-- A build that succeeds left its segment under the temporary name. -/
theorem buildFlush_built {snapshot : FlushSnapshot} {stamp : Stamp}
    (graphed : snapshot.graphPoints = snapshot.items.points)
    (runs : (buildFlush backend snapshot stamp).run disk = (next, .ok prepared)) :
    prepared = preparedOf backend snapshot stamp ∧
      ∃ bytes, Built backend snapshot.config snapshot.items bytes ∧
        next prepared.temporarySegment = some bytes := by
  obtain rfl := buildFlush_eq_ok runs
  obtain ⟨_, graph, building, storing⟩ := Program.of_run_bind_ok runs
  obtain ⟨rfl, builds⟩ := Program.of_run_ofExcept building
  obtain ⟨_, _, writing, finished⟩ := Program.of_run_bind_ok storing
  obtain ⟨output, written, file⟩ := writeSegmentFile_eq_ok writing
  rw [graphed] at builds
  cases finished
  exact ⟨rfl, _, ⟨graph, output, builds, written, rfl⟩, file⟩

/-! ## Reading the manifest -/

theorem readManifest_keeps : (readManifest.run disk).1 = disk :=
  Program.crash_of_avoids_all (fun _ => readManifest_avoids) Program.final_mem_crashStates

theorem namesSegments_of_read (reads : (readManifest.run disk).2 = .ok previous) :
    NamesSegments previous := by
  rintro manifest rfl
  cases found : disk manifestName with
  | none =>
    rw [run_readManifest_missing found] at reads
    cases reads
  | some bytes =>
    rw [run_readManifest found] at reads
    cases decodes : decodeManifest bytes with
    | error error =>
      rw [decodes] at reads
      cases reads
    | ok decoded =>
      rw [decodes] at reads
      cases reads
      exact fun name member =>
        leading_of_segmentNamed (named_of_decodeManifest decodes name member)

/-! ## Publications that succeed -/

theorem run_publishFlush_unread {error : Error} (fails : (readManifest.run disk).2 = .error error) :
    (store.publishFlush process prepared).run disk =
      (disk.erase prepared.temporarySegment, .error error) := by
  have reads : readManifest.run disk = (disk, .error error) := Prod.ext readManifest_keeps fails
  unfold PersistentCollection.publishFlush
  rw [Program.run_cleanup fun _ => rfl, Program.run_bind_error reads]
  rfl

theorem checkpointLog_eq_ok {dirtyIds : IdSet}
    (runs : (store.checkpointLog prepared).run disk = (next, .ok dirtyIds)) :
    dirtyIds = if store.latestSequence = prepared.sequence then ∅ else store.dirtyIds := by
  unfold PersistentCollection.checkpointLog at runs
  split at runs
  next same =>
    obtain ⟨_, _, -, synced⟩ := Program.of_run_bind_ok runs
    obtain ⟨_, _, -, finished⟩ := Program.of_run_bind_ok synced
    rw [if_pos same]
    exact (Except.ok.inj (Prod.mk.inj finished).2).symm
  next differs =>
    rw [if_neg differs]
    exact (Except.ok.inj (Prod.mk.inj runs).2).symm

variable {after : PersistentCollection backend} {sequence : UInt64}

/-- A publication that succeeds claimed its segment and wrote the manifest. -/
theorem publishSegment_eq_ok (named : NamesSegments previous)
    (file : disk prepared.temporarySegment = some bytes)
    (runs : (store.publishSegment process prepared previous).run disk =
      (next, .ok (after, sequence))) :
    ∃ decoded, Claims store prepared bytes decoded ∧
      after = publishedStore store prepared decoded ∧
      next manifestName = some (manifestBytes (nextManifest prepared previous)) := by
  obtain ⟨claimed, decoded, claiming, runs⟩ := Program.of_run_bind_ok runs
  obtain ⟨listed, _, listing, runs⟩ := Program.of_run_bind_ok runs
  obtain ⟨cut, dirtyIds, cutting, runs⟩ := Program.of_run_bind_ok runs
  obtain ⟨retired, _, retiring, finished⟩ := Program.of_run_bind_ok runs
  obtain ⟨rfl, claims⟩ := claimSegment_eq_ok file claiming
  obtain rfl := checkpointLog_eq_ok cutting
  rw [Program.run_pure, Prod.mk.injEq, Except.ok.injEq, Prod.mk.injEq] at finished
  refine ⟨decoded, claims, finished.2.1.symm, ?_⟩
  have written : listed manifestName = some (manifestBytes (nextManifest prepared previous)) :=
    publishManifest_eq_ok (show (publishManifest process (nextManifest prepared previous).sequence
      (nextManifest prepared previous).segments).run _ = _ from listing)
  have cutKept : cut manifestName = listed manifestName :=
    (checkpointLog_avoids (ne_of_leading (by simp))).of_run cutting
  have retiredKept : retired manifestName = cut manifestName :=
    (retireSegments_avoids (kept_of_leading named (by simp))).of_run retiring
  rw [← finished.1, retiredKept, cutKept, written]

/-- A flush that succeeds was stale, or it was published. -/
theorem publishFlush_eq_ok (temporary : leading prepared.temporarySegment = ['.', 's'])
    (file : disk prepared.temporarySegment = some bytes)
    (runs : (store.publishFlush process prepared).run disk = (next, .ok (after, sequence))) :
    after = store ∨ ∃ previous decoded, (readManifest.run disk).2 = .ok previous ∧
      ¬ Stale prepared previous ∧ Claims store prepared bytes decoded ∧
      after = publishedStore store prepared decoded ∧
      next manifestName = some (manifestBytes (nextManifest prepared previous)) := by
  cases reads : (readManifest.run disk).2 with
  | error error =>
    rw [run_publishFlush_unread reads] at runs
    cases runs
  | ok previous =>
    rw [run_publishFlush (Prod.ext readManifest_keeps reads), Prod.mk.injEq] at runs
    obtain ⟨rfl, finished⟩ := runs
    by_cases stale : Stale prepared previous
    · have finishes : ∃ sequence, publishAfter process store prepared previous = _ :=
        publishAfter_stale stale
      obtain ⟨latest, isStale⟩ := finishes
      rw [isStale] at finished
      cases finished
      exact .inl rfl
    · right
      rw [publishAfter_fresh stale] at finished ⊢
      obtain ⟨decoded, claims, isPublished, manifest⟩ :=
        publishSegment_eq_ok (namesSegments_of_read reads) file (Prod.ext rfl finished)
      exact ⟨previous, decoded, rfl, stale, claims, isPublished,
        (erase_apart _ (by simp [temporary])).trans manifest⟩

theorem flush_eq_ok {order : IterationOrder} {stamp : Stamp}
    (runs : (store.flush process order stamp).run disk = (next, .ok (after, sequence))) :
    after = store ∨ ∃ bytes decoded,
      Built backend store.inner.config (store.flushSnapshot order).items bytes ∧
      Claims store (preparedOf backend (store.flushSnapshot order) stamp) bytes decoded ∧
      after = publishedStore store (preparedOf backend (store.flushSnapshot order) stamp) decoded := by
  unfold PersistentCollection.flush at runs
  split at runs
  · cases runs
    exact .inl rfl
  · obtain ⟨built, prepared, building, publishing⟩ := Program.of_run_bind_ok runs
    obtain ⟨rfl, bytes, isBuilt, file⟩ := buildFlush_built (flushSnapshot_graphed order) building
    have temporary : leading
        (preparedOf backend (store.flushSnapshot order) stamp).temporarySegment = ['.', 's'] :=
      leading_temporarySegmentName _ _
    rcases publishFlush_eq_ok temporary file publishing with
      same | ⟨previous, decoded, -, -, claims, published, -⟩
    · exact .inl same
    · exact .inr ⟨bytes, decoded, isBuilt, claims, published⟩

/-! ## Files -/

theorem run_removeAll_file (names : List String) (disk : Directory) (file : String) :
    ((names.forM removeQuietly : Fs Unit).run disk).1 file = disk file ∨
      ((names.forM removeQuietly : Fs Unit).run disk).1 file = none := by
  induction names generalizing disk with
  | nil => exact .inl rfl
  | cons name rest ih =>
    change ((removeQuietly name >>= fun _ => rest.forM removeQuietly : Fs Unit).run disk).1 _ = _ ∨
      ((removeQuietly name >>= fun _ => rest.forM removeQuietly : Fs Unit).run disk).1 _ = _
    rw [Program.run_bind_ok run_removeQuietly]
    by_cases same : file = name
    · subst same
      right
      rcases ih (disk.erase file) with kept | gone
      · rw [kept, Disk.erase_same]
      · exact gone
    · rw [← Disk.erase_other disk same]
      exact ih (disk.erase name)

/-- A publication leaves a segment file, unlinks it or puts the new one there. -/
theorem publishSegment_file {file : String} (isSegment : leading file = ['s', 'e'])
    (temporary : leading prepared.temporarySegment = ['.', 's'])
    (found : disk prepared.temporarySegment = some bytes) :
    let next := ((store.publishSegment process prepared previous).run disk).1
    next file = disk file ∨ next file = none ∨ next file = some bytes := by
  intro next
  let Possible := fun content : Option Bytes =>
    content = disk file ∨ content = none ∨ content = some bytes
  have claimed : Possible (((store.claimSegment prepared).run disk).1 file) := by
    rcases claimSegment_crash found Program.final_mem_crashStates with same | moved
    · exact .inl (congrFun same file)
    · rw [moved, renamed]
      by_cases isNew : file = segmentName prepared.sequence
      · rw [isNew, Disk.write_same]
        exact .inr (.inr rfl)
      · rw [Disk.write_other _ _ isNew, erase_apart _ (by simp [isSegment, temporary])]
        exact .inl rfl
  have retiring : (PersistentCollection.retireSegments prepared previous).Keeps
      fun disk => Possible (disk file) := by
    intro start possible
    rw [retireSegments_eq]
    rcases run_removeAll_file (retiredNames prepared previous) start file with kept | gone
    · rw [kept]
      exact possible
    · rw [gone]
      exact .inr (.inl rfl)
  have notManifest : (publishManifest process prepared.sequence
      (PersistentCollection.publishedNames prepared previous)).Avoids file :=
    publishManifest_avoids (ne_of_leading (by simp [isSegment])) (ne_of_leading (by simp [isSegment]))
  have notLog : (store.checkpointLog prepared).Avoids file :=
    checkpointLog_avoids (ne_of_leading (by simp [isSegment]))
  refine Program.Keeps.after claimed fun decoded => (notManifest.keeps Possible).bind fun _ =>
    (notLog.keeps Possible).bind fun dirtyIds => retiring.bind fun _ => ?_
  exact .pure _ _

/-- What a publication may do to a directory, whatever comes of it. -/
structure PublishedOver (prepared : PreparedFlush backend) (bytes : Bytes)
    (disk next : Directory) : Prop where
  temporaries : ∀ file, leading file = ['.', 's'] → file ≠ prepared.temporarySegment →
    next file = disk file
  segments : ∀ file, leading file = ['s', 'e'] →
    next file = disk file ∨ next file = none ∨ next file = some bytes
  manifest : next manifestName = disk manifestName ∨ ∃ previous,
    (readManifest.run disk).2 = .ok previous ∧ ¬ Stale prepared previous ∧
      next manifestName = some (manifestBytes (nextManifest prepared previous))
  log : ∃ wal, next walName = some wal

theorem publishFlush_over {wal : Bytes}
    (temporary : leading prepared.temporarySegment = ['.', 's'])
    (file : disk prepared.temporarySegment = some bytes) (found : disk walName = some wal) :
    PublishedOver prepared bytes disk ((store.publishFlush process prepared).run disk).1 := by
  cases reads : (readManifest.run disk).2 with
  | error error =>
    rw [run_publishFlush_unread reads]
    exact {
      temporaries := fun _ _ differs => Disk.erase_other _ differs
      segments := fun _ isSegment => .inl (erase_apart _ (by simp [isSegment, temporary]))
      manifest := .inl (erase_apart _ (by simp [temporary]))
      log := ⟨wal, (erase_apart _ (by simp [temporary])).trans found⟩ }
  | ok previous =>
    have named := namesSegments_of_read reads
    have whole : readManifest.run disk = (disk, .ok previous) := Prod.ext readManifest_keeps reads
    have outcome : Untouched prepared previous bytes disk
        ((store.publishFlush process prepared).run disk).1 ∨ _ :=
      publishFlush_crash temporary named file found whole Program.final_mem_crashStates
    exact {
      temporaries := by
        intro other isTemporary differs
        rw [run_publishFlush whole]
        exact (Disk.erase_other _ differs).trans (publishAfter_avoids named isTemporary differs).run
      segments := by
        intro other isSegment
        have body : ((store.publishFlush process prepared).run disk).1 other =
            ((publishAfter process store prepared previous).run disk).1 other := by
          rw [run_publishFlush whole]
          exact erase_apart _ (by simp [isSegment, temporary])
        rw [body]
        by_cases stale : Stale prepared previous
        · have finishes : ∃ sequence, publishAfter process store prepared previous = _ :=
            publishAfter_stale stale
          obtain ⟨sequence, finished⟩ := finishes
          rw [finished]
          exact .inl rfl
        · rw [publishAfter_fresh stale]
          exact publishSegment_file isSegment temporary file
      manifest := by
        rcases outcome with untouched | ⟨fresh, -, promoted⟩
        · exact .inl untouched.manifest
        · exact .inr ⟨previous, reads, fresh, promoted.manifest⟩
      log := by
        rcases outcome with untouched | ⟨-, -, promoted⟩
        · exact ⟨wal, untouched.log.trans found⟩
        · rcases promoted.log with kept | ⟨-, cut⟩
          · exact ⟨wal, kept.trans found⟩
          · exact ⟨[], cut⟩ }

end FocalVector.Persistence
