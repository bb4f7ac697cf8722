import FocalVector.Persistence.Chains

/-!
Contract: what the two file-writing steps of a flush leave in a directory, when
they finish and when they die.

Building writes one temporary file. Publishing first moves it to its final name
without touching anything else that recovery reads, and only then replaces the
manifest; every later step only removes what the new manifest does not need.

Owns: the outcomes of `buildFlush` and `publishFlush`, and the directories that
a crash of each can leave.

Does not own: what the segments hold.
-/

namespace FocalVector.Persistence

open FocalVector.Foundation FocalVector.Engine LittleEndian

variable {backend : IndexBackend} {disk : Directory}

/-! ## Building -/

variable {name : String} {config : CollectionConfig} {items : SegmentItems}
  {index : backend.Graph}

theorem writeSegmentFile_avoids {file : String} (differ : file ≠ name) :
    (writeSegmentFile backend name config items index).Avoids file := by
  have other : ∀ bytes, file ∉ (FileOp.createNew name bytes).targets := by
    simpa [FileOp.targets] using differ
  apply Program.Avoids.rescue
  · split
    · exact (avoids_io (other _)).bind fun _ => avoids_io (by simp [FileOp.targets])
    · exact (avoids_io (other _)).bind fun _ => .raise _
  · exact avoids_removeQuietly differ

variable {stamp : Stamp}

theorem buildFlush_avoids {snapshot : FlushSnapshot} {file : String}
    (differ : file ≠ temporarySegmentName snapshot.sequence stamp) :
    (buildFlush backend snapshot stamp).Avoids file :=
  (Program.Avoids.ofExcept _).bind fun _ =>
    (writeSegmentFile_avoids differ).bind fun _ => .pure _

def preparedOf (backend : IndexBackend) (snapshot : FlushSnapshot) (stamp : Stamp) :
    PreparedFlush backend where
  sequence := snapshot.sequence
  temporarySegment := temporarySegmentName snapshot.sequence stamp
  metadataIndex := some (backend.buildMetadata snapshot.points)
  compact := snapshot.compact

theorem run_writeSegmentFile_ok {output : Bytes} (unused : disk name = none)
    (written : (putSegment backend config items index).bytes = .ok output) :
    (writeSegmentFile backend name config items index).run disk =
      (disk.write name (withChecksum output), .ok ()) := by
  have runs := (Encoder.run_of_bytes (putSegment backend config items index)).1 output written
  have created : (writeNewFile name (withChecksum output)).run disk = _ := run_writeNewFile unused
  unfold writeNewFile at created
  unfold writeSegmentFile
  rw [runs, Program.run_rescue fun _ => rfl]
  simp only [created]
  rfl

theorem run_writeSegmentFile_error {error : Error} (unused : disk name = none)
    (refused : (putSegment backend config items index).bytes = .error error) :
    (writeSegmentFile backend name config items index).run disk = (disk, .error error) := by
  obtain ⟨output, runs⟩ :=
    (Encoder.run_of_bytes (putSegment backend config items index)).2 error refused
  have created : (io (.createNew name output)).run disk = (disk.write name output, .ok ()) := by
    rw [io, Program.run_demand]
    simp [FileOp.after, FileOp.answer, unused, Except.mapError]
  have failed : (io (.createNew name output) >>= fun _ =>
      Program.raise error : Fs Unit).run disk = (disk.write name output, .error error) := by
    rw [Program.run_bind_ok created]
    rfl
  unfold writeSegmentFile
  rw [runs, Program.run_rescue fun _ => rfl]
  simp only [failed]
  exact Prod.ext (Disk.erase_write unused output) rfl

theorem run_buildFlush {snapshot : FlushSnapshot} {stamp : Stamp}
    (unused : disk (temporarySegmentName snapshot.sequence stamp) = none)
    (graphed : snapshot.graphPoints = snapshot.items.points) :
    (∃ bytes, Built backend snapshot.config snapshot.items bytes ∧
      (buildFlush backend snapshot stamp).run disk =
        (disk.write (temporarySegmentName snapshot.sequence stamp) bytes,
          .ok (preparedOf backend snapshot stamp))) ∨
    (∀ bytes, ¬ Built backend snapshot.config snapshot.items bytes) ∧
      ∃ error, (buildFlush backend snapshot stamp).run disk = (disk, .error error) := by
  unfold buildFlush
  rw [graphed]
  cases built : backend.build snapshot.config.dimension snapshot.config.metric
      (snapshot.items.points.map fun point => (point.id, point.vector)) with
  | error error =>
    refine .inr ⟨fun bytes built' => ?_, error, rfl⟩
    obtain ⟨graph, output, succeeds, -, -⟩ := built'
    rw [built] at succeeds
    cases succeeds
  | ok graph =>
    rw [Program.run_bind_ok (Program.run_ofExcept _)]
    cases written : (putSegment backend snapshot.config snapshot.items graph).bytes with
    | error error =>
      refine .inr ⟨fun bytes built' => ?_, error, ?_⟩
      · obtain ⟨other, output, succeeds, puts, -⟩ := built'
        rw [built, Except.ok.injEq] at succeeds
        rw [← succeeds, written] at puts
        cases puts
      · exact Program.run_bind_error (run_writeSegmentFile_error unused written)
    | ok output =>
      refine .inl ⟨withChecksum output, ⟨graph, output, built, written, rfl⟩, ?_⟩
      rw [Program.run_bind_ok (run_writeSegmentFile_ok unused written)]
      rfl

theorem run_buildFlush_used (snapshot : FlushSnapshot) {old : Bytes}
    (used : disk (temporarySegmentName snapshot.sequence stamp) = some old) :
    ∃ next error, (buildFlush backend snapshot stamp).run disk = (next, .error error) := by
  have refused : ∀ bytes rest, (io (.createNew (temporarySegmentName snapshot.sequence stamp) bytes)
      >>= rest : Fs Unit).run disk = (disk, .error (.io "file exists")) := fun bytes rest => by
    refine Program.run_bind_error ?_
    rw [io, Program.run_demand]
    simp [FileOp.after, FileOp.answer, used, Except.mapError]
  have blocked : ∀ graph, ∃ next, (writeSegmentFile backend
      (temporarySegmentName snapshot.sequence stamp) snapshot.config snapshot.items graph).run disk =
      (next, .error (.io "file exists")) := by
    intro graph
    unfold writeSegmentFile
    rw [Program.run_rescue fun _ => rfl]
    split <;> simp [refused]
  unfold buildFlush
  cases built : backend.build snapshot.config.dimension snapshot.config.metric
      (snapshot.graphPoints.map fun point => (point.id, point.vector)) with
  | error error => exact ⟨disk, error, rfl⟩
  | ok graph =>
    obtain ⟨next, fails⟩ := blocked graph
    rw [Program.run_bind_ok (Program.run_ofExcept _), Program.run_bind_error fails]
    exact ⟨next, _, rfl⟩

theorem buildFlush_eq_ok {snapshot : FlushSnapshot} {next : Directory}
    {prepared : PreparedFlush backend}
    (runs : (buildFlush backend snapshot stamp).run disk = (next, .ok prepared)) :
    prepared = preparedOf backend snapshot stamp := by
  unfold buildFlush at runs
  cases built : backend.build snapshot.config.dimension snapshot.config.metric
      (snapshot.graphPoints.map fun point => (point.id, point.vector)) with
  | error error =>
    rw [built] at runs
    cases runs
  | ok graph =>
    rw [built, Program.run_bind_ok (Program.run_ofExcept _), Program.run_bind] at runs
    split at runs
    · exact (Except.ok.inj (Prod.mk.inj runs).2).symm
    · cases runs

/-! ## The steps of a publication -/

section Publishing

variable {store : PersistentCollection backend} {prepared : PreparedFlush backend}
  {previous : Option Manifest} {process : Nat} {bytes : Bytes}

/-- The segment reads back as the one that was prepared for this collection. -/
def Claims (store : PersistentCollection backend) (prepared : PreparedFlush backend)
    (bytes : Bytes) (decoded : DecodedSegment backend) : Prop :=
  decodeSegment backend bytes = .ok decoded ∧ decoded.config = store.inner.config ∧
    decoded.sequence = prepared.sequence ∧ decoded.full = prepared.compact

/-- The directory with the temporary segment moved to its final name. -/
def renamed (disk : Directory) (prepared : PreparedFlush backend) (bytes : Bytes) : Directory :=
  (disk.erase prepared.temporarySegment).write (segmentName prepared.sequence) bytes

variable {file : String}

theorem readManifest_avoids : readManifest.Avoids file := by
  unfold readManifest
  refine Program.Avoids.bind (avoids_io (by simp [FileOp.targets])) fun present => ?_
  cases present with
  | false => exact .pure _
  | true =>
    exact Program.Avoids.bind (avoids_io (by simp [FileOp.targets])) fun _ =>
      (Program.Avoids.ofExcept _).bind fun _ => .pure _

theorem claimSegment_avoids (notTemporary : file ≠ prepared.temporarySegment)
    (notSegment : file ≠ segmentName prepared.sequence) :
    (store.claimSegment prepared).Avoids file := by
  unfold PersistentCollection.claimSegment
  refine Program.Avoids.bind (avoids_io (by simp [FileOp.targets, notTemporary, notSegment]))
    fun _ => Program.Avoids.bind (avoids_io (by simp [FileOp.targets])) fun _ =>
      Program.Avoids.bind (avoids_io (by simp [FileOp.targets])) fun _ =>
        (Program.Avoids.ofExcept _).bind fun decoded => ?_
  split
  · exact .raise _
  · exact .pure _

theorem publishManifest_avoids {sequence : UInt64} {names : List String}
    (notTemporary : file ≠ manifestTemporaryName process) (notManifest : file ≠ manifestName) :
    (publishManifest process sequence names).Avoids file :=
  (Program.Avoids.ofExcept _).bind fun _ =>
    Program.Avoids.bind
      (Program.Avoids.bind (avoids_io (by simpa [FileOp.targets] using notTemporary))
        fun _ => avoids_io (by simp [FileOp.targets]))
      fun _ => Program.Avoids.bind
        (avoids_io (by simp [FileOp.targets, notTemporary, notManifest]))
        fun _ => avoids_io (by simp [FileOp.targets])

theorem checkpointLog_avoids (notLog : file ≠ walName) :
    (store.checkpointLog prepared).Avoids file := by
  unfold PersistentCollection.checkpointLog
  split
  · exact Program.Avoids.bind (avoids_io (by simpa [FileOp.targets] using notLog)) fun _ =>
      Program.Avoids.bind (avoids_io (by simp [FileOp.targets])) fun _ => .pure _
  · exact .pure _

def retiredNames (prepared : PreparedFlush backend) (previous : Option Manifest) : List String :=
  if prepared.compact then
    ((previous.map Manifest.segments).getD []).filter (· ≠ segmentName prepared.sequence)
  else []

theorem retireSegments_eq : PersistentCollection.retireSegments prepared previous =
      (retiredNames prepared previous).forM removeQuietly := by
  unfold PersistentCollection.retireSegments retiredNames
  split <;> rfl

theorem removeAll_avoids {names : List String} (kept : file ∉ names) :
    (names.forM removeQuietly : Fs Unit).Avoids file := by
  induction names with
  | nil => exact .pure _
  | cons name rest ih =>
    rw [List.mem_cons, not_or] at kept
    exact (avoids_removeQuietly kept.1).bind fun _ => ih kept.2

theorem run_removeAll (names : List String) (disk : Directory) :
    ((names.forM removeQuietly : Fs Unit).run disk).2 = .ok () := by
  induction names generalizing disk with
  | nil => rfl
  | cons name rest ih =>
    change ((removeQuietly name >>= fun _ => rest.forM removeQuietly : Fs Unit).run disk).2 = _
    rw [Program.run_bind_ok run_removeQuietly]
    exact ih _

variable {decoded : DecodedSegment backend}

theorem run_claimSegment_ok (file : disk prepared.temporarySegment = some bytes)
    (claims : Claims store prepared bytes decoded) :
    (store.claimSegment prepared).run disk = (renamed disk prepared bytes, .ok decoded) := by
  obtain ⟨decodes, sameConfig, sameSequence, sameKind⟩ := claims
  have agrees : ¬ (decoded.config ≠ store.inner.config ∨ decoded.sequence ≠ prepared.sequence ∨
      decoded.full ≠ prepared.compact) := by
    simp [sameConfig, sameSequence, sameKind]
  unfold PersistentCollection.claimSegment
  rw [Program.run_bind_ok (run_renameFile file), Program.run_bind_ok run_syncDirectory,
    Program.run_bind_ok (run_readFile (Disk.write_same _ _ _)), decodes,
    Program.run_bind_ok (Program.run_ofExcept _), if_neg agrees]
  rfl

theorem run_claimSegment_error (file : disk prepared.temporarySegment = some bytes)
    (unclaimed : ∀ decoded, ¬ Claims store prepared bytes decoded) :
    ∃ error, (store.claimSegment prepared).run disk =
      (renamed disk prepared bytes, .error error) := by
  unfold PersistentCollection.claimSegment
  rw [Program.run_bind_ok (run_renameFile file), Program.run_bind_ok run_syncDirectory,
    Program.run_bind_ok (run_readFile (Disk.write_same _ _ _))]
  cases decodes : decodeSegment backend bytes with
  | error error => exact ⟨error, Program.run_bind_error (Program.run_ofExcept _)⟩
  | ok decoded =>
    have disagrees : decoded.config ≠ store.inner.config ∨
        decoded.sequence ≠ prepared.sequence ∨ decoded.full ≠ prepared.compact := by
      by_contra agrees
      simp only [not_or, not_not] at agrees
      exact unclaimed decoded ⟨decodes, agrees⟩
    rw [Program.run_bind_ok (Program.run_ofExcept _), if_pos disagrees]
    exact ⟨_, rfl⟩

/-! ## What recovery finds -/

def Stale (prepared : PreparedFlush backend) (previous : Option Manifest) : Prop :=
  ∃ manifest, previous = some manifest ∧ prepared.sequence < manifest.sequence

def nextManifest (prepared : PreparedFlush backend) (previous : Option Manifest) : Manifest where
  sequence := prepared.sequence
  segments := PersistentCollection.publishedNames prepared previous

/-- What recovery reads is as before, except that the prepared segment may stand
at its final name. -/
structure Untouched (prepared : PreparedFlush backend) (previous : Option Manifest)
    (bytes : Bytes) (disk other : Directory) : Prop where
  metadata : other metaName = disk metaName
  manifest : other manifestName = disk manifestName
  log : other walName = disk walName
  segments : ∀ sequence, other (segmentName sequence) = disk (segmentName sequence) ∨
    ¬ Stale prepared previous ∧ sequence = prepared.sequence ∧
      other (segmentName sequence) = some bytes

/-- The new manifest and its segment are in place, the log may have been cut,
and nothing that a delta builds on is gone. -/
structure Promoted (store : PersistentCollection backend) (prepared : PreparedFlush backend)
    (previous : Option Manifest) (bytes : Bytes) (disk other : Directory) : Prop where
  metadata : other metaName = disk metaName
  manifest : other manifestName = some (manifestBytes (nextManifest prepared previous))
  segment : other (segmentName prepared.sequence) = some bytes
  log : other walName = disk walName ∨
    store.latestSequence = prepared.sequence ∧ other walName = some []
  segments : prepared.compact = false → ∀ sequence, sequence ≠ prepared.sequence →
    other (segmentName sequence) = disk (segmentName sequence)

/-- The two directories differ in dot files only, which recovery never reads. -/
def SameVisible (disk other : Directory) : Prop :=
  ∀ file, (leading file).head? ≠ some '.' → other file = disk file

variable {other : Directory}

theorem Untouched.of_visible (same : SameVisible disk other) :
    Untouched prepared previous bytes disk other where
  metadata := same _ (by simp)
  manifest := same _ (by simp)
  log := same _ (by simp)
  segments := fun sequence => .inl (same _ (by simp))

variable {middle : Directory}

theorem Untouched.visible (untouched : Untouched prepared previous bytes disk middle)
    (same : SameVisible middle other) : Untouched prepared previous bytes disk other where
  metadata := (same _ (by simp)).trans untouched.metadata
  manifest := (same _ (by simp)).trans untouched.manifest
  log := (same _ (by simp)).trans untouched.log
  segments := by
    intro sequence
    rw [same _ (by simp)]
    exact untouched.segments sequence

variable {name : String}

theorem SameVisible.erase_hidden (isHidden : (leading name).head? = some '.') :
    SameVisible disk (disk.erase name) :=
  fun _ visible => Disk.erase_other _ (ne_of_visible visible isHidden)

theorem Promoted.visible (promoted : Promoted store prepared previous bytes disk middle)
    (same : SameVisible middle other) : Promoted store prepared previous bytes disk other where
  metadata := (same _ (by simp)).trans promoted.metadata
  manifest := (same _ (by simp)).trans promoted.manifest
  segment := (same _ (by simp)).trans promoted.segment
  log := by
    rw [same _ (by simp)]
    exact promoted.log
  segments := fun isDelta sequence differs =>
    (same _ (by simp)).trans (promoted.segments isDelta sequence differs)

variable {crash : Directory}

theorem renameFile_crash {source target : String}
    (file : disk source = some bytes)
    (crashed : crash ∈ (renameFile source target).crashStates disk) :
    crash = disk ∨ crash = (disk.erase source).write target bytes := by
  rw [renameFile, io, Program.crashStates_demand] at crashed
  simp only [FileOp.during, FileOp.after, file, List.cons_append, List.nil_append, List.mem_cons,
    List.not_mem_nil, or_false] at crashed
  exact crashed

theorem claimSegment_crash (file : disk prepared.temporarySegment = some bytes)
    (crashed : crash ∈ (store.claimSegment prepared).crashStates disk) :
    crash = disk ∨ crash = renamed disk prepared bytes := by
  unfold PersistentCollection.claimSegment at crashed
  rcases Program.mem_crashStates_bind.mp crashed with early | ⟨next, value, runs, late⟩
  · exact renameFile_crash file early
  · rw [run_renameFile file] at runs
    cases runs
    right
    apply Program.crash_of_avoids_all _ late
    intro file
    refine Program.Avoids.bind (avoids_io (by simp [FileOp.targets])) fun _ =>
      Program.Avoids.bind (avoids_io (by simp [FileOp.targets])) fun _ =>
        (Program.Avoids.ofExcept _).bind fun decoded => ?_
    split
    · exact .raise _
    · exact .pure _

theorem untouched_renamed (temporary : leading prepared.temporarySegment = ['.', 's'])
    (fresh : ¬ Stale prepared previous) :
    Untouched prepared previous bytes disk (renamed disk prepared bytes) where
  metadata := by
    rw [renamed, write_apart _ _ (by simp), erase_apart _ (by simp [temporary])]
  manifest := by
    rw [renamed, write_apart _ _ (by simp), erase_apart _ (by simp [temporary])]
  log := by
    rw [renamed, write_apart _ _ (by simp), erase_apart _ (by simp [temporary])]
  segments := by
    intro sequence
    by_cases same : sequence = prepared.sequence
    · right
      rw [same]
      exact ⟨fresh, rfl, Disk.write_same _ _ _⟩
    · left
      rw [renamed, Disk.write_other _ _ (segmentName_injective.ne same),
        erase_apart _ (by simp [temporary])]

theorem writeNewFile_eq_ok {next : Directory}
    (runs : (writeNewFile name bytes).run disk = (next, .ok ())) :
    next = disk.write name bytes := by
  cases found : disk name with
  | none =>
    rw [run_writeNewFile found] at runs
    exact (Prod.mk.inj runs).1.symm
  | some old =>
    have refused : (io (.createNew name bytes)).run disk = (disk, .error (.io "file exists")) := by
      rw [io, Program.run_demand]
      simp [FileOp.after, FileOp.answer, found, Except.mapError]
    rw [writeNewFile, Program.run_bind_error refused] at runs
    cases runs

theorem publishManifest_crash {manifest : Manifest}
    (crashed : crash ∈ (publishManifest process manifest.sequence manifest.segments).crashStates
      disk) :
    crash manifestName = disk manifestName ∨
      crash manifestName = some (manifestBytes manifest) := by
  have apart : manifestName ≠ manifestTemporaryName process := ne_of_leading (by simp)
  unfold publishManifest at crashed
  rcases Program.mem_crashStates_bind.mp crashed with early | ⟨next, payload, encoded, writing⟩
  · exact .inl ((Program.Avoids.ofExcept _).crash early)
  rw [Program.run_ofExcept, Prod.mk.injEq] at encoded
  obtain ⟨rfl, encodes⟩ := encoded
  obtain ⟨-, rfl⟩ := (writes_putManifest manifest).of_bytes_ok encodes
  rcases Program.mem_crashStates_bind.mp writing with early | ⟨next, value, written, moving⟩
  · left
    exact (Program.Avoids.bind (avoids_io (by simpa [FileOp.targets] using apart))
      fun _ => avoids_io (by simp [FileOp.targets])).crash early
  obtain rfl := writeNewFile_eq_ok written
  have kept : disk.write (manifestTemporaryName process) (manifestBytes manifest) manifestName =
      disk manifestName := Disk.write_other _ _ apart
  rcases Program.mem_crashStates_bind.mp moving with early | ⟨next, value, replaced, syncing⟩
  · rcases renameFile_crash (Disk.write_same _ _ _) early with rfl | rfl
    · exact .inl kept
    · exact .inr (Disk.write_same _ _ _)
  · rw [run_renameFile (Disk.write_same _ _ _)] at replaced
    cases replaced
    right
    rw [(avoids_io (by simp [FileOp.targets])).crash syncing]
    exact Disk.write_same _ _ _

variable {wal : Bytes}

theorem checkpointLog_crash (found : disk walName = some wal)
    (crashed : crash ∈ (store.checkpointLog prepared).crashStates disk) :
    crash walName = disk walName ∨
      store.latestSequence = prepared.sequence ∧ crash walName = some [] := by
  unfold PersistentCollection.checkpointLog at crashed
  split at crashed
  next same =>
    have cut : (setFileLength walName 0).run disk = (disk.write walName [], .ok ()) :=
      run_setFileLength found (Nat.zero_le _)
    rcases Program.mem_crashStates_bind.mp crashed with early | ⟨next, value, runs, late⟩
    · rw [setFileLength, io, Program.crashStates_demand] at early
      simp only [FileOp.during, FileOp.after, found, List.take_zero, Nat.zero_sub,
        List.replicate_zero, List.append_nil, List.cons_append, List.nil_append, List.mem_cons,
        List.not_mem_nil, or_false] at early
      rcases early with rfl | rfl
      · exact .inl rfl
      · exact .inr ⟨same, Disk.write_same _ _ _⟩
    · rw [cut] at runs
      cases runs
      right
      refine ⟨same, ?_⟩
      have rest : (io .sync >>= fun _ => pure ∅ : Fs IdSet).Avoids walName :=
        Program.Avoids.bind (avoids_io (by simp [FileOp.targets])) fun _ => .pure _
      rw [rest.crash late]
      exact Disk.write_same _ _ _
  next =>
    rw [List.mem_singleton.mp crashed]
    exact .inl rfl

theorem claimSegment_eq_ok {claimed : Directory}
    (file : disk prepared.temporarySegment = some bytes)
    (runs : (store.claimSegment prepared).run disk = (claimed, .ok decoded)) :
    claimed = renamed disk prepared bytes ∧ Claims store prepared bytes decoded := by
  by_cases claimable : ∃ decoded, Claims store prepared bytes decoded
  · obtain ⟨found, claims⟩ := claimable
    rw [run_claimSegment_ok file claims, Prod.mk.injEq, Except.ok.injEq] at runs
    exact ⟨runs.1.symm, runs.2 ▸ claims⟩
  · obtain ⟨error, fails⟩ := run_claimSegment_error file (not_exists.mp claimable)
    rw [fails] at runs
    cases runs

theorem publishManifest_eq_ok {manifest : Manifest} {next : Directory}
    (runs : (publishManifest process manifest.sequence manifest.segments).run disk =
      (next, .ok ())) : next manifestName = some (manifestBytes manifest) := by
  unfold publishManifest at runs
  cases encodes : (putManifest manifest.sequence manifest.segments).bytes with
  | error error =>
    rw [encodes] at runs
    cases runs
  | ok payload =>
    obtain ⟨-, rfl⟩ := (writes_putManifest manifest).of_bytes_ok encodes
    rw [encodes, Program.run_bind_ok (Program.run_ofExcept _), Program.run_bind] at runs
    split at runs
    next middle value written =>
      obtain rfl := writeNewFile_eq_ok written
      rw [Program.run_bind_ok (run_renameFile (Disk.write_same _ _ _)), run_syncDirectory,
        Prod.mk.injEq] at runs
      rw [← runs.1]
      exact Disk.write_same _ _ _
    next => cases runs

theorem Promoted.step (promoted : Promoted store prepared previous bytes disk middle)
    (metadata : other metaName = middle metaName)
    (manifest : other manifestName = middle manifestName)
    (segment : other (segmentName prepared.sequence) = middle (segmentName prepared.sequence))
    (log : other walName = middle walName ∨
      store.latestSequence = prepared.sequence ∧ other walName = some [])
    (segments : prepared.compact = false → ∀ sequence,
      other (segmentName sequence) = middle (segmentName sequence)) :
    Promoted store prepared previous bytes disk other where
  metadata := metadata.trans promoted.metadata
  manifest := manifest.trans promoted.manifest
  segment := segment.trans promoted.segment
  log := by
    rcases log with same | cut
    · rw [same]
      exact promoted.log
    · exact .inr cut
  segments := fun isDelta sequence differs =>
    (segments isDelta sequence).trans (promoted.segments isDelta sequence differs)

theorem promoted_of_renamed (temporary : leading prepared.temporarySegment = ['.', 's'])
    (fresh : ¬ Stale prepared previous)
    (manifest : other manifestName = some (manifestBytes (nextManifest prepared previous)))
    (same : ∀ file, file ≠ manifestTemporaryName process → file ≠ manifestName →
      other file = renamed disk prepared bytes file) :
    Promoted store prepared previous bytes disk other where
  metadata := by
    rw [same _ (ne_of_leading (by simp)) (ne_of_leading (by simp))]
    exact (untouched_renamed temporary fresh).metadata
  manifest := manifest
  segment := by
    rw [same _ (ne_of_leading (by simp)) (ne_of_leading (by simp))]
    exact Disk.write_same _ _ _
  log := by
    left
    rw [same _ (ne_of_leading (by simp)) (ne_of_leading (by simp))]
    exact (untouched_renamed temporary fresh).log
  segments := by
    intro _ sequence differs
    rw [same _ (ne_of_leading (by simp)) (ne_of_leading (by simp))]
    rcases (untouched_renamed temporary fresh).segments sequence with kept | ⟨-, isNew, -⟩
    · exact kept
    · exact absurd isNew differs

theorem retireSegments_avoids (kept : file ∉ retiredNames prepared previous) :
    (PersistentCollection.retireSegments prepared previous).Avoids file := by
  rw [retireSegments_eq]
  exact removeAll_avoids kept

def NamesSegments (previous : Option Manifest) : Prop :=
  ∀ manifest, previous = some manifest → ∀ name ∈ manifest.segments, leading name = ['s', 'e']

theorem leading_of_retired (named : NamesSegments previous)
    (member : name ∈ retiredNames prepared previous) : leading name = ['s', 'e'] := by
  unfold retiredNames at member
  split at member
  · cases previous with
    | none => simp at member
    | some manifest => exact named manifest rfl name (List.mem_of_mem_filter member)
  · simp at member

theorem kept_of_leading (named : NamesSegments previous)
    (apart : leading file ≠ ['s', 'e']) : file ∉ retiredNames prepared previous :=
  fun member => apart (leading_of_retired named member)

theorem Promoted.retire (named : NamesSegments previous)
    (promoted : Promoted store prepared previous bytes disk middle)
    (same : ∀ file, file ∉ retiredNames prepared previous → other file = middle file) :
    Promoted store prepared previous bytes disk other := by
  apply promoted.step
  · exact same _ (kept_of_leading named (by simp))
  · exact same _ (kept_of_leading named (by simp))
  · apply same
    unfold retiredNames
    split <;> simp
  · exact .inl (same _ (kept_of_leading named (by simp)))
  · intro isDelta sequence
    apply same
    simp [retiredNames, isDelta]

/-- Cutting the log leaves everything else. -/
theorem Promoted.cut (promoted : Promoted store prepared previous bytes disk middle)
    (same : ∀ file, file ≠ walName → other file = middle file)
    (log : other walName = middle walName ∨
      store.latestSequence = prepared.sequence ∧ other walName = some []) :
    Promoted store prepared previous bytes disk other :=
  promoted.step (same _ (ne_of_leading (by simp))) (same _ (ne_of_leading (by simp)))
    (same _ (ne_of_leading (by simp))) log fun _ _ => same _ (ne_of_leading (by simp))

theorem Promoted.log_found {listed : Directory} (found : disk walName = some wal)
    (promoted : Promoted store prepared previous bytes disk listed) :
    ∃ wal, listed walName = some wal := by
  rcases promoted.log with same | ⟨-, empty⟩
  · exact ⟨wal, same.trans found⟩
  · exact ⟨[], empty⟩

theorem Promoted.checkpoint_crash {listed : Directory}
    (found : disk walName = some wal)
    (promoted : Promoted store prepared previous bytes disk listed)
    (cutting : crash ∈ (store.checkpointLog prepared).crashStates listed) :
    Promoted store prepared previous bytes disk crash := by
  obtain ⟨listedWal, listedLog⟩ := promoted.log_found found
  exact promoted.cut (fun file notLog => (checkpointLog_avoids notLog).crash cutting)
    (checkpointLog_crash listedLog cutting)

/-- Once the manifest is in place, no crash undoes the publication. -/
theorem Promoted.finish_crash {α : Type} {listed : Directory}
    {value : IdSet → α} (named : NamesSegments previous) (found : disk walName = some wal)
    (promoted : Promoted store prepared previous bytes disk listed)
    (crashed : crash ∈ (store.checkpointLog prepared >>= fun dirtyIds =>
      PersistentCollection.retireSegments prepared previous >>= fun _ =>
        pure (value dirtyIds)).crashStates listed) :
    Promoted store prepared previous bytes disk crash := by
  rcases Program.mem_crashStates_bind.mp crashed with cutting | ⟨cut, dirty, cuts, rest⟩
  · exact promoted.checkpoint_crash found cutting
  · apply (promoted.checkpoint_crash found (Program.mem_crashStates_of_run cuts)).retire named
    intro file kept
    exact ((retireSegments_avoids kept).bind fun _ => .pure _).crash rest

/-- Every crash of a publication leaves either what was there or what was
published. -/
theorem publishSegment_crash (temporary : leading prepared.temporarySegment = ['.', 's'])
    (named : NamesSegments previous)
    (file : disk prepared.temporarySegment = some bytes) (found : disk walName = some wal)
    (fresh : ¬ Stale prepared previous)
    (crashed : crash ∈ (store.publishSegment process prepared previous).crashStates disk) :
    Untouched prepared previous bytes disk crash ∨
      (∃ decoded, Claims store prepared bytes decoded) ∧
        Promoted store prepared previous bytes disk crash := by
  have moved : Untouched prepared previous bytes disk (renamed disk prepared bytes) :=
    untouched_renamed temporary fresh
  unfold PersistentCollection.publishSegment at crashed
  rcases Program.mem_crashStates_bind.mp crashed with claiming | ⟨claimed, decoded, claims, rest⟩
  · rcases claimSegment_crash file claiming with rfl | rfl
    · exact .inl (.of_visible fun _ _ => rfl)
    · exact .inl moved
  obtain ⟨rfl, isClaim⟩ := claimSegment_eq_ok file claims
  rcases Program.mem_crashStates_bind.mp rest with publishing | ⟨listed, value, publishes, rest⟩
  · have elsewhere : ∀ file, file ≠ manifestTemporaryName process → file ≠ manifestName →
        crash file = renamed disk prepared bytes file := fun file notTemporary notManifest =>
      (publishManifest_avoids notTemporary notManifest).crash publishing
    have split : crash manifestName = renamed disk prepared bytes manifestName ∨
        crash manifestName = some (manifestBytes (nextManifest prepared previous)) :=
      publishManifest_crash publishing
    rcases split with old | new
    · left
      apply moved.visible
      intro file visible
      by_cases isManifest : file = manifestName
      · rw [isManifest, old]
      · exact elsewhere file (ne_of_visible visible (by simp)) isManifest
    · exact .inr ⟨⟨decoded, isClaim⟩, promoted_of_renamed temporary fresh new elsewhere⟩
  · have listedPromoted : Promoted store prepared previous bytes disk listed := by
      apply promoted_of_renamed temporary fresh (publishManifest_eq_ok publishes)
      intro file notTemporary notManifest
      exact (publishManifest_avoids notTemporary notManifest).of_run publishes
    exact .inr ⟨⟨decoded, isClaim⟩, listedPromoted.finish_crash named found rest⟩

def publishedStore (store : PersistentCollection backend) (prepared : PreparedFlush backend)
    (decoded : DecodedSegment backend) : PersistentCollection backend :=
  { store with
    inner := store.inner.replacePersistedPoints decoded.points
    dirtyIds := if store.latestSequence = prepared.sequence then ∅ else store.dirtyIds
    indexes := pushIndex backend (if prepared.compact then [] else store.indexes)
      prepared.sequence decoded.index
    metadataIndex := prepared.metadataIndex }

theorem run_checkpointLog (found : disk walName = some wal) :
    (store.checkpointLog prepared).run disk =
      if store.latestSequence = prepared.sequence then (disk.write walName [], .ok ∅)
      else (disk, .ok store.dirtyIds) := by
  unfold PersistentCollection.checkpointLog
  split
  · rw [Program.run_bind_ok (run_setFileLength found (Nat.zero_le _))]
    rfl
  · rfl

theorem run_finish {α : Type} (value : IdSet → α) (named : NamesSegments previous)
    (found : disk walName = some wal) :
    ∃ next, (store.checkpointLog prepared >>= fun dirtyIds =>
        PersistentCollection.retireSegments prepared previous >>= fun _ =>
          pure (value dirtyIds)).run disk =
        (next, .ok (value
          (if store.latestSequence = prepared.sequence then ∅ else store.dirtyIds))) ∧
      (store.latestSequence = prepared.sequence → next walName = some []) ∧
      (store.latestSequence ≠ prepared.sequence → next walName = some wal) ∧
      ∀ file, file ≠ walName → file ∉ retiredNames prepared previous → next file = disk file := by
  have retires : ∀ start, (PersistentCollection.retireSegments prepared previous).run start =
      (((PersistentCollection.retireSegments prepared previous).run start).1, .ok ()) := by
    intro start
    refine Prod.ext rfl ?_
    rw [retireSegments_eq]
    exact run_removeAll _ _
  have keeps : ∀ (start : Directory) {file : String}, file ∉ retiredNames prepared previous →
      ((PersistentCollection.retireSegments prepared previous).run start).1 file = start file :=
    fun _ _ kept => (retireSegments_avoids kept).run
  have logKept : walName ∉ retiredNames prepared previous := kept_of_leading named (by simp)
  have cuts : (store.checkpointLog prepared).run disk = _ := run_checkpointLog found
  by_cases same : store.latestSequence = prepared.sequence
  · rw [if_pos same] at cuts ⊢
    refine ⟨_, ?_, fun _ => (keeps (disk.write walName []) logKept).trans (Disk.write_same _ _ _),
      fun differs => absurd same differs, fun file notLog kept =>
        (keeps _ kept).trans (Disk.write_other _ _ notLog)⟩
    rw [Program.run_bind_ok cuts, Program.run_bind_ok (retires _)]
    rfl
  · rw [if_neg same] at cuts ⊢
    refine ⟨_, ?_, fun agrees => absurd agrees same, fun _ => (keeps _ logKept).trans found,
      fun file _ kept => keeps _ kept⟩
    rw [Program.run_bind_ok cuts, Program.run_bind_ok (retires _)]
    rfl

theorem run_publishSegment_ok (temporary : leading prepared.temporarySegment = ['.', 's'])
    (named : NamesSegments previous)
    (file : disk prepared.temporarySegment = some bytes) (found : disk walName = some wal)
    (fresh : ¬ Stale prepared previous)
    (unused : disk (manifestTemporaryName process) = none)
    (fits : NamesWithin wireLimit (nextManifest prepared previous).segments)
    (claims : Claims store prepared bytes decoded) :
    ∃ next, (store.publishSegment process prepared previous).run disk =
        (next, .ok (publishedStore store prepared decoded, prepared.sequence)) ∧
      Promoted store prepared previous bytes disk next ∧
      (store.latestSequence = prepared.sequence → next walName = some []) ∧
      (store.latestSequence ≠ prepared.sequence → next walName = some wal) ∧
      next (manifestTemporaryName process) = none := by
  have moved : Untouched prepared previous bytes disk (renamed disk prepared bytes) :=
    untouched_renamed temporary fresh
  have stillUnused : renamed disk prepared bytes (manifestTemporaryName process) = none := by
    rw [renamed, write_apart _ _ (by simp), erase_apart _ (by simp [temporary])]
    exact unused
  have listing := run_publishManifest fits stillUnused
  have publishes : (publishManifest process prepared.sequence
      (PersistentCollection.publishedNames prepared previous)).run (renamed disk prepared bytes) =
      (published (renamed disk prepared bytes) process (nextManifest prepared previous), .ok ()) :=
    listing
  have promoted : Promoted store prepared previous bytes disk
      (published (renamed disk prepared bytes) process (nextManifest prepared previous)) :=
    promoted_of_renamed temporary fresh (Disk.write_same _ _ _) fun file notTemporary notManifest =>
      (publishManifest_avoids notTemporary notManifest).of_run publishes
  have listedLog : published (renamed disk prepared bytes) process
      (nextManifest prepared previous) walName = some wal := by
    rw [published, write_apart _ _ (by simp), erase_apart _ (by simp), write_apart _ _ (by simp),
      moved.log, found]
  obtain ⟨next, finishes, cut, kept, elsewhere⟩ :=
    run_finish (fun dirtyIds => (({ publishedStore store prepared decoded with dirtyIds } :
      PersistentCollection backend), prepared.sequence)) named listedLog
  refine ⟨next, ?_, promoted.finish_crash named found (Program.mem_crashStates_of_run finishes),
    cut, kept, ?_⟩
  rotate_left
  · rw [elsewhere _ (ne_of_leading (by simp)) (kept_of_leading named (by simp)), published,
      write_apart _ _ (by simp), Disk.erase_same]
  unfold PersistentCollection.publishSegment
  rw [Program.run_bind_ok (run_claimSegment_ok file claims), Program.run_bind_ok publishes]
  exact finishes

theorem run_publishSegment_error (file : disk prepared.temporarySegment = some bytes)
    (unclaimed : ∀ decoded, ¬ Claims store prepared bytes decoded) :
    ∃ error, (store.publishSegment process prepared previous).run disk =
      (renamed disk prepared bytes, .error error) := by
  obtain ⟨error, fails⟩ := run_claimSegment_error file unclaimed
  exact ⟨error, Program.run_bind_error fails⟩

/-! ## The whole publication -/

def publishAfter (process : Nat) (store : PersistentCollection backend)
    (prepared : PreparedFlush backend) (previous : Option Manifest) :
    Fs (PersistentCollection backend × UInt64) :=
  match previous with
  | some manifest =>
    if prepared.sequence < manifest.sequence then
      return (store, manifest.sequence)
    else
      store.publishSegment process prepared previous
  | none => store.publishSegment process prepared none

theorem publishAfter_stale (stale : Stale prepared previous) :
    ∃ sequence, publishAfter process store prepared previous = pure (store, sequence) := by
  obtain ⟨manifest, rfl, newer⟩ := stale
  exact ⟨manifest.sequence, if_pos newer⟩

theorem publishAfter_fresh (fresh : ¬ Stale prepared previous) :
    publishAfter process store prepared previous =
      store.publishSegment process prepared previous := by
  cases previous with
  | none => rfl
  | some manifest => exact if_neg fun newer => fresh ⟨manifest, rfl, newer⟩

theorem publishAfter_avoids (named : NamesSegments previous)
    (isTemporary : leading file = ['.', 's']) (other : file ≠ prepared.temporarySegment) :
    (publishAfter process store prepared previous).Avoids file := by
  by_cases stale : Stale prepared previous
  · have finishes : ∃ sequence, publishAfter process store prepared previous = _ :=
      publishAfter_stale stale
    obtain ⟨sequence, finished⟩ := finishes
    rw [finished]
    exact .pure _
  · rw [publishAfter_fresh stale]
    refine Program.Avoids.bind (claimSegment_avoids other (ne_of_leading (by simp [isTemporary])))
      fun decoded => Program.Avoids.bind (publishManifest_avoids
        (ne_of_leading (by simp [isTemporary])) (ne_of_leading (by simp [isTemporary])))
        fun _ => Program.Avoids.bind (checkpointLog_avoids (ne_of_leading (by simp [isTemporary])))
          fun _ => Program.Avoids.bind
            (retireSegments_avoids (kept_of_leading named (by simp [isTemporary]))) fun _ => ?_
    exact .pure _

theorem run_publishFlush (reads : readManifest.run disk = (disk, .ok previous)) :
    (store.publishFlush process prepared).run disk =
      (((publishAfter process store prepared previous).run disk).1.erase prepared.temporarySegment,
        ((publishAfter process store prepared previous).run disk).2) := by
  unfold PersistentCollection.publishFlush
  rw [Program.run_cleanup fun _ => rfl]
  have runs : (readManifest >>= fun previous =>
      publishAfter process store prepared previous).run disk = _ := Program.run_bind_ok reads
  change (((readManifest >>= fun previous =>
    publishAfter process store prepared previous).run disk).1.erase _,
      ((readManifest >>= fun previous => publishAfter process store prepared previous).run disk).2) = _
  rw [runs]

/-- Every crash of publishing a flush leaves what was there or, when the manifest
was not newer, what was published. -/
theorem publishFlush_crash (temporary : leading prepared.temporarySegment = ['.', 's'])
    (named : NamesSegments previous)
    (file : disk prepared.temporarySegment = some bytes) (found : disk walName = some wal)
    (reads : readManifest.run disk = (disk, .ok previous))
    (crashed : crash ∈ (store.publishFlush process prepared).crashStates disk) :
    Untouched prepared previous bytes disk crash ∨
      ¬ Stale prepared previous ∧ (∃ decoded, Claims store prepared bytes decoded) ∧
        Promoted store prepared previous bytes disk crash := by
  have hidden : (leading prepared.temporarySegment).head? = some '.' := by simp [temporary]
  have body : ∀ {state : Directory}, state ∈ (readManifest >>= fun previous =>
      publishAfter process store prepared previous).crashStates disk →
      Untouched prepared previous bytes disk state ∨
        ¬ Stale prepared previous ∧ (∃ decoded, Claims store prepared bytes decoded) ∧
          Promoted store prepared previous bytes disk state := by
    intro state crashed
    rcases Program.mem_crashStates_bind.mp crashed with early | ⟨next, value, runs, late⟩
    · obtain rfl := Program.crash_of_avoids_all (fun _ => readManifest_avoids) early
      exact .inl (.of_visible fun _ _ => rfl)
    · rw [reads] at runs
      cases runs
      by_cases stale : Stale prepared previous
      · have finishes : ∃ sequence, publishAfter process store prepared previous = _ :=
          publishAfter_stale stale
        obtain ⟨sequence, finished⟩ := finishes
        rw [finished] at late
        obtain rfl := List.mem_singleton.mp late
        exact .inl (.of_visible fun _ _ => rfl)
      · rw [publishAfter_fresh stale] at late
        rcases publishSegment_crash temporary named file found stale late with untouched | promoted
        · exact .inl untouched
        · exact .inr ⟨stale, promoted⟩
  rcases Program.mem_crashStates_settle crashed with during | removing
  · exact body during
  · have same : SameVisible _ crash := fun file visible =>
      (avoids_removeQuietly (ne_of_visible visible hidden)).crash removing
    rcases body Program.final_mem_crashStates with untouched | ⟨fresh, claims, promoted⟩
    · exact .inl (untouched.visible same)
    · exact .inr ⟨fresh, claims, promoted.visible same⟩

end Publishing

end FocalVector.Persistence
