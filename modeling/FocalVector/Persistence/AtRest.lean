import FocalVector.Persistence.Plans
import FocalVector.Persistence.SoundOpening

/-!
Contract: directories that no process has open.

A process that dies while it opens a directory, writes or flushes leaves files that
opening takes up again: the log may end in a part of a frame, and the log of a new
collection may not be there yet. Before the metadata is in place there is nothing to
take up, but its temporary file may have been left.

Owns: `AtRest`, `Unborn`, and openings that succeed or crash there.

Does not own: what a later process does with the collection.
-/

namespace FocalVector.Persistence

open FocalVector.Foundation FocalVector.Engine LittleEndian

section Opening

variable {arith : FloatArithmetic} {backend : IndexBackend} {config : CollectionConfig}
  {durability : Durability} {disk crash : Directory} {log : List Write}
  {chain : List (DecodedSegment backend)} {count start : Nat}

/-! ## The metadata -/

theorem ensureMetadata_crash {bytes : Bytes} (found : disk metaName = some bytes)
    (crashed : crash ∈ (ensureMetadata config).crashStates disk) : crash = disk := by
  unfold ensureMetadata at crashed
  rcases Program.mem_crashStates_bind.mp crashed with early | ⟨next, present, probes, late⟩
  · exact Program.crash_of_avoids_all (fun _ => avoids_io (by simp [FileOp.targets])) early
  rw [run_fileExists, found, Prod.mk.injEq] at probes
  obtain ⟨rfl, isPresent⟩ := probes
  rw [← Except.ok.inj isPresent, Option.isSome_some, if_pos rfl] at late
  refine Program.crash_of_avoids_all (fun file => ?_) late
  refine Program.Avoids.bind (avoids_io (by simp [FileOp.targets])) fun _ =>
    (Program.Avoids.ofExcept _).bind fun actual => ?_
  split
  · exact .raise _
  · exact .pure _

def withMetadata (config : CollectionConfig) (disk : Directory) : Directory :=
  ((disk.write metaTemporaryName (encodeMetadata config)).erase metaTemporaryName).write
    metaName (encodeMetadata config)

theorem ensureMetadata_crash_new (missing : disk metaName = none)
    (crashed : crash ∈ (ensureMetadata config).crashStates disk) :
    (∀ file, file ≠ metaTemporaryName → crash file = disk file) ∨
      crash = withMetadata config disk := by
  unfold ensureMetadata at crashed
  rcases Program.mem_crashStates_bind.mp crashed with early | ⟨next, present, probes, late⟩
  · rw [Program.crash_of_avoids_all (fun _ => avoids_io (by simp [FileOp.targets])) early]
    exact .inl fun _ _ => rfl
  rw [run_fileExists, missing, Prod.mk.injEq] at probes
  obtain ⟨rfl, isPresent⟩ := probes
  rw [← Except.ok.inj isPresent, Option.isSome_none, if_neg (by decide)] at late
  rcases Program.mem_crashStates_bind.mp late with writing | ⟨written, _, writes, late⟩
  · refine .inl fun file differs => ?_
    exact (Program.Avoids.bind (avoids_io (by simpa [FileOp.targets] using differs))
      fun _ => avoids_io (by simp [FileOp.targets])).crash writing
  obtain rfl := writeNewFile_eq_ok writes
  rcases Program.mem_crashStates_bind.mp late with moving | ⟨renamed, _, renames, syncing⟩
  · rcases renameFile_crash (Disk.write_same _ _ _) moving with rfl | rfl
    · exact .inl fun file differs => Disk.write_other _ _ differs
    · exact .inr rfl
  · rw [run_renameFile (Disk.write_same _ _ _), Prod.mk.injEq] at renames
    obtain ⟨rfl, -⟩ := renames
    exact .inr (syncDirectory_crash syncing)

/-! ## What opening does behind the metadata -/

theorem recoverFile_crash {collection : Collection} {dirtyIds : IdSet}
    (crashed : crash ∈ (recoverFile arith collection dirtyIds).crashStates disk) :
    crash = disk ∨ crash = ((recoverFile arith collection dirtyIds).run disk).1 := by
  unfold recoverFile at crashed ⊢
  rcases Program.mem_crashStates_bind.mp crashed with reading | ⟨next, wal, reads, late⟩
  · exact .inl (readFile_crash reading)
  obtain rfl := readFile_crash (Program.mem_crashStates_of_run reads)
  rw [Program.run_bind_ok reads]
  cases recovers : recover arith wal collection dirtyIds with
  | error error =>
    rw [recovers] at late
    exact .inl (List.mem_singleton.mp late)
  | ok result =>
    obtain ⟨state, validLength⟩ := result
    rw [recovers] at late
    change crash ∈ (if validLength < wal.length then
      setFileLength walName validLength >>= fun _ => pure state else pure state :
        Fs _).crashStates next at late
    change _ ∨ crash = ((if validLength < wal.length then
      setFileLength walName validLength >>= fun _ => pure state else pure state : Fs _).run next).1
    by_cases torn : validLength < wal.length
    · rw [if_pos torn] at late ⊢
      rw [Program.run_bind, setFileLength, io, Program.run_demand]
      have cut : crash = next ∨ crash = (FileOp.setLen walName validLength).after next := by
        rcases Program.mem_crashStates_bind.mp late with cutting | ⟨after, _, cuts, finished⟩
        · rw [setFileLength, io, Program.crashStates_demand] at cutting
          simpa [FileOp.during] using cutting
        · rw [setFileLength, io, Program.run_demand, Prod.mk.injEq] at cuts
          rw [cuts.1]
          exact .inr (List.mem_singleton.mp finished)
      refine cut.imp id fun isCut => ?_
      cases (FileOp.setLen walName validLength).answer next <;> exact isCut
    · rw [if_neg torn] at late
      exact .inl (List.mem_singleton.mp late)

/-- A crash behind the metadata leaves the directory as it was, or with a log file, or as
the opening leaves it. -/
theorem openStored_crash (positive : config.dimension ≠ 0)
    (crashed : crash ∈ (openStored arith backend config durability).crashStates disk) :
    crash = disk ∨ crash = disk.write walName ((disk walName).getD []) ∨
      crash = ((openStored arith backend config durability).run disk).1 := by
  unfold openStored at crashed ⊢
  rw [new_eq_ok positive] at crashed ⊢
  rcases Program.mem_crashStates_bind.mp crashed with touching | ⟨touched, _, touches, late⟩
  · exact (openOrCreate_crash touching).imp id .inl
  rw [Program.run_bind_ok touches]
  rw [run_openOrCreate_getD, Prod.mk.injEq] at touches
  obtain ⟨rfl, -⟩ := touches
  right
  rcases Program.mem_crashStates_bind.mp late with creating | ⟨same, inner, creates, late⟩
  · exact .inl (List.mem_singleton.mp creating)
  rw [Program.run_bind_ok creates]
  obtain ⟨rfl, -⟩ := Program.of_run_ofExcept creates
  rcases Program.mem_crashStates_bind.mp late with loading | ⟨loaded, value, loads, late⟩
  · exact .inl (Program.crash_of_avoids_all (fun _ => loadCurrentSegments_avoids _) loading)
  rw [Program.run_bind_ok loads]
  have unread : loaded = disk.write walName ((disk walName).getD []) :=
    Program.crash_of_avoids_all (fun _ => loadCurrentSegments_avoids _)
      (Program.mem_crashStates_of_run loads)
  subst unread
  rcases Program.mem_crashStates_bind.mp late with recovering | ⟨next, state, recovers, finished⟩
  · rcases recoverFile_crash recovering with same | final
    · exact .inl same
    · refine .inr (final.trans ?_)
      rw [Program.run_bind]
      rcases (recoverFile arith value.1 ∅).run
        (disk.write walName ((disk walName).getD [])) with ⟨after, error | state⟩ <;> rfl
  · rw [Program.run_bind_ok recovers]
    exact .inr (List.mem_singleton.mp finished)

/-! ## Directories that store a log -/

/-- A directory that stores a log, up to a part of a frame behind it. Without a graph it has
at most one segment. -/
structure AtRest (arith : FloatArithmetic) (backend : IndexBackend) (config : CollectionConfig)
    (disk : Directory) (log : List Write) (chain : List (DecodedSegment backend))
    (count start : Nat) : Prop where
  metadata : disk metaName = some (encodeMetadata config)
  base : Base backend config disk log chain count
  overlap : start ≤ count
  single : chainIndexes backend chain = [] → chain.length ≤ 1
  logged : ∃ rest, (disk walName).getD [] = walBytes (1 + start) (log.drop start) ++ rest ∧
    (rest = [] ∨ walFormat.scan rest = .torn)
  recorded : Recorded config 1 log
  replays : ∀ write ∈ log, replayWrite arith config write = .ok write
  readable : Readable arith config count (1 + start) (log.drop start)

namespace AtRest

/-- The directory with its log cut behind the last whole frame. -/
theorem onDisk (atRest : AtRest arith backend config disk log chain count start) :
    OnDisk backend config (disk.write walName (walBytes (1 + start) (log.drop start))) log chain
      count start where
  metadata := (write_apart _ _ (by simp)).trans atRest.metadata
  base := atRest.base.write_log _
  logged := Disk.write_same _ _ _
  overlap := atRest.overlap

theorem run_openStored_touched (positive : config.dimension ≠ 0)
    (metadata : disk metaName = some (encodeMetadata config)) :
    (openStored arith backend config durability).run disk =
      (openCollection arith backend config durability).run
        (disk.write walName ((disk walName).getD [])) := by
  have touched : disk.write walName ((disk walName).getD []) metaName =
      some (encodeMetadata config) := (write_apart _ _ (by simp)).trans metadata
  rw [openCollection_eq, Program.run_bind_ok (run_ensureMetadata positive touched)]
  unfold openStored
  rw [Program.run_bind_ok run_openOrCreate_getD,
    Program.run_bind_ok (run_openOrCreate (Disk.write_same _ _ _))]

section

variable (atRest : AtRest arith backend config disk log chain count start)

include atRest

theorem run_openStored (positive : config.dimension ≠ 0) :
    (openStored arith backend config durability).run disk =
      (disk.write walName (walBytes (1 + start) (log.drop start)),
        .ok ⟨history config log log.length, durability, chainIndexes backend chain,
          baseIndex backend config log chain count, changedIds ∅ (log.drop count)⟩) := by
  obtain ⟨rest, logged, torn⟩ := atRest.logged
  have opens : (openCollection arith backend config durability).run _ = _ :=
    atRest.onDisk.opens_torn positive atRest.recorded atRest.replays atRest.readable torn
  rw [Disk.write_write, ← logged] at opens
  exact (run_openStored_touched positive atRest.metadata).trans opens

theorem opens (positive : config.dimension ≠ 0) :
    (openCollection arith backend config durability).run disk =
      (disk.write walName (walBytes (1 + start) (log.drop start)),
        .ok ⟨history config log log.length, durability, chainIndexes backend chain,
          baseIndex backend config log chain count, changedIds ∅ (log.drop count)⟩) := by
  rw [openCollection_eq, Program.run_bind_ok (run_ensureMetadata positive atRest.metadata)]
  exact atRest.run_openStored positive

theorem write_log {wal rest : Bytes}
    (logged : wal = walBytes (1 + start) (log.drop start) ++ rest)
    (torn : rest = [] ∨ walFormat.scan rest = .torn) :
    AtRest arith backend config (disk.write walName wal) log chain count start :=
  { atRest with
    metadata := (write_apart _ _ (by simp)).trans atRest.metadata
    base := atRest.base.write_log _
    logged := ⟨rest, by rw [Disk.write_same]; exact logged, torn⟩ }

theorem openStored_crash (positive : config.dimension ≠ 0)
    (crashed : crash ∈ (openStored arith backend config durability).crashStates disk) :
    AtRest arith backend config crash log chain count start := by
  obtain ⟨rest, logged, torn⟩ := atRest.logged
  rcases FocalVector.Persistence.openStored_crash positive crashed with rfl | rfl | final
  · exact atRest
  · exact atRest.write_log logged torn
  · rw [final, atRest.run_openStored positive]
    exact atRest.write_log (List.append_nil _).symm (.inl rfl)

theorem open_crash (positive : config.dimension ≠ 0)
    (crashed : crash ∈ (openCollection arith backend config durability).crashStates disk) :
    AtRest arith backend config crash log chain count start := by
  rw [openCollection_eq] at crashed
  rcases Program.mem_crashStates_bind.mp crashed with checking | ⟨next, _, checks, opening⟩
  · rw [ensureMetadata_crash atRest.metadata checking]
    exact atRest
  · rw [run_ensureMetadata positive atRest.metadata, Prod.mk.injEq] at checks
    rw [← checks.1] at opening
    exact atRest.openStored_crash positive opening

end

end AtRest

/-! ## Directories without metadata -/

/-- Nothing of a collection is there yet but a temporary file of its metadata. -/
structure Unborn (disk : Directory) : Prop where
  metadata : disk metaName = none
  manifest : disk manifestName = none
  log : disk walName = none

namespace Unborn

theorem withMetadata (unborn : Unborn disk) (arith : FloatArithmetic) (backend : IndexBackend)
    (config : CollectionConfig) :
    AtRest arith backend config (withMetadata config disk) [] [] 0 0 where
  metadata := Disk.write_same _ _ _
  base := .empty (by
    unfold FocalVector.Persistence.withMetadata
    rw [write_apart _ _ (by simp), erase_apart _ (by simp), write_apart _ _ (by simp)]
    exact unborn.manifest)
  overlap := le_rfl
  single := fun _ => Nat.zero_le _
  logged := ⟨[], by
    unfold FocalVector.Persistence.withMetadata
    rw [write_apart _ _ (by simp), erase_apart _ (by simp), write_apart _ _ (by simp), unborn.log]
    rfl, .inl rfl⟩
  recorded := recorded_nil config
  replays := by simp
  readable := ⟨by simp, by simp⟩

theorem opens (unborn : Unborn disk) (positive : config.dimension ≠ 0)
    (unused : disk metaTemporaryName = none) :
    (openCollection arith backend config durability).run disk =
      ((FocalVector.Persistence.withMetadata config disk).write walName [],
        .ok (newStore backend config durability)) := by
  rw [openCollection_eq, Program.run_bind_ok (run_ensureMetadata_new config unborn.metadata unused)]
  exact (unborn.withMetadata arith backend config).run_openStored positive

theorem open_fails (unborn : Unborn disk) {left : Bytes} (used : disk metaTemporaryName = some left) :
    (openCollection arith backend config durability).run disk =
      (disk, .error (.io "file exists")) := by
  rw [openCollection_eq, Program.run_bind_error (run_ensureMetadata_blocked config unborn.metadata used)]

/-- The first opening makes the collection exactly when nothing is in its way. -/
theorem opens_or_fails (unborn : Unborn disk) (positive : config.dimension ≠ 0) :
    (disk metaTemporaryName = none ∧ (openCollection arith backend config durability).run disk =
      ((FocalVector.Persistence.withMetadata config disk).write walName [],
        .ok (newStore backend config durability))) ∨
    (disk metaTemporaryName ≠ none ∧ (openCollection arith backend config durability).run disk =
      (disk, .error (.io "file exists"))) := by
  cases used : disk metaTemporaryName with
  | none => exact .inl ⟨rfl, unborn.opens positive used⟩
  | some left => exact .inr ⟨nofun, unborn.open_fails used⟩

/-- A crash of the first opening leaves no metadata, or a directory that stores nothing. -/
theorem open_crash (unborn : Unborn disk) (positive : config.dimension ≠ 0)
    (crashed : crash ∈ (openCollection arith backend config durability).crashStates disk) :
    Unborn crash ∨ AtRest arith backend config crash [] [] 0 0 := by
  have stored := unborn.withMetadata arith backend config
  rw [openCollection_eq] at crashed
  rcases Program.mem_crashStates_bind.mp crashed with creating | ⟨next, _, creates, opening⟩
  · rcases ensureMetadata_crash_new unborn.metadata creating with same | rfl
    · refine .inl ⟨(same _ (by decide)).trans unborn.metadata,
        (same _ (ne_of_leading (by simp))).trans unborn.manifest,
        (same _ (ne_of_leading (by simp))).trans unborn.log⟩
    · exact .inr stored
  · cases left : disk metaTemporaryName with
    | none =>
      rw [run_ensureMetadata_new config unborn.metadata left, Prod.mk.injEq] at creates
      rw [← creates.1] at opening
      exact .inr (stored.openStored_crash positive opening)
    | some bytes =>
      rw [run_ensureMetadata_blocked config unborn.metadata left] at creates
      cases creates

end Unborn

end Opening

end FocalVector.Persistence
