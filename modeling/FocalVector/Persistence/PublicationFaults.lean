import FocalVector.Foundation.Faults
import FocalVector.Persistence.Publication
import FocalVector.Persistence.Sequential

/-!
Contract: publications whose file operations fail.

An operation of `publish_flush` that fails leaves the directory as a crash there
would. The collection in memory goes on with its dirty ids and its graphs as if
nothing had been published, whether the new manifest is in place or not.

Owns: `publish_flush` and `flush` with faults, and what they can leave.

Does not own: faults while a segment is built or a manifest is read.
-/

namespace FocalVector.Persistence

open FocalVector.Foundation FocalVector.Engine LittleEndian

/-! ## Publishing with faults -/

namespace PersistentCollection

variable {backend : IndexBackend}

/-- `publish_flush` behind the reading of the manifest: the directory and the collection
that it leaves, its result, and the fates that it did not use. The persisted points are
swapped in before the log is cut, and stay when that fails. -/
def publishSegmentFated (process : Nat) (store : PersistentCollection backend)
    (prepared : PreparedFlush backend) (previous : Option Manifest) (fates : List Fate)
    (disk : Directory) : Directory × PersistentCollection backend × Result UInt64 × List Fate :=
  match (store.claimSegment prepared).runFated fates disk with
  | (claimed, .error error, rest) => (claimed, store, .error error, rest)
  | (claimed, .ok decoded, rest) =>
    match (publishManifest process prepared.sequence
        (publishedNames prepared previous)).runFated rest claimed with
    | (listed, .error error, rest) => (listed, store, .error error, rest)
    | (listed, .ok (), rest) =>
      let replaced :=
        { store with inner := store.inner.replacePersistedPoints decoded.points }
      match (store.checkpointLog prepared).runFated rest listed with
      | (cut, .error error, rest) => (cut, replaced, .error error, rest)
      | (cut, .ok dirtyIds, rest) =>
        let retired := (retireSegments prepared previous).runFated rest cut
        (retired.1,
          { replaced with
            dirtyIds
            indexes := pushIndex backend (if prepared.compact then [] else store.indexes)
              prepared.sequence decoded.index
            metadataIndex := prepared.metadataIndex },
          .ok prepared.sequence, retired.2.2)

/-- `publish_flush` with faults behind the reading of the manifest. -/
def publishFlushFated (process : Nat) (store : PersistentCollection backend)
    (prepared : PreparedFlush backend) (fates : List Fate) (disk : Directory) :
    Directory × PersistentCollection backend × Result UInt64 :=
  let published : Directory × PersistentCollection backend × Result UInt64 × List Fate :=
    match readManifest.run disk with
    | (read, .error error) => (read, store, .error error, fates)
    | (read, .ok none) => store.publishSegmentFated process prepared none fates read
    | (read, .ok (some manifest)) =>
      if prepared.sequence < manifest.sequence then
        (read, store, .ok manifest.sequence, fates)
      else
        store.publishSegmentFated process prepared (some manifest) fates read
  (((removeQuietly prepared.temporarySegment).runFated published.2.2.2 published.1).1,
    published.2.1, published.2.2.1)

/-- `flush` with faults of its publication. -/
def flushFated (process : Nat) (store : PersistentCollection backend) (order : IterationOrder)
    (stamp : Stamp) (fates : List Fate) (disk : Directory) :
    Directory × PersistentCollection backend × Result UInt64 :=
  if store.Settled then
    (disk, store, .ok store.latestSequence)
  else
    match (buildFlush backend (store.flushSnapshot order) stamp).run disk with
    | (built, .error error) => (built, store, .error error)
    | (built, .ok prepared) => store.publishFlushFated process prepared fates built

end PersistentCollection

section Publishing

variable {backend : IndexBackend} {process : Nat} {store : PersistentCollection backend}
  {prepared : PreparedFlush backend} {previous : Option Manifest} {bytes : Bytes}
  {disk : Directory} {fates : List Fate}

theorem publishFlushFated_eq (reads : readManifest.run disk = (disk, .ok previous))
    (fresh : ¬ Stale prepared previous) :
    let published := store.publishSegmentFated process prepared previous fates disk
    store.publishFlushFated process prepared fates disk =
      (((removeQuietly prepared.temporarySegment).runFated published.2.2.2 published.1).1,
        published.2.1, published.2.2.1) := by
  unfold PersistentCollection.publishFlushFated
  rw [reads]
  cases previous with
  | none => rfl
  | some manifest =>
    have notNewer : ¬ prepared.sequence < manifest.sequence := fun newer =>
      fresh ⟨manifest, rfl, newer⟩
    simp only [if_neg notNewer]

theorem claimSegment_stops : (store.claimSegment prepared).StopsAtFaults := by
  unfold PersistentCollection.claimSegment
  refine .bind (.demand _ _) fun _ => .bind (.demand _ _) fun _ => .bind (.demand _ _) fun _ =>
    .bind (.ofExcept _) fun decoded => ?_
  split
  · exact .raise _
  · exact .pure _

theorem publishManifest_stops {sequence : UInt64} {names : List String} :
    (publishManifest process sequence names).StopsAtFaults :=
  .bind (.ofExcept _) fun _ => .bind (.bind (.demand _ _) fun _ => .demand _ _) fun _ =>
    .bind (.demand _ _) fun _ => .demand _ _

theorem checkpointLog_stops : (store.checkpointLog prepared).StopsAtFaults := by
  unfold PersistentCollection.checkpointLog
  split
  · exact .bind (.demand _ _) fun _ => .bind (.demand _ _) fun _ => .pure _
  · exact .pure _

/-! ## Where a publication fails -/

theorem claimSegment_spends : (store.claimSegment prepared).Spends 3 := by
  unfold PersistentCollection.claimSegment
  refine .bind (.demand _ _) fun _ => .bind (.demand _ _) fun _ => .bind (.demand _ _) fun _ =>
    .bind (.ofExcept _) fun decoded => ?_
  split
  · exact .raise _
  · exact .pure _

theorem publishManifest_spends {sequence : UInt64} {names : List String} :
    (publishManifest process sequence names).Spends 4 := by
  exact .bind (.ofExcept _) fun _ => .bind (.bind (.demand _ _) fun _ => .demand _ _) fun _ =>
    .bind (.demand _ _) fun _ => .demand _ _

/-- A manifest that could not be published is not in its place, unless the directory could
not be synced behind it. -/
theorem publishManifest_fails {sequence : UInt64} {names : List String} {next : Directory}
    {error : Error} {rest : List Fate}
    (fails : (publishManifest process sequence names).runFated fates disk =
      (next, .error error, rest)) :
    next manifestName = disk manifestName ∨ Program.FaultWithin 3 1 fates := by
  have staging (bytes : Bytes) :
      (writeNewFile (manifestTemporaryName process) bytes).Avoids manifestName :=
    .bind (avoids_io (by simpa [FileOp.targets] using ne_of_leading (by simp))) fun _ =>
      avoids_io (by simp [FileOp.targets])
  unfold publishManifest at fails
  cases encodes : (putManifest sequence names).bytes with
  | error error =>
    rw [encodes] at fails
    cases fails
    exact .inl rfl
  | ok payload =>
    rw [encodes, Program.ofExcept_ok_bind] at fails
    rcases Program.of_runFated_bind_error fails with stages | ⟨staged, _, _, stages, fails⟩
    · exact .inl ((staging _).of_runFated stages)
    obtain ⟨worksFirst, rfl⟩ := Program.Spends.bind (.demand _ _) (fun _ => .demand _ _) _ _ _ _ _ stages
    rcases Program.of_runFated_bind_error fails with renames | ⟨_, _, _, renames, syncs⟩
    · left
      refine Eq.trans ?_ ((staging _).of_runFated stages)
      rcases Program.of_runFated_demand_error renames with ⟨-, kept, rfl⟩ | ⟨rfl, message, refused⟩
      · rfl
      · cases found : staged (manifestTemporaryName process) <;>
          simp [FileOp.answer, FileOp.after, found] at refused ⊢
    · right
      obtain ⟨worksNext, rfl⟩ := Program.Spends.demand _ _ _ _ _ _ _ renames
      rcases Program.of_runFated_demand_error syncs with ⟨fault, -⟩ | ⟨-, message, refused⟩
      · exact (fault.after worksNext).after worksFirst
      · cases refused

theorem checkpointLog_fails {wal : Bytes} {next : Directory} {error : Error} {rest : List Fate}
    (found : disk walName = some wal)
    (fails : (store.checkpointLog prepared).runFated fates disk = (next, .error error, rest)) :
    Program.FaultWithin 0 2 fates := by
  unfold PersistentCollection.checkpointLog at fails
  split at fails
  · rcases Program.of_runFated_bind_error fails with cuts | ⟨_, _, _, cuts, fails⟩
    · rcases Program.of_runFated_demand_error cuts with ⟨fault, -⟩ | ⟨-, message, refused⟩
      · exact fault.mono le_rfl (by decide)
      · simp [FileOp.answer, found] at refused
    · obtain ⟨works, rfl⟩ := Program.Spends.demand _ _ _ _ _ _ _ cuts
      rcases Program.of_runFated_bind_error fails with syncs | ⟨_, _, _, -, fails⟩
      · rcases Program.of_runFated_demand_error syncs with ⟨fault, -⟩ | ⟨-, message, refused⟩
        · exact (fault.after works).mono (Nat.zero_le _) le_rfl
        · cases refused
      · cases fails
  · cases fails

/-- The manifest is renamed into its place, and the sync of the directory behind it or one of
the two operations that cut the log fails. -/
def FailsBehindManifest (fates : List Fate) : Prop := Program.FaultWithin 6 3 fates

/-- What a publication with faults leaves. -/
inductive Outcome (fates : List Fate) (store : PersistentCollection backend) (prepared : PreparedFlush backend)
    (previous : Option Manifest) (bytes : Bytes) (disk : Directory) :
    Directory → PersistentCollection backend → Result UInt64 → Prop where
  | untouched {other : Directory} {error : Error}
      (untouched : Untouched prepared previous bytes disk other) :
      Outcome fates store prepared previous bytes disk other store (.error error)
  | halfway {other : Directory} {left : PersistentCollection backend} {error : Error}
      (decoded : DecodedSegment backend) (claims : Claims store prepared bytes decoded)
      (promoted : Promoted store prepared previous bytes disk other)
      (kept : left = store ∨
        left = { store with inner := store.inner.replacePersistedPoints decoded.points })
      (late : FailsBehindManifest fates) :
      Outcome fates store prepared previous bytes disk other left (.error error)
  | published {other : Directory} (decoded : DecodedSegment backend)
      (claims : Claims store prepared bytes decoded)
      (promoted : Promoted store prepared previous bytes disk other) :
      Outcome fates store prepared previous bytes disk other
        (publishedStore store prepared decoded) (.ok prepared.sequence)

theorem Outcome.visible {middle other : Directory} {left : PersistentCollection backend}
    {result : Result UInt64}
    (outcome : Outcome fates store prepared previous bytes disk middle left result)
    (same : SameVisible middle other) :
    Outcome fates store prepared previous bytes disk other left result := by
  cases outcome with
  | untouched untouched => exact .untouched (untouched.visible same)
  | halfway decoded claims promoted kept late =>
    exact .halfway decoded claims (promoted.visible same) kept late
  | published decoded claims promoted => exact .published decoded claims (promoted.visible same)

theorem publishSegmentFated_outcome {wal : Bytes}
    (temporary : leading prepared.temporarySegment = ['.', 's'])
    (named : NamesSegments previous) (file : disk prepared.temporarySegment = some bytes)
    (found : disk walName = some wal) (fresh : ¬ Stale prepared previous) :
    let published := store.publishSegmentFated process prepared previous fates disk
    Outcome fates store prepared previous bytes disk published.1 published.2.1 published.2.2.1 := by
  unfold PersistentCollection.publishSegmentFated
  have claimed : ((store.claimSegment prepared).runFated fates disk).1 ∈ _ :=
    claimSegment_stops.runFated_mem_crashStates
  rcases claiming : (store.claimSegment prepared).runFated fates disk with
    ⟨after, error | decoded, rest⟩
  · rw [claiming] at claimed
    rcases claimSegment_crash file claimed with rfl | rfl
    · exact .untouched (.of_visible fun _ _ => rfl)
    · exact .untouched (untouched_renamed temporary fresh)
  have claims := claimSegment_stops.run_of_runFated claiming
  obtain ⟨rfl, isClaim⟩ := claimSegment_eq_ok file claims
  obtain ⟨worksFirst, rfl⟩ := claimSegment_spends _ _ _ _ _ claiming
  have listed : ((publishManifest process prepared.sequence
      (PersistentCollection.publishedNames prepared previous)).runFated (fates.drop 3)
        (renamed disk prepared bytes)).1 ∈ _ := publishManifest_stops.runFated_mem_crashStates
  rcases listing : (publishManifest process prepared.sequence
      (PersistentCollection.publishedNames prepared previous)).runFated (fates.drop 3)
        (renamed disk prepared bytes) with ⟨list, error | ⟨⟩, left⟩
  · rw [listing] at listed
    simp only [listing]
    rcases publishManifest_fails listing with unchanged | fault
    · refine .untouched ((untouched_renamed temporary fresh).visible fun file visible => ?_)
      by_cases isManifest : file = manifestName
      · exact isManifest ▸ unchanged
      · exact (publishManifest_avoids (ne_of_visible visible (by simp))
          isManifest).of_runFated listing
    have crashed : list ∈ (store.publishSegment process prepared previous).crashStates disk :=
      Program.mem_crashStates_bind.mpr (.inr ⟨_, decoded, claims,
        Program.mem_crashStates_bind.mpr (.inl listed)⟩)
    rcases publishSegment_crash temporary named file found fresh crashed with
      untouched | ⟨-, promoted⟩
    · exact .untouched untouched
    · exact .halfway decoded isClaim promoted (.inl rfl)
        ((fault.after worksFirst).mono le_rfl (by decide))
  have publishes := publishManifest_stops.run_of_runFated listing
  obtain ⟨worksNext, isLeft⟩ := publishManifest_spends _ _ _ _ _ listing
  have promoted : Promoted store prepared previous bytes disk list := by
    apply promoted_of_renamed temporary fresh (publishManifest_eq_ok publishes)
    intro file notTemporary notManifest
    exact (publishManifest_avoids notTemporary notManifest).of_run publishes
  have cutting : ((store.checkpointLog prepared).runFated left list).1 ∈ _ :=
    checkpointLog_stops.runFated_mem_crashStates
  rcases cuts : (store.checkpointLog prepared).runFated left list with
    ⟨cut, error | dirtyIds, final⟩
  · rw [cuts] at cutting
    simp only [listing, cuts]
    obtain ⟨listedWal, listedLog⟩ := promoted.log_found found
    have fault : Program.FaultWithin 0 2 _ := isLeft ▸ checkpointLog_fails listedLog cuts
    exact .halfway decoded isClaim (promoted.checkpoint_crash found cutting) (.inr rfl)
      (((fault.after worksNext).after worksFirst).mono (by decide) le_rfl)
  · rw [cuts] at cutting
    simp only [listing, cuts]
    rw [checkpointLog_eq_ok (checkpointLog_stops.run_of_runFated cuts)]
    exact .published decoded isClaim ((promoted.checkpoint_crash found cutting).retire named fun file kept =>
      (retireSegments_avoids kept).runFated)

theorem publishSegmentFated_keeps {name : String} (named : NamesSegments previous)
    (isTemporary : leading name = ['.', 's']) (other : name ≠ prepared.temporarySegment) :
    (store.publishSegmentFated process prepared previous fates disk).1 name = disk name := by
  have claiming (fates : List Fate) (disk : Directory) :
      ((store.claimSegment prepared).runFated fates disk).1 name = disk name :=
    (claimSegment_avoids other (ne_of_leading (by simp [isTemporary]))).runFated
  have listing (fates : List Fate) (disk : Directory) :
      ((publishManifest process prepared.sequence
        (PersistentCollection.publishedNames prepared previous)).runFated fates disk).1 name =
          disk name :=
    (publishManifest_avoids (ne_of_leading (by simp [isTemporary]))
      (ne_of_leading (by simp [isTemporary]))).runFated
  have cutting (fates : List Fate) (disk : Directory) :
      ((store.checkpointLog prepared).runFated fates disk).1 name = disk name :=
    (checkpointLog_avoids (ne_of_leading (by simp [isTemporary]))).runFated
  have retiring (fates : List Fate) (disk : Directory) :
      ((PersistentCollection.retireSegments prepared previous).runFated fates disk).1 name =
        disk name :=
    (retireSegments_avoids (kept_of_leading named (by simp [isTemporary]))).runFated
  unfold PersistentCollection.publishSegmentFated
  rcases claims : (store.claimSegment prepared).runFated fates disk with ⟨after, claimed, rest⟩
  have first : after name = disk name := by simpa only [claims] using claiming fates disk
  cases claimed with
  | error error => exact first
  | ok decoded =>
    rcases lists : (publishManifest process prepared.sequence
        (PersistentCollection.publishedNames prepared previous)).runFated rest after with
      ⟨list, listed, left⟩
    have second : list name = after name := by simpa only [lists] using listing rest after
    cases listed with
    | error error =>
      simp only [lists]
      exact second.trans first
    | ok listed =>
      rcases cuts : (store.checkpointLog prepared).runFated left list with
        ⟨final, dirtyIds, unusedFates⟩
      have third : final name = list name := by simpa only [cuts] using cutting left list
      cases dirtyIds with
      | error error =>
        simp only [lists, cuts]
        exact third.trans (second.trans first)
      | ok dirtyIds =>
        simp only [lists, cuts]
        exact (retiring unusedFates final).trans (third.trans (second.trans first))

theorem publishFlushFated_outcome {wal : Bytes} {other : Directory}
    {left : PersistentCollection backend} {result : Result UInt64}
    (temporary : leading prepared.temporarySegment = ['.', 's'])
    (named : NamesSegments previous) (file : disk prepared.temporarySegment = some bytes)
    (found : disk walName = some wal) (fresh : ¬ Stale prepared previous)
    (reads : readManifest.run disk = (disk, .ok previous))
    (publishes : store.publishFlushFated process prepared fates disk = (other, left, result)) :
    Outcome fates store prepared previous bytes disk other left result ∧
      ∀ name, leading name = ['.', 's'] → name ≠ prepared.temporarySegment →
        other name = disk name := by
  rw [publishFlushFated_eq reads fresh, Prod.mk.injEq, Prod.mk.injEq] at publishes
  obtain ⟨rfl, rfl, rfl⟩ := publishes
  constructor
  · apply (publishSegmentFated_outcome temporary named file found fresh).visible
    exact fun name visible =>
      (avoids_removeQuietly (ne_of_visible visible (by simp [temporary]))).runFated
  · intro name isTemporary differs
    exact (avoids_removeQuietly differs).runFated.trans
      (publishSegmentFated_keeps named isTemporary differs)

end Publishing

end FocalVector.Persistence
