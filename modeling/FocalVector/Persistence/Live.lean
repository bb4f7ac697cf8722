import FocalVector.Persistence.Snapshots

/-!
Contract: open collections whose directory stores what they hold.

The batches acknowledged so far are the history of the open collection. Its
segments hold the history at their end, the log file holds everything after
that, and the dirty ids cover what changed since. Writing keeps this, and so
does publishing a flush that was taken at any earlier position, as long as its
segment does not replace one that the manifest names.

Owns: `Live`, and what a write and a publication do to it.

Does not own: which writes and flushes happen in which order.
-/

namespace FocalVector.Persistence

open FocalVector.Foundation FocalVector.Engine LittleEndian

/-! ## Live collections -/

section Live

variable {arith : FloatArithmetic} {backend : IndexBackend} {config : CollectionConfig}
  {process : Nat} {disk other : Directory} {store : PersistentCollection backend}
  {log : List Write} {chain : List (DecodedSegment backend)} {count start taken : Nat}
  {prepared : PreparedFlush backend} {items : SegmentItems} {bytes : Bytes}
  {decoded : DecodedSegment backend}

/-- An open collection whose directory stores its history. -/
structure Live (arith : FloatArithmetic) (backend : IndexBackend) (config : CollectionConfig)
    (process : Nat) (disk : Directory) (store : PersistentCollection backend) (log : List Write)
    (chain : List (DecodedSegment backend)) (count start : Nat) : Prop extends
    Held arith backend config disk store log chain count start where
  indexes : store.indexes = chainIndexes backend chain
  dirty : ∀ id, Overwrite.ChangedBetween (log.map Write.effect) count log.length id →
    store.dirtyIds.contains id = true
  unused : disk (manifestTemporaryName process) = none

/-- A publication that does not replace a segment the manifest names, and leaves
the manifest readable. -/
structure Publishable (disk : Directory) (chain : List (DecodedSegment backend))
    (count taken : Nat) (prepared : PreparedFlush backend) (bytes : Bytes) : Prop where
  safe : ∀ decoded ∈ chain, decoded.sequence = prepared.sequence →
    disk (segmentName prepared.sequence) = some bytes
  later : prepared.compact = false → count < taken
  few : prepared.compact = false → chain.length ≤ maxIndexSegments

namespace Live

theorem opened (arith : FloatArithmetic) (backend : IndexBackend) (config : CollectionConfig)
    (process : Nat) (durability : Durability) :
    Live arith backend config process (newDirectory config) (newStore backend config durability)
      [] [] 0 0 where
  onDisk := onDisk_newDirectory backend config
  recorded := recorded_nil config
  replays := by simp
  inner := rfl
  indexes := rfl
  dirty := fun id changed => by
    obtain ⟨position, update, low, high, -, -⟩ := changed
    exact absurd high (Nat.not_lt_zero _)
  unused := newDirectory_hidden (by simp)

theorem opens (live : Live arith backend config process disk store log chain count start)
    (durability : Durability) (positive : config.dimension ≠ 0)
    (readable : Readable arith config count (1 + start) (log.drop start)) :
    ∃ reopened, (openCollection arith backend config durability).run disk =
        (disk, .ok reopened) ∧ reopened.inner = store.inner ∧
      reopened.dirtyIds = changedIds ∅ (log.drop count) ∧
      Live arith backend config process disk reopened log chain count start := by
  obtain ⟨reopened, opens, sameInner, indexes, dirty⟩ :=
    live.toHeld.opens durability positive readable
  refine ⟨reopened, opens, sameInner, dirty, ?_⟩
  exact { live with
    inner := sameInner.trans live.inner
    indexes := indexes
    dirty := fun id changed => by
      rw [dirty]
      exact contains_changedIds.mpr (.inr (ids_of_changedBetween changed)) }

/-- A batch whose frame was appended belongs to the history. -/
theorem append (live : Live arith backend config process disk store log chain count start)
    {write : Write}
    (appended : Appended arith store.inner.config (store.inner.sequence.toNat + 1) [write])
    (replays : replayWrite arith config write = .ok write) :
    Live arith backend config process
      (disk.write walName (walBytes (1 + start) ((log ++ [write]).drop start)))
      (store.committed write) (log ++ [write]) chain count start where
  toHeld := live.toHeld.append appended replays
  indexes := live.indexes
  dirty := dirty_committed live.dirty write
  unused := (write_apart _ _ (by simp)).trans live.unused

theorem write (live : Live arith backend config process disk store log chain count start)
    {request : Request}
    (replays : ∀ write, store.batch arith request = .ok write →
      replayWrite arith config write = .ok write) :
    (∃ error, (store.perform arith request).run disk = (disk, .error error)) ∨
    ∃ write sequence wal, store.batch arith request = .ok write ∧
      (store.perform arith request).run disk =
        (disk.write walName wal, .ok (store.committed write, sequence)) ∧
      Live arith backend config process (disk.write walName wal) (store.committed write)
        (log ++ [write]) chain count start := by
  rcases run_perform request live.onDisk.logged with
    ⟨write, sequence, isBatch, appended, runs⟩ | refused
  · rw [live.log_next] at runs
    exact .inr ⟨write, sequence, _, isBatch, runs, live.append appended (replays write isBatch)⟩
  · exact .inl refused

/-! ## Taking and building a flush -/

/-- A snapshot of a live collection holds its history, or what changed since its
segments. -/
theorem snapshot (live : Live arith backend config process disk store log chain count start)
    (order : IterationOrder) :
    Taken config log chain count log.length (store.flushSnapshot order) := by
  refine live.toHeld.snapshot order fun isDelta => ⟨fun empty => ?_, live.dirty⟩
  unfold PersistentCollection.flushSnapshot at isDelta
  simp [live.indexes, empty, chainIndexes] at isDelta

theorem write_temporary (live : Live arith backend config process disk store log chain count start)
    {name : String} (isTemporary : leading name = ['.', 's']) (bytes : Bytes) :
    Live arith backend config process (disk.write name bytes) store log chain count start :=
  { live with
    onDisk := live.onDisk.visible fun _ visible =>
      Disk.write_other _ _ (ne_of_visible visible (by simp [isTemporary]))
    unused := by
      rw [write_apart _ _ (by simp [isTemporary])]
      exact live.unused }

theorem build {snapshot : FlushSnapshot} {stamp : Stamp}
    (pending : Taken config log chain count taken snapshot)
    (unused : disk (temporarySegmentName snapshot.sequence stamp) = none) :
    (∃ bytes, (buildFlush backend snapshot stamp).run disk =
        (disk.write (temporarySegmentName snapshot.sequence stamp) bytes,
          .ok (preparedOf backend snapshot stamp)) ∧
      Ready backend config (disk.write (temporarySegmentName snapshot.sequence stamp) bytes) log
        chain count taken (preparedOf backend snapshot stamp) snapshot.items bytes) ∨
    (∀ bytes, ¬ Built backend config snapshot.items bytes) ∧
      ∃ error, (buildFlush backend snapshot stamp).run disk = (disk, .error error) := by
  have built : (∃ bytes, Built backend _ _ bytes ∧ _) ∨ _ := run_buildFlush unused pending.graphed
  rw [pending.sameConfig] at built
  rcases built with ⟨bytes, built, runs⟩ | refused
  · refine .inl ⟨bytes, runs, ?_⟩
    exact {
      temporary := leading_temporarySegmentName _ _
      file := Disk.write_same _ _ _
      built := built
      snapped := pending.snapped
      sameSequence := rfl
      sameKind := rfl
      based := pending.based }
  · exact .inr refused

/-! ## Publishing -/

theorem namesSegments (chain : List (DecodedSegment backend)) (count : Nat) :
    NamesSegments (baseManifest chain count) := by
  intro manifest found name member
  unfold baseManifest at found
  split at found
  · cases found
  · rw [← Option.some.inj found] at member
    simp only [chainManifest, manifestOf, List.map_map, List.mem_map] at member
    obtain ⟨decoded, -, rfl⟩ := member
    exact leading_segmentName decoded.sequence

section

variable (live : Live arith backend config process disk store log chain count start)

include live

theorem of_untouched
    {previous : Option Manifest} (untouched : Untouched prepared previous bytes disk other)
    (safe : ∀ decoded ∈ chain, decoded.sequence = prepared.sequence →
      ¬ Stale prepared previous → disk (segmentName prepared.sequence) = some bytes)
    (unused : other (manifestTemporaryName process) = none) :
    Live arith backend config process other store log chain count start :=
  { live with
    onDisk := live.onDisk.untouched untouched safe
    unused := unused }

theorem of_promoted (ready : Ready backend config disk log chain count taken prepared items bytes)
    (claims : Claims store prepared bytes decoded)
    (promoted : Promoted store prepared (baseManifest chain count) bytes disk other)
    (publishable : Publishable disk chain count taken prepared bytes) (ordered : count ≤ taken)
    (unused : other (manifestTemporaryName process) = none) {next : Nat}
    (logged : other walName = some (walBytes (1 + next) (log.drop next)))
    (overlap : next ≤ taken) :
    Live arith backend config process other (publishedStore store prepared decoded) log
      (nextChain prepared chain decoded) taken next where
  onDisk := live.onDisk.promoted live.recorded ready claims promoted publishable.later
    publishable.few logged overlap
  recorded := live.recorded
  replays := live.replays
  inner := (live.replace_eq ready
    (ready.stored live.recorded claims promoted.segment).2).trans live.inner
  indexes := by
    have sequenced : decoded.sequence = prepared.sequence := claims.2.2.1
    unfold publishedStore nextChain
    cases prepared.compact with
    | true => simp [chainIndexes, sequenced]
    | false => simp [chainIndexes_append_singleton, live.indexes, sequenced]
  dirty := by
    intro id changed
    have bounded := live.bounded
    have within := ready.snapped.within
    have later : store.latestSequence ≠ prepared.sequence := by
      intro same
      rw [live.latest, ready.sameSequence, ready.snapped.sequenced] at same
      have numbers := congrArg UInt64.toNat same
      rw [toNat_ofNat_of_lt bounded, toNat_ofNat_of_lt (by omega)] at numbers
      obtain ⟨position, -, low, high, -, -⟩ := changed
      omega
    unfold publishedStore
    rw [if_neg later]
    exact live.dirty id (changed.widen ordered le_rfl)
  unused := unused

theorem erase_temporary {name : String} (isTemporary : leading name = ['.', 's']) :
    Live arith backend config process (disk.erase name) store log chain count start :=
  { live with
    onDisk := live.onDisk.visible (.erase_hidden (by simp [isTemporary]))
    unused := by
      rw [erase_apart _ (by simp [isTemporary])]
      exact live.unused }

theorem publish_keeps {file : String} (isTemporary : leading file = ['.', 's'])
    (differ : file ≠ prepared.temporarySegment) :
    ((store.publishFlush process prepared).run disk).1 file = disk file := by
  rw [run_publishFlush live.readManifest_eq]
  exact (Disk.erase_other _ differ).trans
    (publishAfter_avoids (namesSegments chain count) isTemporary differ).run

theorem publish_stale (temporary : leading prepared.temporarySegment = ['.', 's'])
    (stale : Stale prepared (baseManifest chain count)) :
    ∃ sequence, (store.publishFlush process prepared).run disk =
        (disk.erase prepared.temporarySegment, .ok (store, sequence)) ∧
      Live arith backend config process (disk.erase prepared.temporarySegment) store log chain
        count start := by
  have finishes : ∃ sequence, publishAfter process store prepared (baseManifest chain count) = _ :=
    publishAfter_stale stale
  obtain ⟨sequence, finished⟩ := finishes
  refine ⟨sequence, ?_, live.erase_temporary temporary⟩
  rw [run_publishFlush live.readManifest_eq, finished]
  rfl

/-- A flush whose segment does not read back is given up. -/
theorem publish_refused
    (ready : Ready backend config disk log chain count taken prepared items bytes)
    (safe : ∀ decoded ∈ chain, decoded.sequence = prepared.sequence →
      disk (segmentName prepared.sequence) = some bytes)
    (fresh : ¬ Stale prepared (baseManifest chain count))
    (unclaimed : ∀ decoded, ¬ Claims store prepared bytes decoded) :
    ∃ error next, (store.publishFlush process prepared).run disk = (next, .error error) ∧
      Live arith backend config process next store log chain count start := by
  have refused : ∃ error, (store.publishSegment process prepared (baseManifest chain count)).run
      disk = _ := run_publishSegment_error ready.file unclaimed
  obtain ⟨error, refused⟩ := refused
  have moved : Live arith backend config process (renamed disk prepared bytes) store log chain
      count start := by
    refine live.of_untouched (untouched_renamed ready.temporary fresh)
      (fun decoded member same _ => safe decoded member same) ?_
    rw [renamed, write_apart _ _ (by simp), erase_apart _ (by simp [ready.temporary])]
    exact live.unused
  refine ⟨error, _, ?_, moved.erase_temporary ready.temporary⟩
  rw [run_publishFlush live.readManifest_eq, publishAfter_fresh fresh, refused]

/-- A flush whose segment reads back is published, and its log is cut when it
holds all of it. -/
theorem publish_ok (ready : Ready backend config disk log chain count taken prepared items bytes)
    (publishable : Publishable disk chain count taken prepared bytes)
    (fresh : ¬ Stale prepared (baseManifest chain count))
    (claims : Claims store prepared bytes decoded) :
    ∃ next cut, (store.publishFlush process prepared).run disk =
        (next, .ok (publishedStore store prepared decoded, prepared.sequence)) ∧
      Live arith backend config process next (publishedStore store prepared decoded) log
        (nextChain prepared chain decoded) taken cut ∧
      (taken = log.length → cut = log.length) := by
  have bounded := live.bounded
  have within := ready.snapped.within
  have sequenced : prepared.sequence = UInt64.ofNat taken :=
    ready.sameSequence.trans ready.snapped.sequenced
  have ordered : count ≤ taken := by
    rw [live.stale_iff sequenced within] at fresh
    omega
  have same : store.latestSequence = prepared.sequence ↔ taken = log.length := by
    rw [live.latest, sequenced, ← UInt64.toNat_inj, toNat_ofNat_of_lt bounded,
      toNat_ofNat_of_lt (by omega), eq_comm]
  have fits := ready.names_within claims publishable.few
  obtain ⟨next, runs, promoted, cut, kept, unused⟩ := run_publishSegment_ok ready.temporary
    (namesSegments chain count) ready.file live.onDisk.logged fresh live.unused fits claims
  have settled : ∃ cut, Live arith backend config process next
      (publishedStore store prepared decoded) log (nextChain prepared chain decoded) taken cut ∧
      (taken = log.length → cut = log.length) := by
    by_cases all : taken = log.length
    · refine ⟨log.length, ?_, fun _ => rfl⟩
      apply live.of_promoted ready claims promoted publishable ordered unused
      · rw [cut (same.mpr all), List.drop_length]
        rfl
      · exact all.ge
    · refine ⟨start, ?_, fun isAll => absurd isAll all⟩
      apply live.of_promoted ready claims promoted publishable ordered unused
      · exact kept fun agrees => all (same.mp agrees)
      · exact le_trans live.onDisk.overlap ordered
  obtain ⟨cut, published, whole⟩ := settled
  refine ⟨_, cut, ?_, published.erase_temporary ready.temporary, whole⟩
  rw [run_publishFlush live.readManifest_eq, publishAfter_fresh fresh, runs]

end

end Live

theorem Held.publish_crash (held : Held arith backend config disk store log chain count start)
    (ready : Ready backend config disk log chain count taken prepared items bytes)
    (publishable : ¬ Stale prepared (baseManifest chain count) →
      Publishable disk chain count taken prepared bytes)
    (crashed : other ∈ (store.publishFlush process prepared).crashStates disk) :
    ∃ segments reached cut, OnDisk backend config other log segments reached cut ∧
      count ≤ reached ∧ (cut = start ∨ cut = log.length) ∧
      (segments = chain ∨ ∃ decoded, segments = nextChain prepared chain decoded) := by
  have bounded := held.bounded
  have within := ready.snapped.within
  have sequenced : prepared.sequence = UInt64.ofNat taken :=
    ready.sameSequence.trans ready.snapped.sequenced
  rcases publishFlush_crash ready.temporary (Live.namesSegments chain count) ready.file
    held.onDisk.logged held.readManifest_eq crashed with untouched | ⟨fresh, ⟨decoded, claims⟩, promoted⟩
  · exact ⟨chain, count, start, held.onDisk.untouched untouched fun decoded member same fresh =>
      (publishable fresh).safe decoded member same, le_rfl, .inl rfl, .inl rfl⟩
  · have ordered : count ≤ taken := by
      rw [held.stale_iff sequenced within] at fresh
      omega
    have stores : ∀ {cut : Nat}, other walName = some (walBytes (1 + cut) (log.drop cut)) →
        cut ≤ taken → OnDisk backend config other log (nextChain prepared chain decoded) taken cut :=
      held.onDisk.promoted held.recorded ready claims promoted (publishable fresh).later
        (publishable fresh).few
    rcases promoted.log with same | ⟨latest, empty⟩
    · exact ⟨_, taken, start, stores (same.trans held.onDisk.logged)
        (le_trans held.onDisk.overlap ordered), ordered, .inl rfl, .inr ⟨decoded, rfl⟩⟩
    · have all : log.length = taken := by
        have numbers := congrArg UInt64.toNat (held.latest.symm.trans (latest.trans sequenced))
        rwa [toNat_ofNat_of_lt bounded, toNat_ofNat_of_lt (by omega)] at numbers
      refine ⟨_, taken, log.length, stores ?_ all.le, ordered, .inr rfl, .inr ⟨decoded, rfl⟩⟩
      rw [empty, List.drop_length]
      rfl

end Live

end FocalVector.Persistence
