import FocalVector.Persistence.AtRest

/-!
Contract: one directory and the processes that open it one after another.

A process opens the directory, writes, flushes, and exits or dies at any point of any
of these. What it leaves is opened by the next process, which may have the same id.
Two files that a process can leave are in the way of the next one: the temporary file
of the metadata stops every opening while there is no metadata, and a temporary
manifest stops every flush of a process with the same id.

Owns: `Lives`, and when the next process can open the directory and flush.

Does not own: operations that fail.
-/

namespace FocalVector.Persistence

open FocalVector.Foundation FocalVector.Engine LittleEndian

/-- A process with an open collection, and the counter of its flushes. -/
structure Handle (backend : IndexBackend) where
  process : Nat
  store : PersistentCollection backend
  nonce : Nat

/-- A directory, and the process that has it open. -/
structure Machine (backend : IndexBackend) where
  disk : Directory
  handle : Option (Handle backend)

def Handle.stamp {backend : IndexBackend} (handle : Handle backend) (timestamp : Nat) : Stamp :=
  ⟨handle.process, timestamp, handle.nonce⟩

def Handle.flush {backend : IndexBackend} (handle : Handle backend) (order : IterationOrder)
    (timestamp : Nat) : Fs (PersistentCollection backend × UInt64) :=
  handle.store.flush handle.process order (handle.stamp timestamp)

/-- No file is in the way of the next flush of a handle. -/
structure Handle.Unobstructed {backend : IndexBackend} (handle : Handle backend)
    (disk : Directory) (timestamp : Nat) : Prop where
  manifest : disk (manifestTemporaryName handle.process) = none
  segment : disk (temporarySegmentName handle.store.latestSequence (handle.stamp timestamp)) = none

/-- Recovery takes every batch that the request logs as it is. -/
def PersistentCollection.Replays {backend : IndexBackend} (arith : FloatArithmetic)
    (store : PersistentCollection backend) (request : Request) : Prop :=
  ∀ write, store.batch arith request = .ok write → Faithful arith store.inner.config write

/-- The machines that are reached from an empty directory, with crashes at any point. -/
inductive Lives (arith : FloatArithmetic) (backend : IndexBackend) (config : CollectionConfig) :
    Machine backend → Prop where
  | created : Lives arith backend config ⟨fun _ => none, none⟩
  | opens {disk next : Directory} {store : PersistentCollection backend} (process : Nat)
      (durability : Durability) (closed : Lives arith backend config ⟨disk, none⟩)
      (runs : (openCollection arith backend config durability).run disk = (next, .ok store)) :
      Lives arith backend config ⟨next, some ⟨process, store, 0⟩⟩
  | openCrashes {disk crash : Directory} (durability : Durability)
      (closed : Lives arith backend config ⟨disk, none⟩)
      (crashed : crash ∈ (openCollection arith backend config durability).crashStates disk) :
      Lives arith backend config ⟨crash, none⟩
  | writes {disk next : Directory} {handle : Handle backend} {after : PersistentCollection backend}
      {sequence : UInt64} (request : Request)
      (running : Lives arith backend config ⟨disk, some handle⟩)
      (replays : handle.store.Replays arith request)
      (runs : (handle.store.perform arith request).run disk = (next, .ok (after, sequence))) :
      Lives arith backend config ⟨next, some { handle with store := after }⟩
  | writeFails {disk next : Directory} {handle : Handle backend} {error : Error}
      (request : Request) (running : Lives arith backend config ⟨disk, some handle⟩)
      (runs : (handle.store.perform arith request).run disk = (next, .error error)) :
      Lives arith backend config ⟨next, some handle⟩
  | writeCrashes {disk crash : Directory} {handle : Handle backend} (request : Request)
      (running : Lives arith backend config ⟨disk, some handle⟩)
      (replays : handle.store.Replays arith request)
      (crashed : crash ∈ (handle.store.perform arith request).crashStates disk) :
      Lives arith backend config ⟨crash, none⟩
  | flushes {disk next : Directory} {handle : Handle backend} {after : PersistentCollection backend}
      {sequence : UInt64} (order : IterationOrder) (timestamp : Nat)
      (running : Lives arith backend config ⟨disk, some handle⟩)
      (room : handle.store.HasRoom disk order)
      (runs : (handle.flush order timestamp).run disk = (next, .ok (after, sequence))) :
      Lives arith backend config ⟨next, some ⟨handle.process, after, handle.nonce + 1⟩⟩
  | flushFails {disk next : Directory} {handle : Handle backend} {error : Error}
      (order : IterationOrder) (timestamp : Nat)
      (running : Lives arith backend config ⟨disk, some handle⟩)
      (room : handle.store.HasRoom disk order)
      (runs : (handle.flush order timestamp).run disk = (next, .error error)) :
      Lives arith backend config ⟨next, some { handle with nonce := handle.nonce + 1 }⟩
  | flushCrashes {disk crash : Directory} {handle : Handle backend} (order : IterationOrder)
      (timestamp : Nat) (running : Lives arith backend config ⟨disk, some handle⟩)
      (room : handle.store.HasRoom disk order)
      (crashed : crash ∈ (handle.flush order timestamp).crashStates disk) :
      Lives arith backend config ⟨crash, none⟩
  | exits {disk : Directory} {handle : Handle backend}
      (running : Lives arith backend config ⟨disk, some handle⟩) :
      Lives arith backend config ⟨disk, none⟩

section Living

variable {arith : FloatArithmetic} {backend : IndexBackend} {config : CollectionConfig}
  {disk crash : Directory} {store : PersistentCollection backend} {log : List Write}
  {chain : List (DecodedSegment backend)} {count start : Nat}

/-! ## What a process has open -/

/-- An open collection that knows its segments, over a log that is read to its end. -/
structure Running (arith : FloatArithmetic) (backend : IndexBackend) (config : CollectionConfig)
    (disk : Directory) (store : PersistentCollection backend) (log : List Write)
    (chain : List (DecodedSegment backend)) (count start : Nat) : Prop where
  held : Held arith backend config disk store log chain count start
  readable : Readable arith config count (1 + start) (log.drop start)
  linked : Linked store log chain count

theorem AtRest.of_onDisk (onDisk : OnDisk backend config disk log chain count start)
    (recorded : Recorded config 1 log)
    (replays : ∀ write ∈ log, replayWrite arith config write = .ok write)
    (readable : Readable arith config count (1 + start) (log.drop start))
    (single : chainIndexes backend chain = [] → chain.length ≤ 1) :
    AtRest arith backend config disk log chain count start where
  metadata := onDisk.metadata
  base := onDisk.base
  overlap := onDisk.overlap
  single := single
  logged := ⟨[], by rw [onDisk.logged, List.append_nil]; rfl, .inl rfl⟩
  recorded := recorded
  replays := replays
  readable := readable

namespace Running

section

variable (running : Running arith backend config disk store log chain count start)

include running

theorem single : chainIndexes backend chain = [] → chain.length ≤ 1 :=
  running.linked.indexes ▸ running.linked.single

theorem atRest : AtRest arith backend config disk log chain count start :=
  .of_onDisk running.held.onDisk running.held.recorded running.held.replays running.readable
    running.single

theorem append {write : Write}
    (appended : Appended arith store.inner.config (store.inner.sequence.toNat + 1) [write])
    (faithful : Faithful arith store.inner.config write) :
    Running arith backend config
      (disk.write walName (walBytes (1 + start) (log.drop start) ++
        walBytes (store.inner.sequence.toNat + 1) [write])) (store.committed write)
      (log ++ [write]) chain count start := by
  have held := running.held
  have within := held.onDisk.base.within
  have overlap := held.onDisk.overlap
  rw [held.sameConfig] at faithful
  rw [held.log_next]
  refine ⟨held.append appended faithful.2, ?_, running.linked.indexes,
    dirty_committed running.linked.dirty write, running.linked.single, fun atEnd => ?_⟩
  · rw [List.drop_append_of_le_length (by omega)]
    exact running.readable.append faithful
  · rw [List.length_append, List.length_singleton] at atEnd
    omega

end

/-- A reopened collection knows the segments of its directory. -/
theorem of_atRest (atRest : AtRest arith backend config disk log chain count start)
    (durability : Durability) :
    Running arith backend config (disk.write walName (walBytes (1 + start) (log.drop start)))
      ⟨history config log log.length, durability, chainIndexes backend chain,
        baseIndex backend config log chain count, changedIds ∅ (log.drop count)⟩
      log chain count start where
  held := ⟨atRest.onDisk, atRest.recorded, atRest.replays, rfl⟩
  readable := atRest.readable
  linked := {
    indexes := rfl
    dirty := fun id changed => contains_changedIds.mpr (.inr (ids_of_changedBetween changed))
    single := atRest.single
    clean := fun atEnd => by
      rw [atEnd, List.drop_length]
      rfl }

/-! ## Writing -/

theorem appendFrame_crash {wal payload : Bytes} {durability : Durability}
    (found : disk walName = some wal) (small : payload.length < 2 ^ 32)
    (crashed : crash ∈ (appendFrame durability payload).crashStates disk) :
    ∃ kept, crash = disk.write walName (wal ++ (walFormat.frame payload).take kept) := by
  unfold appendFrame at crashed
  rw [if_pos small] at crashed
  rcases Program.mem_crashStates_bind.mp crashed with reading | ⟨next, old, reads, late⟩
  · refine ⟨0, (readFile_crash reading).trans ?_⟩
    rw [List.take_zero, List.append_nil, Disk.write_self found]
  obtain rfl := readFile_crash (Program.mem_crashStates_of_run reads)
  have whole : (do
      appendFile walName (walFormat.frame payload)
      settleLog durability : Fs Unit).run next =
      (next.write walName (wal ++ walFormat.frame payload), .ok ()) := by
    rw [Program.run_bind_ok (run_appendFile found)]
    cases durability <;> rfl
  rcases Program.mem_crashStates_settle late with appending | finished
  · rcases Program.mem_crashStates_bind.mp appending with early | ⟨after, _, appends, settling⟩
    · exact appendFile_crash found early
    · rw [run_appendFile found, Prod.mk.injEq] at appends
      refine ⟨(walFormat.frame payload).length, ?_⟩
      rw [List.take_length, appends.1]
      refine Program.crash_of_avoids_all (fun _ => ?_) settling
      cases durability with
      | sync => exact avoids_io (by simp [FileOp.targets])
      | flush => exact .pure _
  · rw [whole] at finished
    exact ⟨(walFormat.frame payload).length, by
      rw [List.take_length]; exact List.mem_singleton.mp finished⟩

theorem perform_crash {wal : Bytes} {request : Request} (found : disk walName = some wal)
    (crashed : crash ∈ (store.perform arith request).crashStates disk) :
    crash = disk ∨ ∃ write kept, store.batch arith request = .ok write ∧
      Appended arith store.inner.config (store.inner.sequence.toNat + 1) [write] ∧
      crash = disk.write walName
        (wal ++ (walBytes (store.inner.sequence.toNat + 1) [write]).take kept) := by
  rcases perform_cases arith store request with ⟨error, isRaise⟩ |
    ⟨write, sequence, payload, isBatch, granted, accepted, encoded, isAppend⟩
  · rw [isRaise] at crashed
    exact .inl (List.mem_singleton.mp crashed)
  · rw [isAppend] at crashed
    by_cases small : payload.length < 2 ^ 32
    · obtain ⟨-, -, isRecord⟩ := encodeWrite_eq_ok encoded
      have appending : crash ∈ (appendFrame store.durability payload).crashStates disk := by
        rcases Program.mem_crashStates_bind.mp crashed with early | ⟨next, _, appends, finished⟩
        · exact early
        · rw [List.mem_singleton.mp finished]
          exact Program.mem_crashStates_of_run appends
      obtain ⟨kept, isCrash⟩ := appendFrame_crash found small appending
      rw [isRecord, ofNat_nextSequence granted, ← walBytes_singleton] at isCrash
      exact .inr ⟨write, kept, isBatch, appended_singleton granted accepted encoded small, isCrash⟩
    · left
      unfold appendFrame at crashed
      rw [if_neg small] at crashed
      exact List.mem_singleton.mp crashed

theorem write (running : Running arith backend config disk store log chain count start)
    {request : Request} (replays : store.Replays arith request) :
    (∃ error, (store.perform arith request).run disk = (disk, .error error)) ∨
    ∃ next write sequence, (store.perform arith request).run disk =
        (next, .ok (store.committed write, sequence)) ∧
      Running arith backend config next (store.committed write) (log ++ [write]) chain count
        start := by
  rcases run_perform request running.held.onDisk.logged with
    ⟨write, sequence, isBatch, appended, runs⟩ | refused
  · exact .inr ⟨_, write, sequence, runs, running.append appended (replays write isBatch)⟩
  · exact .inl refused

theorem write_crash (running : Running arith backend config disk store log chain count start)
    {request : Request} (replays : store.Replays arith request)
    (crashed : crash ∈ (store.perform arith request).crashStates disk) :
    ∃ log, AtRest arith backend config crash log chain count start := by
  have held := running.held
  rcases perform_crash held.onDisk.logged crashed with
    rfl | ⟨write, kept, isBatch, appended, rfl⟩
  · exact ⟨log, running.atRest⟩
  have faithful := replays write isBatch
  by_cases whole : (walBytes (store.inner.sequence.toNat + 1) [write]).length ≤ kept
  · rw [List.take_of_length_le whole]
    exact ⟨_, (running.append appended faithful).atRest⟩
  · exact ⟨log, running.atRest.write_log rfl (torn_walBytes faithful.1.2 _ (not_le.mp whole))⟩

/-! ## Flushing -/

variable {process : Nat} {order : IterationOrder} {stamp : Stamp}

theorem planned (running : Running arith backend config disk store log chain count start)
    (busy : ¬ store.Settled) (order : IterationOrder) : Planned store log chain count order :=
  running.linked.planned busy running.held.onDisk.base.within order

theorem flush_settled (settled : store.Settled) :
    store.flush process order stamp = pure (store, store.latestSequence) := if_pos settled

theorem flush_busy (busy : ¬ store.Settled) :
    store.flush process order stamp =
      buildFlush backend (store.flushSnapshot order) stamp >>= fun prepared =>
        store.publishFlush process prepared := if_neg busy

variable (process order) in
theorem flush_used {old : Bytes} (busy : ¬ store.Settled)
    (used : disk (temporarySegmentName store.latestSequence stamp) = some old) :
    ∃ next error, (store.flush process order stamp).run disk = (next, .error error) ∧
      SameVisible disk next := by
  obtain ⟨next, error, fails⟩ := run_buildFlush_used (store.flushSnapshot order) used
  rw [flush_busy busy, Program.run_bind_error fails]
  refine ⟨next, error, rfl, fun file visible => ?_⟩
  have kept : ((buildFlush backend (store.flushSnapshot order) stamp).run disk).1 file =
      disk file := (buildFlush_avoids (ne_of_visible visible (by simp))).run
  rwa [fails] at kept

section

variable (running : Running arith backend config disk store log chain count start)

include running

theorem visible {other : Directory} (same : SameVisible disk other) :
    Running arith backend config other store log chain count start :=
  ⟨{ running.held with onDisk := running.held.onDisk.visible same }, running.readable,
    running.linked⟩

theorem flush (room : store.HasRoom disk order) :
    (∃ next error, (store.flush process order stamp).run disk = (next, .error error) ∧
      Running arith backend config next store log chain count start) ∨
    ∃ next after sequence segments reached cut,
      (store.flush process order stamp).run disk = (next, .ok (after, sequence)) ∧
        Running arith backend config next after log segments reached cut := by
  by_cases settled : store.Settled
  · rw [flush_settled settled]
    exact .inr ⟨disk, store, _, chain, count, start, rfl, running⟩
  cases used : disk (temporarySegmentName store.latestSequence stamp) with
  | some old =>
    obtain ⟨next, error, fails, same⟩ := flush_used process order settled used
    exact .inl ⟨next, error, fails, running.visible same⟩
  | none =>
    have planned := running.planned settled order
    rw [flush_busy settled]
    rcases planned.builds running.held room settled used with
      ⟨bytes, staged⟩ | ⟨-, error, fails⟩
    · rw [Program.run_bind_ok staged.builds]
      by_cases published : (∃ decoded,
          Claims store (preparedOf backend (store.flushSnapshot order) stamp) bytes decoded) ∧
        disk (manifestTemporaryName process) = none
      · obtain ⟨⟨decoded, claims⟩, free⟩ := published
        obtain ⟨next, runs, promoted⟩ := staged.publish_succeeds free claims
        have swapped : (publishedStore store
            (preparedOf backend (store.flushSnapshot order) stamp) decoded).inner =
            store.inner.replacePersistedPoints decoded.points := rfl
        obtain ⟨cut, held, readable⟩ := staged.held.promote running.readable staged.ready
          staged.publishable claims promoted (.inr swapped)
        exact .inr ⟨next, _, _, _, _, cut, runs, held, readable, planned.published claims⟩
      · have blocked : (∀ decoded, ¬ Claims store
              (preparedOf backend (store.flushSnapshot order) stamp) bytes decoded) ∨
            ∃ old, disk (manifestTemporaryName process) = some old := by
          rw [not_and_or, not_exists] at published
          exact published.imp id Option.ne_none_iff_exists'.mp
        obtain ⟨error, fails⟩ := staged.publish_fails blocked
        exact .inl ⟨_, error, fails, staged.held_givenUp, running.readable, running.linked⟩
    · rw [Program.run_bind_error fails]
      exact .inl ⟨disk, error, rfl, running⟩

theorem flush_succeeds_iff (room : store.HasRoom disk order)
    (storable : Storable backend config (store.flushSnapshot order).items) :
    (∃ next after sequence, (store.flush process order stamp).run disk =
        (next, .ok (after, sequence))) ↔
      store.Settled ∨ (disk (manifestTemporaryName process) = none ∧
        disk (temporarySegmentName store.latestSequence stamp) = none) := by
  by_cases settled : store.Settled
  · rw [flush_settled settled]
    exact ⟨fun _ => .inl settled, fun _ => ⟨_, _, _, rfl⟩⟩
  cases used : disk (temporarySegmentName store.latestSequence stamp) with
  | some old =>
    obtain ⟨next, error, fails, -⟩ := flush_used process order settled used
    rw [fails]
    simp [settled]
  | none =>
    obtain ⟨stored, decoded, built, decodes⟩ := storable
    rw [flush_busy settled]
    rcases (running.planned settled order).builds running.held room settled used with
      ⟨bytes, staged⟩ | ⟨unbuilt, -⟩
    · rw [Program.run_bind_ok staged.builds]
      rw [built.unique staged.ready.built] at decodes
      have claims := staged.ready.claims running.held.recorded running.held.sameConfig decodes
      constructor
      · rintro ⟨next, after, sequence, runs⟩
        refine .inr ⟨?_, rfl⟩
        by_contra taken
        obtain ⟨error, fails⟩ :=
          staged.publish_fails (.inr (Option.ne_none_iff_exists'.mp taken))
        rw [fails] at runs
        cases runs
      · intro free
        obtain ⟨next, runs, -⟩ := staged.publish_succeeds (free.resolve_left settled).1 claims
        exact ⟨next, _, _, runs⟩
    · exact absurd built (unbuilt stored)

theorem publish_crash {bytes : Bytes}
    (staged : Staged arith backend config disk store log chain count start order stamp bytes)
    (crashed : crash ∈ (store.publishFlush process
      (preparedOf backend (store.flushSnapshot order) stamp)).crashStates
        (disk.write (temporarySegmentName store.latestSequence stamp) bytes)) :
    ∃ segments reached cut, AtRest arith backend config crash log segments reached cut := by
  obtain ⟨segments, reached, cut, onDisk, further, cuts, kind⟩ :=
    staged.held.publish_crash staged.ready (fun _ => staged.publishable) crashed
  refine ⟨segments, reached, cut, .of_onDisk onDisk running.held.recorded running.held.replays
    ?_ ?_⟩
  · rcases cuts with rfl | rfl
    · exact running.readable.advance further
    · exact ⟨by simp, by simp⟩
  · rcases kind with rfl | ⟨decoded, rfl⟩
    · exact running.single
    · intro graphless
      cases kind : (preparedOf backend (store.flushSnapshot order) stamp).compact with
      | true =>
        rw [nextChain_of_compact kind]
        exact le_rfl
      | false =>
        have indexed : chainIndexes backend chain ≠ [] := by
          rw [← running.linked.indexes]
          exact Sequential.indexed_of_delta order kind
        rw [nextChain_of_delta kind, chainIndexes_append_singleton] at graphless
        unfold pushIndex at graphless
        split at graphless
        · exact absurd graphless indexed
        · simp at graphless

theorem flush_crash (room : store.HasRoom disk order)
    (crashed : crash ∈ (store.flush process order stamp).crashStates disk) :
    ∃ segments reached cut, AtRest arith backend config crash log segments reached cut := by
  by_cases settled : store.Settled
  · rw [flush_settled settled] at crashed
    rw [List.mem_singleton.mp crashed]
    exact ⟨chain, count, start, running.atRest⟩
  rw [flush_busy settled] at crashed
  rcases Program.mem_crashStates_bind.mp crashed with building | ⟨built, prepared, builds, publishing⟩
  · have same : SameVisible disk crash := fun file visible =>
      (buildFlush_avoids (ne_of_visible visible (by simp))).crash building
    exact ⟨chain, count, start, (running.visible same).atRest⟩
  cases used : disk (temporarySegmentName store.latestSequence stamp) with
  | some old =>
    obtain ⟨next, error, fails⟩ := run_buildFlush_used (store.flushSnapshot order) used
    rw [fails] at builds
    cases builds
  | none =>
    rcases (running.planned settled order).builds running.held room settled used with
      ⟨bytes, staged⟩ | ⟨-, error, fails⟩
    · rw [staged.builds] at builds
      cases builds
      exact running.publish_crash staged publishing
    · rw [fails] at builds
      cases builds

end

end Running

/-! ## Every life -/

/-- What holds of a directory and the process that has it open. -/
inductive Kept (arith : FloatArithmetic) (backend : IndexBackend) (config : CollectionConfig) :
    Machine backend → Prop where
  | unborn {disk : Directory} (unborn : Unborn disk) : Kept arith backend config ⟨disk, none⟩
  | atRest {disk : Directory} {log : List Write} {chain : List (DecodedSegment backend)}
      {count start : Nat} (atRest : AtRest arith backend config disk log chain count start) :
      Kept arith backend config ⟨disk, none⟩
  | running {disk : Directory} {handle : Handle backend} {log : List Write}
      {chain : List (DecodedSegment backend)} {count start : Nat}
      (running : Running arith backend config disk handle.store log chain count start) :
      Kept arith backend config ⟨disk, some handle⟩

theorem Lives.kept (positive : config.dimension ≠ 0) {machine : Machine backend}
    (lives : Lives arith backend config machine) : Kept arith backend config machine := by
  induction lives with
  | created => exact .unborn ⟨rfl, rfl, rfl⟩
  | opens process durability closed runs closedKept =>
    cases closedKept with
    | unborn unborn =>
      rcases unborn.opens_or_fails positive with ⟨-, opened⟩ | ⟨-, fails⟩
      · rw [opened] at runs
        cases runs
        exact .running (.of_atRest (unborn.withMetadata arith backend config) durability)
      · rw [fails] at runs
        cases runs
    | atRest atRest =>
      rw [atRest.opens positive] at runs
      cases runs
      exact .running (.of_atRest atRest durability)
  | openCrashes durability closed crashed closedKept =>
    cases closedKept with
    | unborn unborn =>
      rcases unborn.open_crash positive crashed with still | stored
      · exact .unborn still
      · exact .atRest stored
    | atRest atRest => exact .atRest (atRest.open_crash positive crashed)
  | writes request running replays runs runningKept =>
    cases runningKept with
    | running kept =>
      rcases kept.write replays with ⟨error, fails⟩ | ⟨next, write, sequence, succeeds, kept⟩
      · rw [fails] at runs
        cases runs
      · rw [succeeds] at runs
        cases runs
        exact .running kept
  | writeFails request running runs runningKept =>
    cases runningKept with
    | running kept =>
      rcases run_perform request kept.held.onDisk.logged with
        ⟨write, sequence, -, -, succeeds⟩ | ⟨error, fails⟩
      · rw [succeeds] at runs
        cases runs
      · rw [fails] at runs
        cases runs
        exact .running kept
  | writeCrashes request running replays crashed runningKept =>
    cases runningKept with
    | running kept =>
      obtain ⟨log, atRest⟩ := kept.write_crash replays crashed
      exact .atRest atRest
  | flushes order timestamp running room runs runningKept =>
    cases runningKept with
    | running kept =>
      rcases kept.flush room with ⟨next, error, fails, -⟩ |
        ⟨next, after, sequence, segments, reached, cut, succeeds, published⟩
      · rw [Handle.flush, fails] at runs
        cases runs
      · rw [Handle.flush, succeeds] at runs
        cases runs
        exact .running published
  | flushFails order timestamp running room runs runningKept =>
    cases runningKept with
    | running kept =>
      rcases kept.flush room with ⟨next, error, fails, failed⟩ |
        ⟨next, after, sequence, segments, reached, cut, succeeds, -⟩
      · rw [Handle.flush, fails] at runs
        cases runs
        exact .running failed
      · rw [Handle.flush, succeeds] at runs
        cases runs
  | flushCrashes order timestamp running room crashed runningKept =>
    cases runningKept with
    | running kept =>
      obtain ⟨segments, reached, cut, atRest⟩ := kept.flush_crash room crashed
      exact .atRest atRest
  | exits running runningKept =>
    cases runningKept with
    | running kept => exact .atRest kept.atRest

/-! ## The next process -/

/-- Nothing is in the way of an opening: there is metadata, or no temporary file of it. -/
def Openable (disk : Directory) : Prop :=
  disk metaName ≠ none ∨ disk metaTemporaryName = none

/-- A directory that a process left opens exactly when nothing is in the way. -/
theorem Lives.opens_iff (positive : config.dimension ≠ 0)
    (lives : Lives arith backend config ⟨disk, none⟩) (durability : Durability) :
    (∃ next store, (openCollection arith backend config durability).run disk =
      (next, .ok store)) ↔ Openable disk := by
  have kept := lives.kept positive
  cases kept with
  | unborn unborn =>
    rcases unborn.opens_or_fails positive with ⟨unused, opens⟩ | ⟨used, fails⟩
    · exact ⟨fun _ => .inr unused, fun _ => ⟨_, _, opens⟩⟩
    · rw [fails]
      simp [Openable, unborn.metadata, used]
  | atRest atRest =>
    refine ⟨fun _ => .inl ?_, fun _ => ⟨_, _, atRest.opens positive⟩⟩
    rw [atRest.metadata]
    simp

/-- After any crashes, the next process opens the directory unless the temporary file of
the metadata stands without the metadata, and a flush whose manifest has room and whose
segment reads back succeeds unless there is something to do and a file is in its way. -/
theorem next_process_continues_iff (positive : config.dimension ≠ 0) :
    (∀ disk durability, Lives arith backend config ⟨disk, none⟩ →
      ((∃ next store, (openCollection arith backend config durability).run disk =
        (next, .ok store)) ↔ Openable disk)) ∧
    ∀ disk handle order timestamp, Lives arith backend config ⟨disk, some handle⟩ →
      handle.store.HasRoom disk order →
      Storable backend config (handle.store.flushSnapshot order).items →
      ((∃ next after sequence, (handle.flush order timestamp).run disk =
        (next, .ok (after, sequence))) ↔
        handle.store.Settled ∨ handle.Unobstructed disk timestamp) := by
  refine ⟨fun disk durability lives => lives.opens_iff positive durability, ?_⟩
  intro disk handle order timestamp lives room storable
  have kept := lives.kept positive
  cases kept with
  | running running =>
    rw [Handle.flush, running.flush_succeeds_iff room storable]
    exact or_congr_right ⟨fun free => ⟨free.1, free.2⟩, fun free => ⟨free.manifest, free.segment⟩⟩

/-- A process dies while it publishes its first manifest. The next one has another id and
flushes. -/
theorem other_process_continues :
    let config : CollectionConfig := ⟨1, .euclidean, by decide⟩
    let opening := openCollection .normalised .flat config .sync
    ∃ crash ∈ ((newStore .flat config .sync).flush 7 .sorted ⟨7, 0, 0⟩).crashStates
        (newDirectory config),
      crash (manifestTemporaryName 7) ≠ none ∧
      ∃ next store, opening.run crash = (next, .ok store) ∧
        ∃ final after sequence, (store.flush 8 .sorted ⟨8, 1, 0⟩).run next =
          (final, .ok (after, sequence)) := by
  intro config opening
  have positive : config.dimension ≠ 0 := by decide
  have opened : Lives .normalised .flat config
      ⟨newDirectory config, some ⟨7, newStore .flat config .sync, 0⟩⟩ :=
    .opens 7 .sync .created (run_openCollection_empty positive)
  have dies : (((newStore .flat config .sync).flush 7 .sorted ⟨7, 0, 0⟩).crashStates
      (newDirectory config)).any (fun crash =>
        (opening.run crash).2.toOption.any fun store : PersistentCollection .flat =>
          decide (crash (manifestTemporaryName 7) ≠ none ∧
            (store.flushSnapshot .sorted).points = [] ∧ store.latestSequence = 0 ∧
            store.indexes.isEmpty = true ∧
            (opening.run crash).1 (manifestTemporaryName 8) = none ∧
            (opening.run crash).1 (temporarySegmentName store.latestSequence ⟨8, 1, 0⟩) = none)) =
      true := by
    decide +kernel
  obtain ⟨crash, member, reopens⟩ := List.any_eq_true.mp dies
  obtain ⟨store, isOpen, facts⟩ := (Option.any_eq_true _ _).mp reopens
  obtain ⟨left, pointless, initial, graphless, manifest, segment⟩ := of_decide_eq_true facts
  have opens : opening.run crash = ((opening.run crash).1, .ok store) :=
    Prod.ext rfl (eq_ok_of_toOption isOpen)
  have items : (store.flushSnapshot .sorted).items = ⟨0, true, [], []⟩ := by
    unfold PersistentCollection.flushSnapshot at pointless ⊢
    simp [FlushSnapshot.items, graphless, initial]
    exact pointless
  have storable : Storable .flat config (store.flushSnapshot .sorted).items := by
    have reads : ((putSegment .flat config ⟨0, true, [], []⟩ ⟨1, .euclidean, []⟩).bytes >>=
        fun output => decodeSegment .flat (withChecksum output)).isOk = true := by
      decide +kernel
    obtain ⟨decoded, reads⟩ := exists_ok_of_isOk reads
    obtain ⟨output, written, decodes⟩ := Result.of_bind_ok reads
    rw [items]
    exact ⟨_, decoded, ⟨_, output, rfl, written, rfl⟩, decodes⟩
  have died : Lives .normalised .flat config ⟨crash, none⟩ :=
    .flushCrashes .sorted 0 opened (.inr (.inl rfl)) member
  have reopened : Lives .normalised .flat config ⟨(opening.run crash).1, some ⟨8, store, 0⟩⟩ :=
    .opens 8 .sync died opens
  have compact : (store.flushSnapshot .sorted).compact = true := by
    simp [PersistentCollection.flushSnapshot, graphless]
  have flushes := ((next_process_continues_iff positive).2 _ _ .sorted 1 reopened
    (.inr (.inl compact)) storable).mpr (.inr ⟨manifest, segment⟩)
  exact ⟨crash, member, left, _, store, opens, flushes⟩

/-- A process dies while it makes the metadata, and no process opens the directory again.
Another dies while it publishes a manifest, and a process with the same id opens the
directory and cannot flush. -/
theorem leftover_files_block_next_process :
    let config : CollectionConfig := ⟨1, .euclidean, by decide⟩
    let opening := openCollection .normalised .flat config .sync
    (∃ crash ∈ opening.crashStates (fun _ => none), (opening.run crash).2.isOk = false) ∧
    ∃ crash ∈ ((newStore .flat config .sync).flush 7 .sorted ⟨7, 0, 0⟩).crashStates
        (newDirectory config),
      ∃ next store, opening.run crash = (next, .ok store) ∧
        ((store.flush 7 .sorted ⟨7, 1, 0⟩).run next).2.isOk = false := by
  intro config opening
  have blocks : (opening.crashStates (fun _ => none)).any (fun crash =>
      !(opening.run crash).2.isOk) = true := by
    decide +kernel
  have stops : (((newStore .flat config .sync).flush 7 .sorted ⟨7, 0, 0⟩).crashStates
      (newDirectory config)).any (fun crash =>
        (opening.run crash).2.toOption.any fun store : PersistentCollection .flat =>
          !((store.flush 7 .sorted ⟨7, 1, 0⟩).run (opening.run crash).1).2.isOk) = true := by
    decide +kernel
  obtain ⟨unopened, diesOpening, fails⟩ := List.any_eq_true.mp blocks
  obtain ⟨crash, diesFlushing, reopens⟩ := List.any_eq_true.mp stops
  obtain ⟨store, isOpen, refused⟩ := (Option.any_eq_true _ _).mp reopens
  exact ⟨⟨unopened, diesOpening, by simpa using fails⟩, crash, diesFlushing, _, store,
    Prod.ext rfl (eq_ok_of_toOption isOpen), by simpa using refused⟩

end Living

end FocalVector.Persistence
