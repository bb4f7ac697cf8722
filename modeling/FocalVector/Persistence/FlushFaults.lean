import FocalVector.Persistence.FlushCrash
import FocalVector.Persistence.Plans
import FocalVector.Persistence.PublicationFaults

/-!
Contract: flushing again after a flush that failed.

As long as the old manifest is in place the next flush does the same again. Behind
the rename of the manifest the next flush is taken at the sequence that the manifest
has already: a full segment replaces itself, but a delta is listed a second time, and
no such manifest is read back.

Owns: sequences of flushes with faults, and when flushing again is safe.

Does not own: what one publication with faults can leave.
-/

namespace FocalVector.Persistence

open FocalVector.Foundation FocalVector.Engine LittleEndian

/-! ## Flushing again -/

structure FlushCall where
  order : IterationOrder
  timestamp : Nat
  fates : List Fate

/-- A directory, the collection that is open on it, and the counter of its flushes. -/
structure RetryState (backend : IndexBackend) where
  disk : Directory
  store : PersistentCollection backend
  nonce : Nat

namespace RetryState

variable {backend : IndexBackend} (process : Nat) (state : RetryState backend)

def stamp (call : FlushCall) : Stamp := ⟨process, call.timestamp, state.nonce⟩

/-- The flush that is published once its segment was built. -/
def prepared (call : FlushCall) : PreparedFlush backend :=
  preparedOf backend (state.store.flushSnapshot call.order) (state.stamp process call)

def built (call : FlushCall) (bytes : Bytes) : Directory :=
  state.disk.write (state.prepared process call).temporarySegment bytes

/-- `PersistentCollection::flush` with faults. -/
def call (call : FlushCall) : RetryState backend × Result UInt64 :=
  let flushed := state.store.flushFated process call.order (state.stamp process call) call.fates
    state.disk
  (⟨flushed.1, flushed.2.1, state.nonce + 1⟩, flushed.2.2)

variable {process state} in
theorem call_settled (settled : state.store.Settled) (call : FlushCall) :
    state.call process call =
      (⟨state.disk, state.store, state.nonce + 1⟩, .ok state.store.latestSequence) := by
  unfold RetryState.call PersistentCollection.flushFated
  rw [if_pos settled]

variable {process state} in
theorem call_unbuilt (busy : ¬ state.store.Settled) {call : FlushCall} {left : Directory}
    {error : Error}
    (fails : (buildFlush backend (state.store.flushSnapshot call.order)
      (state.stamp process call)).run state.disk = (left, .error error)) :
    state.call process call = (⟨left, state.store, state.nonce + 1⟩, .error error) := by
  unfold RetryState.call PersistentCollection.flushFated
  rw [if_neg busy, fails]

variable {process state} in
theorem call_built (busy : ¬ state.store.Settled) {call : FlushCall} {bytes : Bytes}
    (builds : (buildFlush backend (state.store.flushSnapshot call.order)
      (state.stamp process call)).run state.disk =
        (state.built process call bytes, .ok (state.prepared process call)))
    {other : Directory} {left : PersistentCollection backend} {result : Result UInt64}
    (publishes : state.store.publishFlushFated process (state.prepared process call) call.fates
      (state.built process call bytes) = (other, left, result)) :
    state.call process call = (⟨other, left, state.nonce + 1⟩, result) := by
  unfold RetryState.call PersistentCollection.flushFated
  rw [if_neg busy, builds]
  simp only [publishes]

def run (calls : List FlushCall) : RetryState backend :=
  calls.foldl (fun current call => (current.call process call).1) state

/-- The manifest has room, and a flush that writes a delta does not fail behind the rename of
its manifest. -/
def Meets (call : FlushCall) : Prop :=
  state.store.HasRoom state.disk call.order ∧
    ((state.store.flushSnapshot call.order).compact = true ∨ ¬ FailsBehindManifest call.fates)

def MeetsAll (state : RetryState backend) : List FlushCall → Prop
  | [] => True
  | call :: calls => state.Meets call ∧ (state.call process call).1.MeetsAll calls

end RetryState

section Retrying

variable {arith : FloatArithmetic} {backend : IndexBackend} {config : CollectionConfig}
  {process : Nat} {state : RetryState backend} {log : List Write}
  {chain : List (DecodedSegment backend)} {count start : Nat}
  {store : PersistentCollection backend}

/-- The collection knows the segments of its directory, or it does not but its flushes
compact and the directory has at most one segment. -/
def Related (store : PersistentCollection backend) (log : List Write)
    (chain : List (DecodedSegment backend)) (count : Nat) : Prop :=
  Linked store log chain count ∨
    (∀ order, (store.flushSnapshot order).compact = true) ∧ chain.length ≤ 1

/-- What holds between the calls. -/
structure Retryable (arith : FloatArithmetic) (config : CollectionConfig) (process : Nat)
    (state : RetryState backend) (log : List Write) (chain : List (DecodedSegment backend))
    (count start : Nat) : Prop where
  held : Held arith backend config state.disk state.store log chain count start
  readable : Readable arith config count (1 + start) (log.drop start)
  related : Related state.store log chain count
  free : ∀ sequence timestamp nonce, state.nonce ≤ nonce →
    state.disk (temporarySegmentName sequence ⟨process, timestamp, nonce⟩) = none

theorem Related.planned (related : Related store log chain count) (busy : ¬ store.Settled)
    (within : count ≤ log.length) (order : IterationOrder) :
    Planned store log chain count order := by
  rcases related with linked | ⟨compacts, short⟩
  · exact linked.planned busy within order
  · have never (isDelta : (store.flushSnapshot order).compact = false) : False := by
      rw [compacts order] at isDelta
      cases isDelta
    exact {
      covers := fun isDelta => (never isDelta).elim
      linked := fun isDelta => (never isDelta).elim
      later := fun isDelta => (never isDelta).elim
      reached := fun _ => ⟨compacts order, short⟩ }

/-! ## One flush -/

section Publication

variable {disk other : Directory} {left : PersistentCollection backend}
  {prepared : PreparedFlush backend} {items : SegmentItems} {bytes : Bytes}
  {decoded : DecodedSegment backend}

theorem Planned.publish {order : IterationOrder} {stamp : Stamp}
    (planned : Planned store log chain count order)
    (held : Held arith backend config disk store log chain count start)
    (readable : Readable arith config count (1 + start) (log.drop start))
    (ready : Ready backend config disk log chain count log.length
      (preparedOf backend (store.flushSnapshot order) stamp) items bytes)
    (publishable : Publishable disk chain count log.length
      (preparedOf backend (store.flushSnapshot order) stamp) bytes)
    {fates : List Fate} {result : Result UInt64}
    (outcome : Outcome fates store (preparedOf backend (store.flushSnapshot order) stamp)
      (baseManifest chain count) bytes disk other left result) :
    ∃ segments reached cut,
      Held arith backend config other left log segments reached cut ∧
      Readable arith config reached (1 + cut) (log.drop cut) ∧
      (left.indexes = store.indexes ∧ left.dirtyIds = store.dirtyIds ∧ segments = chain ∧
          reached = count ∨
        left.indexes = store.indexes ∧ reached = log.length ∧ FailsBehindManifest fates ∧
          (∃ decoded, segments = nextChain
            (preparedOf backend (store.flushSnapshot order) stamp) chain decoded) ∨
        Linked left log segments reached) := by
  cases outcome with
  | untouched untouched =>
    exact ⟨chain, count, start, held.untouched untouched publishable.safe, readable,
      .inl ⟨rfl, rfl, rfl, rfl⟩⟩
  | halfway decoded claims promoted kept late =>
    have sameInner : left.inner = store.inner ∨
        left.inner = store.inner.replacePersistedPoints decoded.points :=
      kept.imp (congrArg PersistentCollection.inner) (congrArg PersistentCollection.inner)
    have sameIndexes : left.indexes = store.indexes :=
      kept.elim (congrArg PersistentCollection.indexes) (congrArg PersistentCollection.indexes)
    obtain ⟨cut, after, readableAfter⟩ :=
      held.promote readable ready publishable claims promoted sameInner
    exact ⟨_, _, cut, after, readableAfter, .inr (.inl ⟨sameIndexes, rfl, late, decoded, rfl⟩)⟩
  | published decoded claims promoted =>
    have swapped : (publishedStore store (preparedOf backend (store.flushSnapshot order) stamp)
        decoded).inner = store.inner.replacePersistedPoints decoded.points := rfl
    obtain ⟨cut, after, readableAfter⟩ :=
      held.promote readable ready publishable claims promoted (.inr swapped)
    exact ⟨_, _, cut, after, readableAfter, .inr (.inr (planned.published claims))⟩

end Publication

theorem compact_congr {left : PersistentCollection backend} (indexes : left.indexes = store.indexes)
    (order : IterationOrder) {other : IterationOrder} :
    (left.flushSnapshot order).compact = (store.flushSnapshot other).compact := by
  unfold PersistentCollection.flushSnapshot
  rw [indexes]

theorem Related.congr {left : PersistentCollection backend}
    (related : Related store log chain count) (indexes : left.indexes = store.indexes)
    (dirty : left.dirtyIds = store.dirtyIds) : Related left log chain count := by
  rcases related with linked | ⟨compacts, short⟩
  · exact .inl ⟨indexes.trans linked.indexes, dirty ▸ linked.dirty, indexes ▸ linked.single,
      dirty ▸ linked.clean⟩
  · exact .inr ⟨fun order => (compact_congr indexes order).trans (compacts order), short⟩

namespace Retryable

/-- A flush leaves a directory that holds the same log. The collection knows its segments
unless the flush failed behind the manifest of a delta. -/
theorem step (retryable : Retryable arith config process state log chain count start)
    (call : FlushCall) (room : state.store.HasRoom state.disk call.order) :
    let after := state.call process call
    ∃ segments reached cut,
      Held arith backend config after.1.disk after.1.store log segments reached cut ∧
      Readable arith config reached (1 + cut) (log.drop cut) ∧
      (∀ sequence timestamp nonce, state.nonce + 1 ≤ nonce →
        after.1.disk (temporarySegmentName sequence ⟨process, timestamp, nonce⟩) = none) ∧
      (Related after.1.store log segments reached ∨
        (state.store.flushSnapshot call.order).compact = false ∧ FailsBehindManifest call.fates) := by
  have held := retryable.held
  have free (sequence : UInt64) (timestamp nonce : Nat) (later : state.nonce + 1 ≤ nonce) :
      state.disk (temporarySegmentName sequence ⟨process, timestamp, nonce⟩) = none :=
    retryable.free sequence timestamp nonce (Nat.le_of_succ_le later)
  intro after
  by_cases settled : state.store.Settled
  · have isCall : after = _ := RetryState.call_settled settled call
    rw [isCall]
    exact ⟨chain, count, start, held, retryable.readable, free, .inl retryable.related⟩
  have planned := retryable.related.planned settled held.onDisk.base.within call.order
  rcases planned.builds held room settled
      (retryable.free state.store.latestSequence call.timestamp state.nonce le_rfl) with
    ⟨bytes, staged⟩ | ⟨-, error, fails⟩
  rotate_left
  · have isCall : after = _ := RetryState.call_unbuilt settled fails
    rw [isCall]
    exact ⟨chain, count, start, held, retryable.readable, free, .inl retryable.related⟩
  rcases publishes : state.store.publishFlushFated process (state.prepared process call) call.fates
    (state.built process call bytes) with ⟨other, left, result⟩
  have isCall : after = _ := RetryState.call_built settled staged.builds publishes
  obtain ⟨outcome, keeps⟩ := publishFlushFated_outcome staged.ready.temporary
    (Live.namesSegments chain count) staged.ready.file staged.held.onDisk.logged staged.fresh
    staged.held.readManifest_eq publishes
  obtain ⟨segments, reached, cut, heldAfter, readable, isKind⟩ :=
    planned.publish staged.held retryable.readable staged.ready staged.publishable outcome
  rw [isCall]
  refine ⟨segments, reached, cut, heldAfter, readable, ?_, ?_⟩
  · intro sequence timestamp nonce later
    have differs : temporarySegmentName sequence ⟨process, timestamp, nonce⟩ ≠
        (state.prepared process call).temporarySegment := fun same =>
      (Nat.ne_of_gt later) (nonce_of_temporarySegmentName same)
    exact (keeps _ (leading_temporarySegmentName _ _) differs).trans
      ((Disk.write_other _ _ differs).trans (free sequence timestamp nonce later))
  · rcases isKind with ⟨indexes, dirty, rfl, rfl⟩ | ⟨indexes, rfl, late, decoded, rfl⟩ | linked
    · exact .inl (retryable.related.congr indexes dirty)
    · cases kind : (state.store.flushSnapshot call.order).compact with
      | true =>
        have single : nextChain (state.prepared process call) chain decoded = [decoded] :=
          nextChain_of_compact kind
        exact .inl (.inr ⟨fun order => (compact_congr indexes order).trans kind,
          (congrArg List.length single).le⟩)
      | false => exact .inr ⟨rfl, late⟩
    · exact .inl (.inl linked)

theorem call (retryable : Retryable arith config process state log chain count start)
    {call : FlushCall} (meets : state.Meets call) :
    ∃ segments reached cut,
      Retryable arith config process (state.call process call).1 log segments reached cut := by
  obtain ⟨segments, reached, cut, held, readable, free, related | ⟨isDelta, late⟩⟩ :=
    retryable.step call meets.1
  · exact ⟨segments, reached, cut, held, readable, related, free⟩
  · rcases meets.2 with compact | early
    · rw [isDelta] at compact
      cases compact
    · exact absurd late early

theorem run (retryable : Retryable arith config process state log chain count start)
    {calls : List FlushCall} (meets : state.MeetsAll process calls) :
    ∃ segments reached cut,
      Retryable arith config process (state.run process calls) log segments reached cut := by
  induction calls generalizing state chain count start with
  | nil => exact ⟨chain, count, start, retryable⟩
  | cons call calls ih =>
    obtain ⟨segments, reached, cut, after⟩ := retryable.call meets.1
    exact ih after meets.2

end Retryable

/-- The flushes of a handle that was used without faults until now. -/
def SequentialState.retrying (state : SequentialState backend) : RetryState backend :=
  ⟨state.disk, state.store, state.nonce⟩

theorem Sequential.retryable {state : SequentialState backend}
    (sequential : Sequential arith config process state log chain count start)
    (recoverable : ∀ write ∈ state.pending, Recoverable write) :
    Retryable arith config process state.retrying log chain count start where
  held := sequential.live.toHeld
  readable := sequential.readable recoverable
  related := .inl ⟨sequential.live.indexes, sequential.live.dirty, sequential.single,
    sequential.clean⟩
  free := sequential.free

/-- After flushes that compact or do not fail behind their manifest, and one more with any
faults, the collection is unchanged and the directory opens to it. -/
theorem failed_flush_retries {durability : Durability}
    {commands : List SequentialCommand} {state : SequentialState backend}
    (positive : config.dimension ≠ 0)
    (admits : (SequentialState.opened backend config durability).MeetsAll arith config process
      (·.Admits arith config ·) commands)
    (started : (SequentialState.opened backend config durability).run arith config process
      commands = some state)
    (recoverable : ∀ write ∈ state.pending, Recoverable write)
    (calls : List FlushCall) (meets : state.retrying.MeetsAll process calls) (last : FlushCall)
    (room : (state.retrying.run process calls).store.HasRoom
      (state.retrying.run process calls).disk last.order) (reopening : Durability) :
    let reached := state.retrying.run process calls
    let after := (reached.call process last).1
    reached.store.inner = state.store.inner ∧ after.store.inner = state.store.inner ∧
      (∃ reopened, (openCollection arith backend config reopening).run reached.disk =
        (reached.disk, .ok reopened) ∧ reopened.inner = state.store.inner) ∧
      ∃ reopened, (openCollection arith backend config reopening).run after.disk =
        (after.disk, .ok reopened) ∧ reopened.inner = state.store.inner := by
  intro reached after
  obtain ⟨log, chain, count, start, sequential⟩ :=
    (Sequential.opened arith backend config process durability).run positive admits started
  obtain ⟨segments, position, cut, retryable⟩ := (sequential.retryable recoverable).run meets
  obtain ⟨_, _, _, held, readable, -, -⟩ := retryable.step last room
  have unchanged : reached.store.inner = state.store.inner :=
    retryable.held.inner.trans sequential.live.inner.symm
  have unchangedAfter : after.store.inner = state.store.inner :=
    held.inner.trans sequential.live.inner.symm
  obtain ⟨first, opens, sameFirst, -⟩ := retryable.held.opens reopening positive retryable.readable
  obtain ⟨second, opensAfter, sameSecond, -⟩ := held.opens reopening positive readable
  exact ⟨unchanged, unchangedAfter, ⟨first, opens, sameFirst.trans unchanged⟩,
    ⟨second, opensAfter, sameSecond.trans unchangedAfter⟩⟩

/-- The first flush fails when the directory is synced behind its manifest, and is called
again twice, the last time with a log that cannot be cut. -/
theorem first_flush_retries :
    let config : CollectionConfig := ⟨1, .euclidean, by decide⟩
    let failing : FlushCall := ⟨.sorted, 0, List.replicate 6 .works ++ [.fails 0]⟩
    let last : FlushCall := ⟨.sorted, 1, List.replicate 7 .works ++ [.fails 0]⟩
    ∃ state, (SequentialState.opened .flat config .sync).run .normalised config 7
        [.write (.delete ["b"])] = some state ∧
      ((state.retrying.run 7 [failing]).call 7 last).1.store.inner = state.store.inner ∧
      ∃ reopened, (openCollection .normalised .flat config .sync).run
          ((state.retrying.run 7 [failing]).call 7 last).1.disk =
        (((state.retrying.run 7 [failing]).call 7 last).1.disk, .ok reopened) ∧
          reopened.inner = state.store.inner := by
  intro config failing last
  have deletes : (SequentialState.opened .flat config .sync).run .normalised config 7
      [.write (.delete ["b"])] = some _ ∧ _ :=
    run_delete_opened (by simp) (by decide) (by decide) (by decide)
  have admits : (SequentialState.opened .flat config .sync).MeetsAll .normalised config 7
      (·.Admits .normalised config ·) [.write (.delete ["b"])] := by
    refine ⟨fun write isBatch => ?_, fun _ _ => trivial⟩
    rw [PersistentCollection.batch_delete, Except.ok.injEq] at isBatch
    rw [← isBatch]
    rfl
  have starts : ∃ state, (SequentialState.opened .flat config .sync).run .normalised config 7
        [.write (.delete ["b"])] = some state ∧ (∀ write ∈ state.pending, Recoverable write) ∧
      (state.store.flushSnapshot .sorted).compact = true ∧
      ((state.retrying.run 7 [failing]).store.flushSnapshot .sorted).compact = true :=
    ⟨_, deletes.1, by decide, rfl, by decide +kernel⟩
  obtain ⟨state, reached, recoverable, compact, compactAfter⟩ := starts
  obtain ⟨-, unchanged, -, opens⟩ := failed_flush_retries (by decide) admits reached recoverable
    [failing] ⟨⟨.inr (.inl compact), .inl compact⟩, trivial⟩ last
    (.inr (.inl compactAfter)) .sync
  exact ⟨state, reached, unchanged, opens⟩

/-- A delta whose directory cannot be synced behind its manifest is listed twice by the next
flush, which succeeds, and then the directory does not open. -/
theorem retried_delta_loses_collection :
    let config : CollectionConfig := ⟨1, .euclidean, by decide⟩
    let upsert (id : String) : SequentialCommand :=
      .write (.upsert [⟨id, [⟨0x3f800000⟩], ∅⟩])
    ∃ state, (SequentialState.opened .flat config .sync).run .normalised config 7
        [upsert "a", .flush .sorted 0, upsert "b"] = some state ∧
      let failed := state.retrying.call 7 ⟨.sorted, 1, List.replicate 6 .works ++ [.fails 0]⟩
      let retried := failed.1.call 7 ⟨.sorted, 2, []⟩
      failed.2.isOk = false ∧ retried.2.isOk = true ∧
        ((openCollection .normalised .flat config .sync).run failed.1.disk).2.isOk = true ∧
        ((openCollection .normalised .flat config .sync).run retried.1.disk).2.isOk = false := by
  intro config upsert
  have runs : ((SequentialState.opened .flat config .sync).run .normalised config 7
      [upsert "a", .flush .sorted 0, upsert "b"]).any (fun state =>
        let failed := state.retrying.call 7 ⟨.sorted, 1, List.replicate 6 .works ++ [.fails 0]⟩
        let retried := failed.1.call 7 ⟨.sorted, 2, []⟩
        decide (failed.2.isOk = false ∧ retried.2.isOk = true ∧
          ((openCollection .normalised .flat config .sync).run failed.1.disk).2.isOk = true ∧
          ((openCollection .normalised .flat config .sync).run retried.1.disk).2.isOk = false)) =
      true := by
    decide +kernel
  obtain ⟨state, reached, facts⟩ := (Option.any_eq_true _ _).mp runs
  exact ⟨state, reached, of_decide_eq_true facts⟩

end Retrying

end FocalVector.Persistence
