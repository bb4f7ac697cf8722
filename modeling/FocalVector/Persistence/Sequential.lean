import FocalVector.Persistence.Live

/-!
Contract: one handle that writes, flushes and reopens its collection.

Without other flushes in between, every flush holds all of the log and cuts it.
A delta adds a name to the manifest even when it adds no graph, so the manifest
can outgrow what is read back. As long as it does not, every state reopens, and
a flush that dies at any point leaves a directory that stores the same log.

Owns: `SequentialState`, its steps, the manifests of a run, and the crashes of
a flush.

Does not own: concurrent flushes.
-/

namespace FocalVector.Persistence

open FocalVector.Foundation FocalVector.Engine LittleEndian

/-- A call on the handle. -/
inductive SequentialCommand where
  | write (request : Request)
  | flush (order : IterationOrder) (timestamp : Nat)
  | reopen (durability : Durability)

/-- An open collection, its directory, the batches of its log file, and the
number of temporary segments named so far. -/
structure SequentialState (backend : IndexBackend) where
  disk : Directory
  store : PersistentCollection backend
  pending : List Write
  nonce : Nat

/-- Nothing changed since the last segment, and there is a graph to search. -/
def PersistentCollection.Settled {backend : IndexBackend} (store : PersistentCollection backend) :
    Prop :=
  store.dirtyIds.isEmpty ∧ store.indexes ≠ []

instance {backend : IndexBackend} (store : PersistentCollection backend) :
    Decidable store.Settled :=
  inferInstanceAs (Decidable (_ ∧ _))

/-- The flush has nothing to do, or compacts, or finds a manifest that is not full. -/
def PersistentCollection.HasRoom {backend : IndexBackend} (store : PersistentCollection backend)
    (disk : Directory) (order : IterationOrder) : Prop :=
  store.Settled ∨ (store.flushSnapshot order).compact = true ∨
    ∀ manifest, (readManifest.run disk).2 = .ok (some manifest) →
      manifest.segments.length ≤ maxIndexSegments

/-- The graph over the points can be built and written, and its bytes hold a graph over
these points. -/
def GraphStorable (backend : IndexBackend) (config : CollectionConfig)
    (points : List StoredPoint) : Prop :=
  ∃ graph length, backend.build config.dimension config.metric
      (points.map fun point => (point.id, point.vector)) = .ok graph ∧
    backend.encodedLen graph = .ok length ∧ length ≤ wireLimit ∧
    (backend.encode graph).2 = .ok () ∧ (backend.encode graph).1.length = length ∧
    ∀ file offset, ∃ index, backend.decodeMapped (backend.encode graph).1 file offset = .ok index ∧
      matchGraph backend config points index = .ok ()

/-- The limits of the segment decoder. -/
structure SegmentLimits (backend : IndexBackend) (config : CollectionConfig)
    (items : SegmentItems) : Prop where
  dimension : config.dimension ≤ maxItems
  readable : ItemsReadable items
  finite : ItemsFinite items
  graph : GraphStorable backend config items.points

namespace SequentialState

variable {backend : IndexBackend}

def opened (backend : IndexBackend) (config : CollectionConfig) (durability : Durability) :
    SequentialState backend where
  disk := newDirectory config
  store := newStore backend config durability
  pending := []
  nonce := 0

variable (arith : FloatArithmetic) (config : CollectionConfig) (process : Nat)

def flushing (state : SequentialState backend) (order : IterationOrder) (timestamp : Nat) :
    Fs (PersistentCollection backend × UInt64) :=
  state.store.flush process order ⟨process, timestamp, state.nonce⟩

/-- One call. There is no state after a reopening that failed. -/
def step (state : SequentialState backend) : SequentialCommand → Option (SequentialState backend)
  | .write request =>
    match (state.store.perform arith request).run state.disk, state.store.batch arith request with
    | (next, .ok (after, _)), .ok write =>
      some { state with disk := next, store := after, pending := state.pending ++ [write] }
    | (next, _), _ => some { state with disk := next }
  | .flush order timestamp =>
    match (state.flushing process order timestamp).run state.disk with
    | (next, .ok (after, _)) =>
      some { disk := next
             store := after
             pending := if state.store.Settled then state.pending else []
             nonce := state.nonce + 1 }
    | (next, .error _) => some { state with disk := next, nonce := state.nonce + 1 }
  | .reopen durability =>
    match (openCollection arith backend config durability).run state.disk with
    | (next, .ok after) => some { state with disk := next, store := after }
    | (_, .error _) => none

def run (state : SequentialState backend) :
    List SequentialCommand → Option (SequentialState backend)
  | [] => some state
  | command :: rest =>
    match state.step arith config process command with
    | some next => next.run rest
    | none => none

/-- The step writes only batches that preparing keeps as they are, and flushes a
delta only over a manifest that is not full. -/
def Admits (state : SequentialState backend) : SequentialCommand → Prop
  | .write request => ∀ write, state.store.batch arith request = .ok write →
      replayWrite arith config write = .ok write
  | .flush order _ => state.store.HasRoom state.disk order
  | .reopen _ => True

/-- Besides, a batch is within the limits of recovery, and a segment within those of its
decoder. -/
def Meets (state : SequentialState backend) (command : SequentialCommand) : Prop :=
  state.Admits arith config command ∧
    match command with
    | .write request => ∀ write, state.store.batch arith request = .ok write → Recoverable write
    | .flush order _ => state.store.Settled ∨
        SegmentLimits backend config (state.store.flushSnapshot order).items
    | .reopen _ => True

/-- Every step of a run is taken in a state that allows it. -/
def MeetsAll (allowed : SequentialState backend → SequentialCommand → Prop)
    (state : SequentialState backend) : List SequentialCommand → Prop
  | [] => True
  | command :: rest =>
    allowed state command ∧ ∀ next, state.step arith config process command = some next →
      next.MeetsAll allowed rest

end SequentialState

/-! ## The invariant -/

section Invariant

variable {arith : FloatArithmetic} {backend : IndexBackend} {config : CollectionConfig}
  {process : Nat} {state : SequentialState backend} {log : List Write}
  {chain : List (DecodedSegment backend)} {count start : Nat}

/-- A live collection of one handle: with nothing written since its segments no
id is dirty, and without a graph there is at most one segment. -/
structure Sequential (arith : FloatArithmetic) (config : CollectionConfig) (process : Nat)
    (state : SequentialState backend) (log : List Write) (chain : List (DecodedSegment backend))
    (count start : Nat) : Prop where
  live : Live arith backend config process state.disk state.store log chain count start
  pending : state.pending = log.drop start
  single : state.store.indexes = [] → chain.length ≤ 1
  clean : count = log.length → state.store.dirtyIds.isEmpty = true
  free : ∀ sequence timestamp nonce, state.nonce ≤ nonce →
    state.disk (temporarySegmentName sequence ⟨process, timestamp, nonce⟩) = none

/-- The manifest lists more segments than are read back. -/
def Overfull (state : SequentialState backend) : Prop :=
  ∃ manifest, state.disk manifestName = some (manifestBytes manifest) ∧
    NamesWithin wireLimit manifest.segments ∧ maxIndexSegments + 1 < manifest.segments.length

namespace Sequential

theorem indexed_of_delta {store : PersistentCollection backend} (order : IterationOrder)
    (isDelta : (store.flushSnapshot order).compact = false) : store.indexes ≠ [] := by
  intro empty
  unfold PersistentCollection.flushSnapshot at isDelta
  simp [empty] at isDelta

theorem later (sequential : Sequential arith config process state log chain count start)
    (busy : ¬ state.store.Settled) (order : IterationOrder)
    (isDelta : (state.store.flushSnapshot order).compact = false) : count < log.length := by
  have within := sequential.live.onDisk.base.within
  exact lt_of_le_of_ne within fun same =>
    busy ⟨sequential.clean same, indexed_of_delta order isDelta⟩

theorem safe (sequential : Sequential arith config process state log chain count start)
    (busy : ¬ state.store.Settled) {order : IterationOrder} {bytes : Bytes}
    (built : Built backend config (state.store.flushSnapshot order).items bytes) :
    ∀ decoded ∈ chain, decoded.sequence = UInt64.ofNat log.length →
      state.disk (segmentName (UInt64.ofNat log.length)) = some bytes := by
  refine sequential.live.safe (sequential.live.snapshot order) (fun reached => ?_) built
  have graphless : state.store.indexes = [] := by
    by_contra indexed
    exact busy ⟨sequential.clean reached, indexed⟩
  exact ⟨by simp [PersistentCollection.flushSnapshot, graphless], sequential.single graphless⟩

/-! ## One flush -/

def flushName (process : Nat) (state : SequentialState backend) (order : IterationOrder)
    (timestamp : Nat) : String :=
  temporarySegmentName (state.store.flushSnapshot order).sequence
    ⟨process, timestamp, state.nonce⟩

def flushPrepared (process : Nat) (state : SequentialState backend) (order : IterationOrder)
    (timestamp : Nat) : PreparedFlush backend :=
  preparedOf backend (state.store.flushSnapshot order) ⟨process, timestamp, state.nonce⟩

/-- A flush whose segment was built and that may be published. -/
structure Building (arith : FloatArithmetic) (config : CollectionConfig) (process : Nat)
    (state : SequentialState backend) (log : List Write) (chain : List (DecodedSegment backend))
    (count start : Nat) (order : IterationOrder) (timestamp : Nat) (bytes : Bytes) : Prop where
  runs : (buildFlush backend (state.store.flushSnapshot order)
      ⟨process, timestamp, state.nonce⟩).run state.disk =
    (state.disk.write (flushName process state order timestamp) bytes,
      .ok (flushPrepared process state order timestamp))
  live : Live arith backend config process
    (state.disk.write (flushName process state order timestamp) bytes) state.store log chain
    count start
  ready : Ready backend config (state.disk.write (flushName process state order timestamp) bytes)
    log chain count log.length (flushPrepared process state order timestamp)
    (state.store.flushSnapshot order).items bytes
  safe : ∀ decoded ∈ chain,
    decoded.sequence = (flushPrepared process state order timestamp).sequence →
    state.disk.write (flushName process state order timestamp) bytes
      (segmentName (flushPrepared process state order timestamp).sequence) = some bytes
  later : (flushPrepared process state order timestamp).compact = false → count < log.length
  fresh : ¬ Stale (flushPrepared process state order timestamp) (baseManifest chain count)

theorem builds (sequential : Sequential arith config process state log chain count start)
    (busy : ¬ state.store.Settled) (order : IterationOrder) (timestamp : Nat) :
    (∃ bytes, Building arith config process state log chain count start order timestamp bytes) ∨
    (∀ bytes, ¬ Built backend config (state.store.flushSnapshot order).items bytes) ∧
      ∃ error, (buildFlush backend (state.store.flushSnapshot order)
        ⟨process, timestamp, state.nonce⟩).run state.disk = (state.disk, .error error) := by
  have taken := sequential.live.snapshot order
  have sequenced : (flushPrepared process state order timestamp).sequence =
      UInt64.ofNat log.length := sequential.live.latest
  have unused := sequential.free (state.store.flushSnapshot order).sequence timestamp state.nonce
    le_rfl
  rcases Live.build taken unused with ⟨bytes, runs, ready⟩ | refused
  · have live : Live arith backend config process
        (state.disk.write (flushName process state order timestamp) bytes) state.store log chain
        count start :=
      sequential.live.write_temporary (leading_temporarySegmentName _ _) bytes
    refine .inl ⟨bytes, runs, live, ready, ?_, sequential.later busy order, ?_⟩
    · intro decoded member same
      rw [sequenced] at same ⊢
      rw [write_apart _ _ (by simp [flushName])]
      exact sequential.safe busy ready.built decoded member same
    · rw [live.stale_iff sequenced le_rfl]
      exact not_lt.mpr live.onDisk.base.within
  · exact .inr refused

theorem flushing_busy (busy : ¬ state.store.Settled) (order : IterationOrder) (timestamp : Nat) :
    state.flushing process order timestamp =
      buildFlush backend (state.store.flushSnapshot order) ⟨process, timestamp, state.nonce⟩ >>=
        fun prepared => state.store.publishFlush process prepared :=
  if_neg busy

theorem flushing_settled (settled : state.store.Settled) (order : IterationOrder)
    (timestamp : Nat) :
    state.flushing process order timestamp = pure (state.store, state.store.latestSequence) :=
  if_pos settled

namespace Building

variable {order : IterationOrder} {timestamp : Nat} {bytes : Bytes}

section

variable
  (building : Building arith config process state log chain count start order timestamp bytes)

include building

theorem run_eq (busy : ¬ state.store.Settled) :
    (state.flushing process order timestamp).run state.disk =
      (state.store.publishFlush process (flushPrepared process state order timestamp)).run
        (state.disk.write (flushName process state order timestamp) bytes) := by
  rw [flushing_busy busy, Program.run_bind_ok building.runs]

theorem free
    (sequential : Sequential arith config process state log chain count start) {next : Directory}
    {result : Result (PersistentCollection backend × UInt64)}
    (runs : (state.store.publishFlush process (flushPrepared process state order timestamp)).run
      (state.disk.write (flushName process state order timestamp) bytes) = (next, result)) :
    ∀ sequence clock nonce, state.nonce + 1 ≤ nonce →
      next (temporarySegmentName sequence ⟨process, clock, nonce⟩) = none := by
  intro sequence clock nonce later
  have differs : temporarySegmentName sequence ⟨process, clock, nonce⟩ ≠
      flushName process state order timestamp := fun same =>
    (Nat.ne_of_gt later) (nonce_of_temporarySegmentName same)
  have kept : ((state.store.publishFlush process (flushPrepared process state order timestamp)).run
      (state.disk.write (flushName process state order timestamp) bytes)).1 _ = _ :=
    building.live.publish_keeps (leading_temporarySegmentName _ _) differs
  rw [runs] at kept
  exact kept.trans ((Disk.write_other _ _ differs).trans
    (sequential.free sequence clock nonce (Nat.le_of_succ_le later)))

theorem published (sequential : Sequential arith config process state log chain count start)
    (busy : ¬ state.store.Settled) {decoded : DecodedSegment backend}
    (claims : Claims state.store (flushPrepared process state order timestamp) bytes decoded)
    (few : (flushPrepared process state order timestamp).compact = false →
      chain.length ≤ maxIndexSegments) :
    ∃ next sequence, (state.flushing process order timestamp).run state.disk =
        (next, .ok (publishedStore state.store (flushPrepared process state order timestamp)
          decoded, sequence)) ∧
      Sequential arith config process
        ⟨next, publishedStore state.store (flushPrepared process state order timestamp) decoded,
          [], state.nonce + 1⟩ log
        (nextChain (flushPrepared process state order timestamp) chain decoded)
        log.length log.length := by
  obtain ⟨next, cut, runs, live, whole⟩ := building.live.publish_ok building.ready
    ⟨building.safe, building.later, few⟩ building.fresh claims
  obtain rfl := whole rfl
  have latest : state.store.latestSequence =
      (flushPrepared process state order timestamp).sequence := rfl
  refine ⟨next, _, (building.run_eq busy).trans runs, ?_⟩
  exact {
    live := live
    pending := (List.drop_length).symm
    single := by
      intro graphless
      cases kind : (flushPrepared process state order timestamp).compact with
      | true => simp [nextChain, kind]
      | false =>
        have indexed : state.store.indexes ≠ [] := indexed_of_delta order kind
        simp only [publishedStore, kind, pushIndex] at graphless
        split at graphless <;> simp [indexed] at graphless
    clean := by
      intro _
      show (if state.store.latestSequence = _ then (∅ : IdSet) else _).isEmpty = true
      rw [if_pos latest]
      rfl
    free := building.free sequential runs }

theorem refused (sequential : Sequential arith config process state log chain count start)
    (busy : ¬ state.store.Settled)
    (unclaimed : ∀ decoded,
      ¬ Claims state.store (flushPrepared process state order timestamp) bytes decoded) :
    ∃ error next, (state.flushing process order timestamp).run state.disk = (next, .error error) ∧
      Sequential arith config process { state with disk := next, nonce := state.nonce + 1 } log
        chain count start := by
  obtain ⟨error, next, runs, live⟩ := building.live.publish_refused building.ready building.safe
    building.fresh unclaimed
  refine ⟨error, next, (building.run_eq busy).trans runs, ?_⟩
  exact { sequential with
    live := live
    free := building.free sequential runs }

theorem overfull (busy : ¬ state.store.Settled) {decoded : DecodedSegment backend}
    (claims : Claims state.store (flushPrepared process state order timestamp) bytes decoded)
    (isDelta : (flushPrepared process state order timestamp).compact = false)
    (full : maxIndexSegments < chain.length) :
    ∃ next after sequence, (state.flushing process order timestamp).run state.disk =
        (next, .ok (after, sequence)) ∧
      ∀ pending nonce, Overfull ⟨next, after, pending, nonce⟩ := by
  have hidden : manifestName ≠ (flushPrepared process state order timestamp).temporarySegment :=
    ne_of_leading (by simp [building.ready.temporary])
  have listed : (nextManifest (flushPrepared process state order timestamp)
      (baseManifest chain count)) = chainManifest (chain ++ [decoded]) log.length := by
    rw [nextManifest_eq building.ready claims, nextChain, isDelta]
    rfl
  have few : chain.length ≤ maxIndexSegments + 1 := by
    cases building.live.onDisk.base with
    | empty missing => exact Nat.zero_le _
    | chain chained few manifest => exact few
  have fits : NamesWithin wireLimit (nextManifest (flushPrepared process state order timestamp)
      (baseManifest chain count)).segments := by
    rw [listed]
    apply manifestOf_within
    rw [List.length_map, List.length_append, List.length_singleton]
    exact le_trans (Nat.succ_le_succ few) (by decide)
  obtain ⟨next, runs, promoted, -, -, -⟩ := run_publishSegment_ok building.ready.temporary
    (Live.namesSegments chain count) building.ready.file building.live.onDisk.logged building.fresh
    building.live.unused fits claims
  have whole := building.run_eq busy
  rw [run_publishFlush building.live.readManifest_eq, publishAfter_fresh building.fresh,
    runs] at whole
  refine ⟨_, _, _, whole, fun _ _ => ⟨_, ?_, fits, ?_⟩⟩
  · exact (Disk.erase_other _ hidden).trans promoted.manifest
  · rw [listed]
    simpa [chainManifest, manifestOf] using full

end

end Building

variable {order : IterationOrder} {timestamp : Nat}

theorem step_of_flushed {next : Directory}
    {after : PersistentCollection backend} {sequence : UInt64}
    (runs : (state.flushing process order timestamp).run state.disk =
      (next, .ok (after, sequence))) :
    state.step arith config process (.flush order timestamp) =
      some ⟨next, after, if state.store.Settled then state.pending else [], state.nonce + 1⟩ := by
  simp only [SequentialState.step, runs]

theorem step_of_failed {next : Directory}
    {error : Error}
    (runs : (state.flushing process order timestamp).run state.disk = (next, .error error)) :
    state.step arith config process (.flush order timestamp) =
      some { state with disk := next, nonce := state.nonce + 1 } := by
  simp only [SequentialState.step, runs]

section

variable (sequential : Sequential arith config process state log chain count start)

include sequential

theorem advance :
    Sequential arith config process { state with nonce := state.nonce + 1 } log chain count start :=
  { sequential with
    live := sequential.live
    free := fun sequence clock nonce later =>
      sequential.free sequence clock nonce (Nat.le_of_succ_le later) }

/-- A flush keeps the invariant unless it publishes a delta over a full
manifest. -/
theorem step_flush (order : IterationOrder) (timestamp : Nat) :
    ∃ next, state.step arith config process (.flush order timestamp) = some next ∧
      ((∃ chain count start, Sequential arith config process next log chain count start) ∨
        ¬ state.store.Settled ∧ (state.store.flushSnapshot order).compact = false ∧
          maxIndexSegments < chain.length ∧ Overfull next) := by
  by_cases settled : state.store.Settled
  · have runs : (state.flushing process order timestamp).run state.disk =
        (state.disk, .ok (state.store, state.store.latestSequence)) := by
      rw [flushing_settled settled]
      rfl
    have steps : state.step arith config process (.flush order timestamp) = _ :=
      step_of_flushed runs
    rw [if_pos settled] at steps
    exact ⟨_, steps, .inl ⟨chain, count, start, sequential.advance⟩⟩
  · rcases sequential.builds settled order timestamp with ⟨bytes, building⟩ | ⟨-, error, fails⟩
    · by_cases claimed : ∃ decoded,
          Claims state.store (flushPrepared process state order timestamp) bytes decoded
      · obtain ⟨decoded, claims⟩ := claimed
        by_cases few : (flushPrepared process state order timestamp).compact = false →
            chain.length ≤ maxIndexSegments
        · obtain ⟨next, sequence, runs, after⟩ :=
            building.published sequential settled claims few
          have steps : state.step arith config process (.flush order timestamp) = _ :=
            step_of_flushed runs
          rw [if_neg settled] at steps
          exact ⟨_, steps, .inl ⟨_, _, _, after⟩⟩
        · rw [Classical.not_imp, not_le] at few
          obtain ⟨next, after, sequence, runs, overfull⟩ :=
            building.overfull settled claims few.1 few.2
          exact ⟨_, step_of_flushed runs, .inr ⟨settled, few.1, few.2, overfull _ _⟩⟩
      · obtain ⟨error, next, runs, after⟩ :=
          building.refused sequential settled (not_exists.mp claimed)
        exact ⟨_, step_of_failed runs, .inl ⟨_, _, _, after⟩⟩
    · have runs : (state.flushing process order timestamp).run state.disk =
          (state.disk, .error error) := by
        rw [flushing_busy settled, Program.run_bind_error fails]
      exact ⟨_, step_of_failed runs, .inl ⟨chain, count, start, sequential.advance⟩⟩

theorem step_write {request : Request}
    (replays : ∀ write, state.store.batch arith request = .ok write →
      replayWrite arith config write = .ok write) :
    ∃ next log chain count start,
      state.step arith config process (.write request) = some next ∧
        Sequential arith config process next log chain count start := by
  rcases sequential.live.write replays with
    ⟨error, refused⟩ | ⟨write, sequence, wal, isBatch, runs, live⟩
  · refine ⟨state, log, chain, count, start, ?_, sequential⟩
    simp only [SequentialState.step, refused]
  · refine ⟨⟨state.disk.write walName wal, state.store.committed write, state.pending ++ [write],
      state.nonce⟩, log ++ [write], chain, count, start, ?_, ?_⟩
    · simp only [SequentialState.step, runs, isBatch]
    · have within := sequential.live.onDisk.base.within
      have overlap := sequential.live.onDisk.overlap
      exact {
        live := live
        pending := by
          rw [List.drop_append_of_le_length (by omega), sequential.pending]
        single := sequential.single
        clean := by
          intro same
          rw [List.length_append, List.length_singleton] at same
          omega
        free := by
          intro sequence timestamp nonce later
          show state.disk.write walName wal
            (temporarySegmentName sequence ⟨process, timestamp, nonce⟩) = none
          rw [write_apart _ _ (by simp)]
          exact sequential.free sequence timestamp nonce later }

theorem step_reopen
    (positive : config.dimension ≠ 0) (durability : Durability) {next : SequentialState backend}
    (reopens : state.step arith config process (.reopen durability) = some next) :
    Sequential arith config process next log chain count start := by
  by_cases readable : Readable arith config count (1 + start) (log.drop start)
  · obtain ⟨reopened, opens, -, dirty, live⟩ :=
      sequential.live.opens durability positive readable
    simp only [SequentialState.step, opens, Option.some.injEq] at reopens
    subst reopens
    exact {
      live := live
      pending := sequential.pending
      single := fun graphless => sequential.single
        ((sequential.live.indexes.trans live.indexes.symm).trans graphless)
      clean := by
        intro same
        show reopened.dirtyIds.isEmpty = true
        rw [dirty, same, List.drop_length]
        rfl
      free := sequential.free }
  · have fails : ∃ error, (openCollection arith backend config durability).run state.disk = _ :=
      sequential.live.onDisk.open_fails positive sequential.live.recorded readable
    obtain ⟨error, fails⟩ := fails
    simp only [SequentialState.step, fails] at reopens
    cases reopens

theorem step_flush_of_room (room : state.store.HasRoom state.disk order) :
    ∃ next chain count start,
      state.step arith config process (.flush order timestamp) = some next ∧
        Sequential arith config process next log chain count start := by
  obtain ⟨next, steps, after | ⟨busy, isDelta, full, -⟩⟩ := sequential.step_flush order timestamp
  · obtain ⟨chain, count, start, after⟩ := after
    exact ⟨next, chain, count, start, steps, after⟩
  · have nonempty : chain ≠ [] := fun empty => by simp [empty] at full
    have reads : (readManifest.run state.disk).2 = .ok (some (chainManifest chain count)) := by
      rw [sequential.live.readManifest_eq, baseManifest, if_neg (by simpa using nonempty)]
    rcases room with settled | compact | few
    · exact absurd settled busy
    · rw [isDelta] at compact
      cases compact
    · have small := few _ reads
      simp only [chainManifest, manifestOf, List.length_map] at small
      omega

end

end Sequential

/-! ## Full manifests -/

namespace Overfull

theorem readManifest_fails (overfull : Overfull state) {disk : Directory}
    (same : disk manifestName = state.disk manifestName) :
    ∃ error, readManifest.run disk = (disk, .error error) := by
  obtain ⟨manifest, found, fits, long⟩ := overfull
  have unreadable : ¬ NamesReadable manifest.segments := fun readable =>
    absurd readable.few (not_le.mpr long)
  obtain ⟨error, fails⟩ := (decodeManifest_manifestBytes fits).2 unreadable
  refine ⟨error, ?_⟩
  rw [run_readManifest (same.trans found), fails]
  rfl

theorem open_fails (overfull : Overfull state) (durability : Durability) :
    ∃ next error, (openCollection arith backend config durability).run state.disk =
      (next, .error error) := by
  unfold openCollection
  cases checks : (ensureMetadata config).run state.disk with
  | mk checked result =>
    cases result with
    | error error => exact ⟨checked, error, Program.run_bind_error checks⟩
    | ok value =>
      rw [Program.run_bind_ok checks]
      have checkedSame : checked manifestName = state.disk manifestName :=
        (ensureMetadata_avoids (ne_of_leading (by simp)) (ne_of_leading (by simp))).of_run checks
      cases touches : (openOrCreate walName).run checked with
      | mk touched result =>
        cases result with
        | error error => exact ⟨touched, error, Program.run_bind_error touches⟩
        | ok value =>
          rw [Program.run_bind_ok touches]
          have touchedSame : touched manifestName = state.disk manifestName :=
            ((avoids_io (by simp [FileOp.targets, ne_of_leading])).of_run touches).trans
              checkedSame
          cases Collection.new config with
          | error error => exact ⟨touched, error, rfl⟩
          | ok inner =>
            obtain ⟨error, fails⟩ := overfull.readManifest_fails touchedSame
            rw [Program.run_bind_ok (Program.run_ofExcept _)]
            have loads : (loadCurrentSegments backend inner).run touched =
                (touched, .error error) := Program.run_bind_error fails
            exact ⟨touched, error, Program.run_bind_error loads⟩

theorem flush_keeps (overfull : Overfull state) (order : IterationOrder) (timestamp : Nat) :
    ((state.flushing process order timestamp).run state.disk).1 manifestName =
      state.disk manifestName := by
  by_cases settled : state.store.Settled
  · rw [Sequential.flushing_settled settled]
    rfl
  · rw [Sequential.flushing_busy settled]
    cases builds : (buildFlush backend (state.store.flushSnapshot order)
        ⟨process, timestamp, state.nonce⟩).run state.disk with
    | mk built result =>
      have builtSame : built manifestName = state.disk manifestName :=
        (buildFlush_avoids (ne_of_leading (by simp))).of_run builds
      cases result with
      | error error =>
        rw [Program.run_bind_error builds]
        exact builtSame
      | ok prepared =>
        obtain ⟨error, fails⟩ := overfull.readManifest_fails builtSame
        obtain rfl := buildFlush_eq_ok builds
        rw [Program.run_bind_ok builds, PersistentCollection.publishFlush,
          Program.run_cleanup fun _ => rfl, Program.run_bind_error fails]
        have hidden : manifestName ≠ temporarySegmentName
            (state.store.flushSnapshot order).sequence ⟨process, timestamp, state.nonce⟩ :=
          ne_of_leading (by simp)
        exact (Disk.erase_other _ hidden).trans builtSame

theorem step (overfull : Overfull state) {command : SequentialCommand}
    {next : SequentialState backend}
    (steps : state.step arith config process command = some next) : Overfull next := by
  have kept : next.disk manifestName = state.disk manifestName := by
    cases command with
    | write request =>
      have avoided : ((state.store.perform arith request).run state.disk).1 manifestName = _ :=
        (perform_avoids (ne_of_leading (by simp))).run
      simp only [SequentialState.step] at steps
      split at steps <;> rename_i runs _ <;> rw [runs] at avoided <;> cases steps <;> exact avoided
    | flush order timestamp =>
      have avoided : ((state.flushing process order timestamp).run state.disk).1 _ = _ :=
        overfull.flush_keeps order timestamp
      simp only [SequentialState.step] at steps
      split at steps <;> rename_i runs <;> rw [runs] at avoided <;> cases steps <;> exact avoided
    | reopen durability =>
      have fails : ∃ after error,
          (openCollection arith backend config durability).run state.disk = (after, .error error) :=
        overfull.open_fails durability
      obtain ⟨after, error, fails⟩ := fails
      simp only [SequentialState.step, fails] at steps
      cases steps
  obtain ⟨manifest, found, rest⟩ := overfull
  exact ⟨manifest, kept.trans found, rest⟩

end Overfull

/-! ## Runs -/

theorem Sequential.opened (arith : FloatArithmetic) (backend : IndexBackend)
    (config : CollectionConfig) (process : Nat) (durability : Durability) :
    Sequential arith config process (SequentialState.opened backend config durability) [] [] 0 0 where
  live := .opened arith backend config process durability
  pending := rfl
  single := fun _ => Nat.zero_le _
  clean := fun _ => rfl
  free := by
    intro sequence timestamp nonce _
    show newDirectory config (temporarySegmentName sequence ⟨process, timestamp, nonce⟩) = none
    exact newDirectory_hidden (by simp)

section

variable (sequential : Sequential arith config process state log chain count start)
  (positive : config.dimension ≠ 0)

include sequential positive

theorem Sequential.step {command : SequentialCommand}
    (admits : state.Admits arith config command) {next : SequentialState backend}
    (steps : state.step arith config process command = some next) :
    ∃ log chain count start, Sequential arith config process next log chain count start := by
  cases command with
  | write request =>
    obtain ⟨after, log, chain, count, start, same, kept⟩ := sequential.step_write admits
    rw [steps, Option.some.injEq] at same
    exact ⟨log, chain, count, start, same ▸ kept⟩
  | flush order timestamp =>
    obtain ⟨after, chain, count, start, same, kept⟩ := sequential.step_flush_of_room admits
    rw [steps, Option.some.injEq] at same
    exact ⟨log, chain, count, start, same ▸ kept⟩
  | reopen durability =>
    exact ⟨log, chain, count, start, sequential.step_reopen positive durability steps⟩

theorem Sequential.run {commands : List SequentialCommand}
    (admits : state.MeetsAll arith config process (·.Admits arith config ·) commands) {final : SequentialState backend}
    (reached : state.run arith config process commands = some final) :
    ∃ log chain count start, Sequential arith config process final log chain count start := by
  induction commands generalizing state log chain count start with
  | nil =>
    cases reached
    exact ⟨log, chain, count, start, sequential⟩
  | cons command rest ih =>
    rw [SequentialState.run] at reached
    split at reached
    next next steps =>
      obtain ⟨nextLog, nextChain, nextCount, nextStart, kept⟩ :=
        sequential.step positive admits.1 steps
      exact ih kept (admits.2 next steps) reached
    next => cases reached

theorem Sequential.step_or_overfull (idempotent : config.metric.PrepareIdempotent arith)
    {command : SequentialCommand} {next : SequentialState backend}
    (steps : state.step arith config process command = some next) :
    (∃ log chain count start, Sequential arith config process next log chain count start) ∨
      Overfull next := by
  cases command with
  | write request =>
    have replays : ∀ write, state.store.batch arith request = .ok write →
        replayWrite arith config write = .ok write := by
      rw [← sequential.live.sameConfig] at idempotent ⊢
      exact fun write isBatch => replays_of_batch idempotent isBatch
    obtain ⟨after, log, chain, count, start, same, kept⟩ := sequential.step_write replays
    rw [steps, Option.some.injEq] at same
    exact .inl ⟨log, chain, count, start, same ▸ kept⟩
  | flush order timestamp =>
    obtain ⟨after, same, kept⟩ := sequential.step_flush order timestamp
    rw [steps, Option.some.injEq] at same
    subst same
    exact kept.imp (fun kept => ⟨log, kept⟩) fun overfull => overfull.2.2.2
  | reopen durability =>
    exact .inl ⟨log, chain, count, start, sequential.step_reopen positive durability steps⟩

end

theorem run_or_overfull (positive : config.dimension ≠ 0)
    (idempotent : config.metric.PrepareIdempotent arith) {commands : List SequentialCommand}
    (sound : (∃ log chain count start, Sequential arith config process state log chain count start) ∨
      Overfull state) {final : SequentialState backend}
    (reached : state.run arith config process commands = some final) :
    (∃ log chain count start, Sequential arith config process final log chain count start) ∨
      Overfull final := by
  induction commands generalizing state with
  | nil =>
    cases reached
    exact sound
  | cons command rest ih =>
    rw [SequentialState.run] at reached
    split at reached
    next next steps =>
      apply ih _ reached
      rcases sound with ⟨log, chain, count, start, sequential⟩ | overfull
      · exact sequential.step_or_overfull positive idempotent steps
      · exact .inr (overfull.step steps)
    next => cases reached

end Invariant

/-! ## Manifests -/

section Manifests

variable {arith : FloatArithmetic} {backend : IndexBackend} {config : CollectionConfig}
  {process : Nat}

/-- The segment that a flush writes reads back. -/
def Storable (backend : IndexBackend) (config : CollectionConfig) (items : SegmentItems) : Prop :=
  ∃ bytes decoded, Built backend config items bytes ∧ decodeSegment backend bytes = .ok decoded

theorem SegmentLimits.storable {items : SegmentItems} (limits : SegmentLimits backend config items)
    (positive : config.dimension ≠ 0)
    (sized : ∀ point ∈ items.points, point.vector.length = config.dimension) :
    Storable backend config items := by
  obtain ⟨graph, length, builds, measured, short, encoded, whole, reads⟩ := limits.graph
  have within := limits.readable.within.mono maxItems_le_wireLimit
  have written : (putSegment backend config items graph).bytes = .ok _ := bytes_putSegment.mpr
    ⟨length, ⟨within, limits.finite, measured, short, encoded⟩, rfl⟩
  obtain ⟨index, decodes, fits⟩ := reads
    (withChecksum (segmentPayload config items length (backend.encode graph).1))
    (14 + ((itemsBytes 14 items).length + 4))
  exact ⟨_, _, ⟨graph, _, builds, written, rfl⟩,
    (decodeSegment_payload within limits.finite sized short).mpr
      ⟨⟨positive, limits.dimension⟩, limits.readable, whole.symm, index, decodes, fits, rfl⟩⟩

theorem Sequential.flush_succeeds {state : SequentialState backend} {log : List Write}
    {chain : List (DecodedSegment backend)} {count start : Nat}
    (sequential : Sequential arith config process state log chain count start)
    {order : IterationOrder} (timestamp : Nat)
    (storable : Storable backend config (state.store.flushSnapshot order).items) :
    ∃ next after sequence, (state.flushing process order timestamp).run state.disk =
      (next, .ok (after, sequence)) := by
  by_cases settled : state.store.Settled
  · rw [flushing_settled settled]
    exact ⟨_, _, _, rfl⟩
  · obtain ⟨stored, decoded, built, decodes⟩ := storable
    rcases sequential.builds settled order timestamp with ⟨bytes, building⟩ | ⟨unbuilt, -⟩
    · rw [built.unique building.ready.built] at decodes
      have claims := building.ready.claims sequential.live.recorded sequential.live.sameConfig decodes
      by_cases few : (flushPrepared process state order timestamp).compact = false →
          chain.length ≤ maxIndexSegments
      · obtain ⟨next, sequence, runs, -⟩ := building.published sequential settled claims few
        exact ⟨next, _, sequence, runs⟩
      · rw [Classical.not_imp, not_le] at few
        obtain ⟨next, after, sequence, runs, -⟩ := building.overfull settled claims few.1 few.2
        exact ⟨next, after, sequence, runs⟩
    · exact absurd built (unbuilt stored)

section

variable {state : SequentialState backend} {log : List Write}
  {chain : List (DecodedSegment backend)} {count start : Nat}
  (sequential : Sequential arith config process state log chain count start)
  (recoverable : ∀ write ∈ state.pending, Recoverable write)

include sequential recoverable

theorem Sequential.readable : Readable arith config count (1 + start) (log.drop start) := by
  apply readable_of_faithful
  intro write member
  rw [sequential.pending] at recoverable
  exact ⟨recoverable write member, sequential.live.replays write (List.mem_of_mem_drop member)⟩

theorem Sequential.step_within (positive : config.dimension ≠ 0) {command : SequentialCommand}
    (meets : state.Meets arith config command) :
    ∃ next, state.step arith config process command = some next ∧
      ∀ write ∈ next.pending, Recoverable write := by
  cases command with
  | write request =>
    simp only [SequentialState.step]
    split
    next after sequence write runs isBatch =>
      exact ⟨_, rfl, List.forall_mem_append.mpr
        ⟨recoverable, List.forall_mem_singleton.mpr (meets.2 write isBatch)⟩⟩
    next => exact ⟨_, rfl, recoverable⟩
  | flush order timestamp =>
    simp only [SequentialState.step]
    split
    next =>
      refine ⟨_, rfl, fun write member => ?_⟩
      dsimp only at member
      split at member
      · exact recoverable write member
      · cases member
    next => exact ⟨_, rfl, recoverable⟩
  | reopen durability =>
    obtain ⟨reopened, opens, -⟩ :=
      sequential.live.opens durability positive (sequential.readable recoverable)
    simp only [SequentialState.step, opens]
    exact ⟨_, rfl, recoverable⟩

/-- A run whose steps meet the condition reaches a state with the invariant. -/
theorem Sequential.run_within (positive : config.dimension ≠ 0)
    {commands : List SequentialCommand}
    (meets : state.MeetsAll arith config process (·.Meets arith config ·) commands) :
    ∃ final log chain count start, state.run arith config process commands = some final ∧
      Sequential arith config process final log chain count start ∧
      ∀ write ∈ final.pending, Recoverable write := by
  induction commands generalizing state log chain count start with
  | nil => exact ⟨state, log, chain, count, start, rfl, sequential, recoverable⟩
  | cons command rest ih =>
    obtain ⟨next, steps, within⟩ := sequential.step_within recoverable positive meets.1
    obtain ⟨_, _, _, _, kept⟩ := sequential.step positive meets.1.1 steps
    rw [SequentialState.run, steps]
    exact ih kept within (meets.2 next steps)

end

/-- A sequential run whose steps meet the condition reaches a state in which the manifest
lists between one and nine distinct segments that read back and load, the directory opens to
the live collection, and the next flush that meets the condition succeeds. -/
theorem sequential_manifest_readable {durability : Durability}
    {commands : List SequentialCommand} (positive : config.dimension ≠ 0)
    (meets : (SequentialState.opened backend config durability).MeetsAll arith config process
      (·.Meets arith config ·) commands) :
    ∃ state, (SequentialState.opened backend config durability).run arith config process
        commands = some state ∧
      (∃ previous, readManifest.run state.disk = (state.disk, .ok previous) ∧
        ∀ manifest, previous = some manifest →
          1 ≤ manifest.segments.length ∧ manifest.segments.length ≤ maxIndexSegments + 1 ∧
            manifest.segments.Nodup) ∧
      (∃ loaded, (loadCurrentSegments backend (blank config)).run state.disk =
        (state.disk, .ok loaded)) ∧
      (∀ reopening, ∃ reopened, (openCollection arith backend config reopening).run state.disk =
        (state.disk, .ok reopened) ∧ reopened.inner = state.store.inner) ∧
      ∀ order timestamp, state.Meets arith config (.flush order timestamp) →
        ∃ next after sequence, (state.flushing process order timestamp).run state.disk =
          (next, .ok (after, sequence)) := by
  obtain ⟨state, log, chain, count, start, reached, sequential, recoverable⟩ :=
    (Sequential.opened arith backend config process durability).run_within
      (by simp [SequentialState.opened]) positive meets
  have live := sequential.live
  refine ⟨state, reached, ⟨_, live.readManifest_eq, ?_⟩,
    ⟨_, live.onDisk.base.run_loadCurrentSegments live.recorded⟩, fun reopening => ?_,
    fun order timestamp allowed => ?_⟩
  · cases live.onDisk.base with
    | empty missing =>
      intro manifest found
      cases found
    | chain chained few _ =>
      rw [baseManifest, if_neg (by simpa using chained.ne_nil)]
      intro manifest found
      rw [← Option.some.inj found]
      have size : (chainManifest chain count).segments.length = chain.length := by
        simp [chainManifest, manifestOf]
      have distinct := (chained.sequences_nodup live.bounded).map segmentName_injective
      rw [size]
      exact ⟨List.length_pos_of_ne_nil chained.ne_nil, few, distinct⟩
  · obtain ⟨reopened, opens, same, -⟩ :=
      live.opens reopening positive (sequential.readable recoverable)
    exact ⟨reopened, opens, same⟩
  · rcases allowed.2 with settled | limits
    · rw [Sequential.flushing_settled settled]
      exact ⟨_, _, _, rfl⟩
    · exact sequential.flush_succeeds timestamp
        (limits.storable positive ((live.snapshot order).snapped.sized live.recorded))

/-- The manifest of an empty collection that was flushed is there after a write and a
reopening, and the collection opens again. -/
theorem flushed_manifest_readable :
    let config : CollectionConfig := ⟨1, .euclidean, by decide⟩
    ∃ state, (SequentialState.opened .flat config .sync).run .normalised config 7
        [.flush .sorted 0, .write (.delete ["b"]), .reopen .sync] = some state ∧
      (∃ previous, readManifest.run state.disk = (state.disk, .ok previous) ∧
        ∀ manifest, previous = some manifest →
          1 ≤ manifest.segments.length ∧ manifest.segments.length ≤ maxIndexSegments + 1 ∧
            manifest.segments.Nodup) ∧
      ∃ reopened, (openCollection .normalised .flat config .sync).run state.disk =
        (state.disk, .ok reopened) := by
  intro config
  have limits : SegmentLimits .flat config ⟨0, true, [], []⟩ := {
    dimension := by decide
    readable := ⟨by simp [ItemsWithin], by simp, by simp, by simp, fun _ => rfl⟩
    finite := by simp [ItemsFinite]
    graph := ⟨⟨1, .euclidean, []⟩, 13, rfl, by rfl, by decide, rfl, by rfl, fun _ _ =>
      ⟨⟨1, .euclidean, []⟩, by rfl, rfl⟩⟩ }
  have meets : (SequentialState.opened .flat config .sync).MeetsAll .normalised config 7
      (·.Meets .normalised config ·) [.flush .sorted 0, .write (.delete ["b"]), .reopen .sync] := by
    refine ⟨⟨.inr (.inl rfl), .inr limits⟩, fun _ _ => ⟨⟨fun write isBatch => ?_,
      fun write isBatch => ?_⟩, fun _ _ => ⟨⟨trivial, trivial⟩, fun _ _ => trivial⟩⟩⟩
    all_goals
      rw [PersistentCollection.batch_delete, Except.ok.injEq] at isBatch
      rw [← isBatch]
    · rfl
    · decide
  obtain ⟨state, reached, manifest, -, opens, -⟩ :=
    sequential_manifest_readable (by decide) meets
  obtain ⟨reopened, opens, -⟩ := opens .sync
  exact ⟨state, reached, manifest, reopened, opens⟩

/-- Ten flushes of which nine only delete leave a manifest with ten names, which
neither a flush nor an opening reads back. -/
theorem tombstone_flushes_lose_collection :
    let config : CollectionConfig := ⟨1, .euclidean, by decide⟩
    let deleting : List SequentialCommand := (List.range 9).flatMap fun timestamp =>
      [.write (.delete ["x"]), .flush .sorted (timestamp + 1)]
    ∃ state, (SequentialState.opened .flat config .sync).run .normalised config 7
        (.write (.upsert [⟨"a", [⟨0x3f800000⟩], ∅⟩]) :: .flush .sorted 0 :: deleting) =
          some state ∧
      (∃ error, (readManifest.run state.disk).2 = .error error) ∧
      ∃ error, ((openCollection .normalised .flat config .sync).run state.disk).2 =
        .error error := by
  intro config deleting
  have fails : ((SequentialState.opened .flat config .sync).run .normalised config 7
      (.write (.upsert [⟨"a", [⟨0x3f800000⟩], ∅⟩]) :: .flush .sorted 0 :: deleting)).map
        (fun state => ((readManifest.run state.disk).2.isOk,
          ((openCollection .normalised .flat config .sync).run state.disk).2.isOk)) =
      some (false, false) := by
    decide +kernel
  obtain ⟨state, reached, refused⟩ := Option.map_eq_some_iff.mp fails
  rw [Prod.mk.injEq] at refused
  exact ⟨state, reached, exists_error_of_not_isOk refused.1, exists_error_of_not_isOk refused.2⟩

end Manifests

end FocalVector.Persistence
