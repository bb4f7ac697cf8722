import FocalVector.Persistence.Sequential

/-!
Contract: what one flush needs to know, and what it leaves.

A flush that has something to do is planned by the collection in memory: a delta
goes behind the segments of the directory and covers what changed since, and a
segment may replace one of its own name only when both are full. Then its segment is
built and can be published, whatever other temporary files the directory has.

Owns: `Linked`, `Planned`, `Staged`, and publications over a held history.

Does not own: whether the manifest can be written.
-/

namespace FocalVector.Persistence

open FocalVector.Foundation FocalVector.Engine LittleEndian

section Plans

variable {arith : FloatArithmetic} {backend : IndexBackend} {config : CollectionConfig}
  {disk other : Directory} {store left : PersistentCollection backend} {log : List Write}
  {chain : List (DecodedSegment backend)} {count start : Nat} {order : IterationOrder}
  {stamp : Stamp} {prepared : PreparedFlush backend} {items : SegmentItems} {bytes : Bytes}
  {decoded : DecodedSegment backend}

/-- The collection knows the segments of its directory. -/
structure Linked (store : PersistentCollection backend) (log : List Write)
    (chain : List (DecodedSegment backend)) (count : Nat) : Prop where
  indexes : store.indexes = chainIndexes backend chain
  dirty : ∀ id, Overwrite.ChangedBetween (log.map Write.effect) count log.length id →
    store.dirtyIds.contains id = true
  single : store.indexes = [] → chain.length ≤ 1
  clean : count = log.length → store.dirtyIds.isEmpty = true

/-- What a flush with something to do relies on. -/
structure Planned (store : PersistentCollection backend) (log : List Write)
    (chain : List (DecodedSegment backend)) (count : Nat) (order : IterationOrder) : Prop where
  covers : (store.flushSnapshot order).compact = false → chain ≠ [] ∧
    ∀ id, Overwrite.ChangedBetween (log.map Write.effect) count log.length id →
      store.dirtyIds.contains id = true
  linked : (store.flushSnapshot order).compact = false → store.indexes = chainIndexes backend chain
  later : (store.flushSnapshot order).compact = false → count < log.length
  reached : count = log.length →
    (store.flushSnapshot order).compact = true ∧ chain.length ≤ 1

theorem Linked.planned (linked : Linked store log chain count) (busy : ¬ store.Settled)
    (within : count ≤ log.length) (order : IterationOrder) :
    Planned store log chain count order := by
  have graphless (atEnd : count = log.length) : store.indexes = [] := by
    by_contra indexed
    exact busy ⟨linked.clean atEnd, indexed⟩
  have compact (atEnd : count = log.length) : (store.flushSnapshot order).compact = true := by
    simp [PersistentCollection.flushSnapshot, graphless atEnd]
  refine {
    covers := fun isDelta => ⟨fun empty => ?_, linked.dirty⟩
    linked := fun _ => linked.indexes
    later := fun isDelta => lt_of_le_of_ne within fun atEnd => ?_
    reached := fun atEnd => ⟨compact atEnd, linked.single (graphless atEnd)⟩ }
  · exact Sequential.indexed_of_delta order isDelta (by rw [linked.indexes, empty]; rfl)
  · rw [compact atEnd] at isDelta
    cases isDelta

/-! ## Building -/

/-- A flush whose segment was built and that may be published. -/
structure Staged (arith : FloatArithmetic) (backend : IndexBackend) (config : CollectionConfig)
    (disk : Directory) (store : PersistentCollection backend) (log : List Write)
    (chain : List (DecodedSegment backend)) (count start : Nat) (order : IterationOrder)
    (stamp : Stamp) (bytes : Bytes) : Prop where
  builds : (buildFlush backend (store.flushSnapshot order) stamp).run disk =
    (disk.write (temporarySegmentName store.latestSequence stamp) bytes,
      .ok (preparedOf backend (store.flushSnapshot order) stamp))
  held : Held arith backend config
    (disk.write (temporarySegmentName store.latestSequence stamp) bytes) store log chain count start
  ready : Ready backend config
    (disk.write (temporarySegmentName store.latestSequence stamp) bytes) log chain count log.length
    (preparedOf backend (store.flushSnapshot order) stamp) (store.flushSnapshot order).items bytes
  publishable : Publishable
    (disk.write (temporarySegmentName store.latestSequence stamp) bytes) chain count log.length
    (preparedOf backend (store.flushSnapshot order) stamp) bytes
  fresh : ¬ Stale (preparedOf backend (store.flushSnapshot order) stamp) (baseManifest chain count)

theorem Held.few_of_room (held : Held arith backend config disk store log chain count start)
    (room : store.HasRoom disk order) (busy : ¬ store.Settled)
    (isDelta : (store.flushSnapshot order).compact = false) (nonempty : chain ≠ []) :
    chain.length ≤ maxIndexSegments := by
  rcases room with settled | compact | few
  · exact absurd settled busy
  · rw [compact] at isDelta
    cases isDelta
  · have reads : (readManifest.run disk).2 = .ok (some (chainManifest chain count)) := by
      rw [held.readManifest_eq, baseManifest, if_neg (by simpa using nonempty)]
    simpa [chainManifest, manifestOf] using few _ reads

theorem Planned.builds (planned : Planned store log chain count order)
    (held : Held arith backend config disk store log chain count start)
    (room : store.HasRoom disk order) (busy : ¬ store.Settled)
    (unused : disk (temporarySegmentName store.latestSequence stamp) = none) :
    (∃ bytes, Staged arith backend config disk store log chain count start order stamp bytes) ∨
    (∀ bytes, ¬ Built backend config (store.flushSnapshot order).items bytes) ∧
      ∃ error, (buildFlush backend (store.flushSnapshot order) stamp).run disk =
        (disk, .error error) := by
  have taken := held.snapshot order planned.covers
  have sequenced : (preparedOf backend (store.flushSnapshot order) stamp).sequence =
      UInt64.ofNat log.length := held.latest
  rcases Live.build taken unused with ⟨bytes, builds, ready⟩ | refused
  · refine .inl ⟨bytes, builds, ?_, ready, ?_, ?_⟩
    · exact { held with
        onDisk := held.onDisk.visible fun _ visible =>
          Disk.write_other _ bytes (ne_of_visible visible (by simp)) }
    · refine ⟨fun decoded member same => ?_, planned.later, fun isDelta =>
        held.few_of_room room busy isDelta (planned.covers isDelta).1⟩
      rw [sequenced] at same ⊢
      rw [write_apart _ _ (by simp)]
      exact held.safe taken planned.reached ready.built decoded member same
    · rw [held.stale_iff sequenced le_rfl]
      exact not_lt.mpr held.onDisk.base.within
  · exact .inr refused

/-! ## Publishing -/

/-- A published directory holds what the collection holds. -/
theorem Held.promote (held : Held arith backend config disk store log chain count start)
    (readable : Readable arith config count (1 + start) (log.drop start))
    (ready : Ready backend config disk log chain count log.length prepared items bytes)
    (publishable : Publishable disk chain count log.length prepared bytes)
    (claims : Claims store prepared bytes decoded)
    (promoted : Promoted store prepared (baseManifest chain count) bytes disk other)
    (kept : left.inner = store.inner ∨
      left.inner = store.inner.replacePersistedPoints decoded.points) :
    ∃ cut, Held arith backend config other left log (nextChain prepared chain decoded)
        log.length cut ∧
      Readable arith config log.length (1 + cut) (log.drop cut) := by
  have within := held.onDisk.base.within
  have overlap := held.onDisk.overlap
  have sameInner : left.inner = history config log log.length := by
    have replaced := held.replace_eq ready (ready.stored held.recorded claims promoted.segment).2
    rcases kept with same | swapped
    · exact same.trans held.inner
    · exact swapped.trans (replaced.trans held.inner)
  have stores {cut : Nat} (logged : other walName = some (walBytes (1 + cut) (log.drop cut)))
      (earlier : cut ≤ log.length) : Held arith backend config other left log
        (nextChain prepared chain decoded) log.length cut := {
    onDisk := held.onDisk.promoted held.recorded ready claims promoted publishable.later
      publishable.few logged earlier
    recorded := held.recorded
    replays := held.replays
    inner := sameInner }
  rcases promoted.log with same | ⟨-, empty⟩
  · exact ⟨start, stores (same.trans held.onDisk.logged) (by omega), readable.advance within⟩
  · refine ⟨log.length, stores ?_ le_rfl, by simp, by simp⟩
    rw [empty, List.drop_length]
    rfl

theorem Held.untouched (held : Held arith backend config disk store log chain count start)
    {previous : Option Manifest} (untouched : Untouched prepared previous bytes disk other)
    (safe : ∀ decoded ∈ chain, decoded.sequence = prepared.sequence →
      disk (segmentName prepared.sequence) = some bytes) :
    Held arith backend config other store log chain count start :=
  { held with
    onDisk := held.onDisk.untouched untouched fun decoded member same _ =>
      safe decoded member same }

/-- The published collection knows the segments of its directory. -/
theorem Planned.published (planned : Planned store log chain count order)
    (claims : Claims store (preparedOf backend (store.flushSnapshot order) stamp) bytes decoded) :
    Linked (publishedStore store (preparedOf backend (store.flushSnapshot order) stamp) decoded) log
      (nextChain (preparedOf backend (store.flushSnapshot order) stamp) chain decoded)
      log.length := by
  have sequenced := claims.2.2.1
  have dirty : (publishedStore store (preparedOf backend (store.flushSnapshot order) stamp)
      decoded).dirtyIds = ∅ := if_pos rfl
  refine { indexes := ?_, dirty := fun id changed => ?_, single := fun graphless => ?_,
           clean := fun _ => by rw [dirty]; rfl }
  · unfold publishedStore nextChain
    cases kind : (preparedOf backend (store.flushSnapshot order) stamp).compact with
    | true => simp [chainIndexes, sequenced]
    | false => simp [chainIndexes_append_singleton, planned.linked kind, sequenced]
  · obtain ⟨position, -, low, high, -, -⟩ := changed
    omega
  · cases kind : (preparedOf backend (store.flushSnapshot order) stamp).compact with
    | true => simp [nextChain, kind]
    | false =>
      have indexed : store.indexes ≠ [] := Sequential.indexed_of_delta order kind
      simp only [publishedStore, kind, pushIndex] at graphless
      split at graphless <;> simp [indexed] at graphless

/-! ## The temporary manifest -/

theorem run_publishManifest_blocked {process : Nat} {sequence : UInt64} {names : List String}
    {old : Bytes} (used : disk (manifestTemporaryName process) = some old) :
    ∃ error, (publishManifest process sequence names).run disk = (disk, .error error) := by
  unfold publishManifest
  cases encodes : (putManifest sequence names).bytes with
  | error error => exact ⟨error, rfl⟩
  | ok payload =>
    have refused : (writeNewFile (manifestTemporaryName process) (withChecksum payload)).run disk =
        (disk, .error (.io "file exists")) := by
      apply Program.run_bind_error
      rw [io, Program.run_demand]
      simp [FileOp.after, FileOp.answer, used, Except.mapError]
    exact ⟨_, (Program.run_bind_ok (Program.run_ofExcept _)).trans
      (Program.run_bind_error refused)⟩

namespace Staged

variable {process : Nat}

def givenUp (disk : Directory) (store : PersistentCollection backend) (order : IterationOrder)
    (stamp : Stamp) (bytes : Bytes) : Directory :=
  (renamed (disk.write (temporarySegmentName store.latestSequence stamp) bytes)
    (preparedOf backend (store.flushSnapshot order) stamp) bytes).erase
      (temporarySegmentName store.latestSequence stamp)

section

variable (staged : Staged arith backend config disk store log chain count start order stamp bytes)

include staged

theorem run_publish :
    (store.publishFlush process (preparedOf backend (store.flushSnapshot order) stamp)).run
        (disk.write (temporarySegmentName store.latestSequence stamp) bytes) =
      let published := (store.publishSegment process
        (preparedOf backend (store.flushSnapshot order) stamp) (baseManifest chain count)).run
          (disk.write (temporarySegmentName store.latestSequence stamp) bytes)
      (published.1.erase (temporarySegmentName store.latestSequence stamp), published.2) := by
  rw [run_publishFlush staged.held.readManifest_eq, publishAfter_fresh staged.fresh]
  rfl

theorem publish_fails (blocked : (∀ decoded,
        ¬ Claims store (preparedOf backend (store.flushSnapshot order) stamp) bytes decoded) ∨
      ∃ old, disk (manifestTemporaryName process) = some old) :
    ∃ error, (store.publishFlush process (preparedOf backend (store.flushSnapshot order) stamp)).run
        (disk.write (temporarySegmentName store.latestSequence stamp) bytes) =
      (givenUp disk store order stamp bytes, .error error) := by
  rw [staged.run_publish]
  by_cases claimable : ∃ decoded,
      Claims store (preparedOf backend (store.flushSnapshot order) stamp) bytes decoded
  · obtain ⟨decoded, claims⟩ := claimable
    obtain ⟨old, used⟩ : ∃ old, disk (manifestTemporaryName process) = some old :=
      blocked.resolve_left fun unclaimed => unclaimed decoded claims
    have still : renamed (disk.write (temporarySegmentName store.latestSequence stamp) bytes)
        (preparedOf backend (store.flushSnapshot order) stamp) bytes
        (manifestTemporaryName process) = some old := by
      rw [renamed, write_apart _ _ (by simp), erase_apart _ (by simp [staged.ready.temporary]),
        write_apart _ _ (by simp)]
      exact used
    obtain ⟨error, fails⟩ := run_publishManifest_blocked still
    refine ⟨error, ?_⟩
    unfold PersistentCollection.publishSegment
    rw [Program.run_bind_ok (run_claimSegment_ok staged.ready.file claims),
      Program.run_bind_error fails]
    rfl
  · obtain ⟨error, fails⟩ : ∃ error, (store.publishSegment process _ _).run _ = _ :=
      run_publishSegment_error staged.ready.file (not_exists.mp claimable)
    exact ⟨error, by rw [fails]; rfl⟩

theorem held_givenUp :
    Held arith backend config (givenUp disk store order stamp bytes) store log chain count start :=
  staged.held.untouched ((untouched_renamed staged.ready.temporary staged.fresh).visible
    (.erase_hidden (by simp))) staged.publishable.safe

theorem publish_succeeds (unused : disk (manifestTemporaryName process) = none)
    (claims : Claims store (preparedOf backend (store.flushSnapshot order) stamp) bytes decoded) :
    ∃ next, (store.publishFlush process (preparedOf backend (store.flushSnapshot order) stamp)).run
        (disk.write (temporarySegmentName store.latestSequence stamp) bytes) =
      (next, .ok (publishedStore store (preparedOf backend (store.flushSnapshot order) stamp)
        decoded, store.latestSequence)) ∧
      Promoted store (preparedOf backend (store.flushSnapshot order) stamp)
        (baseManifest chain count) bytes
        (disk.write (temporarySegmentName store.latestSequence stamp) bytes) next := by
  have free : disk.write (temporarySegmentName store.latestSequence stamp) bytes
      (manifestTemporaryName process) = none := (write_apart _ _ (by simp)).trans unused
  obtain ⟨next, runs, promoted, -⟩ := run_publishSegment_ok staged.ready.temporary
    (Live.namesSegments chain count) staged.ready.file staged.held.onDisk.logged staged.fresh free
    (staged.ready.names_within claims staged.publishable.few) claims
  refine ⟨next.erase (temporarySegmentName store.latestSequence stamp), ?_,
    promoted.visible (.erase_hidden (by simp))⟩
  rw [staged.run_publish, runs]
  rfl

end

end Staged

end Plans

end FocalVector.Persistence
