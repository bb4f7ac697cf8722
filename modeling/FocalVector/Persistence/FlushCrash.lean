import FocalVector.Persistence.Sequential

/-!
Contract: crashes in the middle of a flush.

A flush that dies after any of its file operations, or in the middle of a
write, leaves a directory that stores the log of the collection it was called
on. What is left to recovery is the log file: it reads back exactly when none of
its frames is longer than recovery admits.

Owns: the crash states of a flush and when all of them reopen.

Does not own: crashes of a write, which the torn log covers.
-/

namespace FocalVector.Persistence

open FocalVector.Foundation FocalVector.Engine LittleEndian

section Crashes

variable {arith : FloatArithmetic} {backend : IndexBackend} {config : CollectionConfig}
  {process : Nat} {state : SequentialState backend} {log : List Write}
  {chain : List (DecodedSegment backend)} {count start : Nat}

theorem Sequential.flush_crash
    (sequential : Sequential arith config process state log chain count start)
    (few : chain.length ≤ maxIndexSegments) {order : IterationOrder} {timestamp : Nat}
    {crash : Directory}
    (crashed : crash ∈ (state.flushing process order timestamp).crashStates state.disk) :
    ∃ segments reached cut, OnDisk backend config crash log segments reached cut ∧
      (cut = start ∨ cut = log.length) := by
  have before : OnDisk backend config state.disk log chain count start := sequential.live.onDisk
  by_cases settled : state.store.Settled
  · rw [flushing_settled settled] at crashed
    obtain rfl := List.mem_singleton.mp crashed
    exact ⟨chain, count, start, before, .inl rfl⟩
  · rw [flushing_busy settled] at crashed
    rcases Program.mem_crashStates_bind.mp crashed with building | ⟨built, prepared, builds, publishing⟩
    · refine ⟨chain, count, start, before.visible fun file visible => ?_, .inl rfl⟩
      exact (buildFlush_avoids (ne_of_visible visible (by simp))).crash building
    · rcases sequential.builds settled order timestamp with ⟨bytes, building⟩ | ⟨-, error, fails⟩
      · rw [building.runs] at builds
        cases builds
        obtain ⟨segments, reached, cut, after, -, cuts, -⟩ := building.live.publish_crash
          building.ready (fun _ => ⟨building.safe, building.later, fun _ => few⟩) publishing
        exact ⟨segments, reached, cut, after, cuts⟩
      · rw [fails] at builds
        cases builds

theorem run_delete_opened {backend : IndexBackend} {arith : FloatArithmetic}
    {config : CollectionConfig} {durability : Durability} {process : Nat} {ids : List String}
    (nonempty : ids ≠ []) (named : ∀ id ∈ ids, id.isEmpty = false)
    (fits : WriteWithin wireLimit (.delete ids)) (small : recordLength (.delete ids) < 2 ^ 32) :
    (SequentialState.opened backend config durability).run arith config process
        [.write (.delete ids)] =
      some ⟨(newDirectory config).write walName (walBytes 1 [.delete ids]),
        (newStore backend config durability).committed (.delete ids), [.delete ids], 0⟩ ∧
      Recorded config 1 [.delete ids] := by
  have found : newDirectory config walName = some [] := (onDisk_newDirectory backend config).logged
  have granted : (newStore backend config durability).inner.nextSequence = .ok 1 := rfl
  have encoded : encodeWrite 1 (.delete ids) = .ok _ := (encodeWrite_eq 1 (.delete ids)).1
    ⟨fits, trivial⟩
  have short : (recordBytes 1 (.delete ids)).length < 2 ^ 32 := by
    rw [recordBytes_length]
    exact small
  have accepted : Accepted arith (newStore backend config durability).inner.config 1
      (.delete ids) := ⟨nonempty, named⟩
  have runs : ((newStore backend config durability).perform arith (.delete ids)).run
      (newDirectory config) = _ :=
    (run_delete_eq granted nonempty named).trans (run_logWrite_ok found granted encoded short)
  refine ⟨?_, (appended_singleton granted accepted encoded short).recorded⟩
  simp only [SequentialState.run, SequentialState.step, SequentialState.opened, runs,
    PersistentCollection.batch_delete]
  rfl

/-- All crashes of a flush reopen to the collection it was called on exactly when
no batch of the log file has a record that is longer than recovery admits. -/
theorem flush_crash_safe_iff {durability reopening : Durability}
    {commands : List SequentialCommand} {order : IterationOrder} {timestamp : Nat}
    (positive : config.dimension ≠ 0) (idempotent : config.metric.PrepareIdempotent arith)
    (reached : (SequentialState.opened backend config durability).run arith config process
      commands = some state)
    (few : ∀ manifest, state.disk manifestName = some (manifestBytes manifest) →
      manifest.segments.length ≤ maxIndexSegments)
    (within : ∀ write ∈ state.pending, WriteWithin maxItems write) :
    (∀ crash ∈ (state.flushing process order timestamp).crashStates state.disk,
      ∃ next reopened, (openCollection arith backend config reopening).run crash =
        (next, .ok reopened) ∧ reopened.inner = state.store.inner) ↔
      ∀ write ∈ state.pending, recordLength write ≤ maxFrameBytes := by
  have sound := run_or_overfull positive idempotent
    (.inl ⟨_, _, _, _, Sequential.opened arith backend config process durability⟩) reached
  rcases sound with ⟨log, chain, count, start, sequential⟩ | ⟨manifest, found, -, long⟩
  · have live := sequential.live
    have small : chain.length ≤ maxIndexSegments := by
      cases live.onDisk.base with
      | empty missing => exact Nat.zero_le _
      | chain chained _ manifest =>
        have listed := few _ manifest
        simpa [chainManifest, manifestOf] using listed
    constructor
    · intro safe write member
      by_contra long
      have unreadable : ¬ Readable arith config count (1 + start) (log.drop start) := by
        intro readable
        rw [sequential.pending] at member
        exact long (readable.1 write member)
      obtain ⟨next, reopened, opens, -⟩ := safe state.disk Program.start_mem_crashStates
      have fails : ∃ error, (openCollection arith backend config reopening).run state.disk = _ :=
        live.onDisk.open_fails positive live.recorded unreadable
      obtain ⟨error, fails⟩ := fails
      rw [fails] at opens
      cases opens
    · intro short crash crashed
      obtain ⟨segments, position, cut, stored, cuts⟩ := sequential.flush_crash small crashed
      have readable : Readable arith config position (1 + cut) (log.drop cut) := by
        apply readable_of_faithful
        intro write member
        rcases cuts with rfl | rfl
        · rw [← sequential.pending] at member
          refine ⟨⟨within write member, short write member⟩, ?_⟩
          rw [sequential.pending] at member
          exact live.replays write (List.mem_of_mem_drop member)
        · rw [List.drop_length] at member
          cases member
      exact ⟨_, _, stored.opens positive live.recorded live.replays readable, live.inner.symm⟩
  · exact absurd (few manifest found) (not_le.mpr (by omega))

/-- Every crash of the first flush after a delete reopens with the delete. -/
theorem first_flush_crash_safe :
    let config : CollectionConfig := ⟨1, .euclidean, by decide⟩
    ∃ state, (SequentialState.opened .flat config .sync).run .normalised config 7
        [.write (.delete ["b"])] = some state ∧
      ∀ crash ∈ (state.flushing 7 .sorted 0).crashStates state.disk, ∃ next reopened,
        (openCollection .normalised .flat config .sync).run crash = (next, .ok reopened) ∧
          reopened.inner = state.store.inner := by
  intro config
  have deletes : (SequentialState.opened .flat config .sync).run .normalised config 7
      [.write (.delete ["b"])] = some _ ∧ _ :=
    run_delete_opened (by simp) (by decide) (by decide) (by decide)
  have reached := deletes.1
  refine ⟨_, reached, (flush_crash_safe_iff (by decide)
    (Metric.prepareIdempotent_of_ne_cosine (by decide)) reached ?_ (by decide)).mpr (by decide)⟩
  intro manifest found
  have missing : (newDirectory config).write walName (walBytes 1 [.delete ["b"]]) manifestName =
      none := by
    decide +kernel
  exact absurd (missing.symm.trans found) (by simp)

end Crashes

/-! ## A record that is too long -/

theorem recordLength_delete_replicate (count : Nat) (id : String) :
    recordLength (.delete (List.replicate count id)) = 13 + count * (4 + (utf8 id).length) := by
  simp [recordLength, changeBytes, stringBytes]
  omega

/-- Deleting 269 ids of a million bytes each is acknowledged in one record that
recovery does not admit, so that a flush which dies before its first operation
leaves a directory that does not open. -/
theorem oversized_delete_breaks_flush :
    let config : CollectionConfig := ⟨1, .euclidean, by decide⟩
    let ids := List.replicate 269 (String.ofList (List.replicate 1000000 'a'))
    ∃ state, (SequentialState.opened .flat config .sync).run .normalised config 7
        [.write (.delete ids)] = some state ∧
      state.disk manifestName = none ∧ (∀ write ∈ state.pending, WriteWithin maxItems write) ∧
      ∃ crash ∈ (state.flushing 7 .sorted 0).crashStates state.disk, ∃ next error,
        (openCollection .normalised .flat config .sync).run crash = (next, .error error) := by
  intro config ids
  have size : ∀ id ∈ ids, (utf8 id).length = 1000000 := fun id member => by
    rw [List.eq_of_mem_replicate member]
    exact utf8_replicate 1000000
  have length : recordLength (.delete ids) = 269001089 := by
    rw [recordLength_delete_replicate, utf8_replicate]
  have count : ids.length = 269 := List.length_replicate
  have nonempty : ids ≠ [] := List.ne_nil_of_length_pos (by rw [count]; decide)
  have within : WriteWithin maxItems (.delete ids) := by
    refine ⟨by rw [count]; decide, fun id member => ?_⟩
    rw [StringWithin, size id member]
    exact le_rfl
  have fits : WriteWithin wireLimit (.delete ids) :=
    ⟨le_trans within.1 maxItems_le_wireLimit, fun id member =>
      le_trans (within.2 id member) maxItems_le_wireLimit⟩
  have named : ∀ id ∈ ids, id.isEmpty = false := fun id member => by
    rw [Bool.eq_false_iff, ne_eq, String.isEmpty_iff_utf8ByteSize_eq_zero, ← utf8_length,
      size id member]
    decide
  obtain ⟨reached, recorded⟩ := run_delete_opened nonempty named fits (by rw [length]; decide)
  refine ⟨_, reached, ?_, ?_, _, Program.start_mem_crashStates, ?_⟩
  · have missing : newDirectory config manifestName = none := by decide +kernel
    show (newDirectory config).write walName (walBytes 1 [.delete ids]) manifestName = none
    rw [write_apart _ _ (by simp), missing]
  · intro write member
    rw [List.mem_singleton.mp member]
    exact within
  · have stored := (onDisk_newDirectory .flat config).log_append (.delete ids)
    have unreadable : ¬ Readable .normalised config 0 (1 + 0) ([.delete ids].drop 0) := by
      intro readable
      have bound := readable.1 (.delete ids) (List.mem_singleton_self _)
      rw [length] at bound
      exact absurd bound (by decide)
    obtain ⟨error, fails⟩ := stored.open_fails (by decide) recorded unreadable
    exact ⟨_, error, fails⟩

end FocalVector.Persistence
