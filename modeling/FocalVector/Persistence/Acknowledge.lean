import FocalVector.Persistence.Chains

/-!
Contract: what an acknowledged write leaves in the log, and whether it can be
replayed.

Owns: the effect of upsert and delete on the log and on the open collection,
and the exact condition under which recovery replays the appended frame to the
same state.

Does not own: flushing.
-/

namespace FocalVector.Persistence

open FocalVector.Foundation FocalVector.Engine LittleEndian

/-- A write that a client asks for. -/
inductive Request where
  | upsert (points : List UpsertPoint)
  | delete (ids : List String)

namespace PersistentCollection

variable {backend : IndexBackend}

def perform (arith : FloatArithmetic) (store : PersistentCollection backend) :
    Request → Fs (PersistentCollection backend × UInt64)
  | .upsert points => store.upsert arith points
  | .delete ids => store.delete ids

def batch (arith : FloatArithmetic) (store : PersistentCollection backend) :
    Request → Result Write
  | .upsert points => do
      let sequence ← store.inner.nextSequence
      let prepared ← store.inner.prepareUpsert arith points sequence
      return .upsert prepared
  | .delete ids => return .delete ids

@[simp] theorem batch_delete (arith : FloatArithmetic) (store : PersistentCollection backend)
    (ids : List String) : store.batch arith (.delete ids) = .ok (.delete ids) := rfl

/-- The open collection once a batch was appended to its log. -/
def committed (store : PersistentCollection backend) (write : Write) :
    PersistentCollection backend :=
  { store with
    inner := commit store.inner write
    dirtyIds := changedIds store.dirtyIds [write] }

end PersistentCollection

section Running

variable {arith : FloatArithmetic} {backend : IndexBackend}
  {store : PersistentCollection backend} {disk : Directory} {wal : Bytes}

variable {durability : Durability} {payload : Bytes}

theorem run_appendFrame (found : disk walName = some wal) (small : payload.length < 2 ^ 32) :
    (appendFrame durability payload).run disk =
      (disk.write walName (wal ++ walFormat.frame payload), .ok ()) := by
  have appended : (do
      appendFile walName (walFormat.frame payload)
      settleLog durability : Fs Unit).run disk =
      (disk.write walName (wal ++ walFormat.frame payload), .ok ()) := by
    rw [Program.run_bind_ok (run_appendFile found)]
    cases durability <;> rfl
  unfold appendFrame
  rw [if_pos small, Program.run_bind_ok (run_readFile found),
    Program.run_rescue fun _ => rfl, appended]
  rfl

theorem run_appendFrame_large (large : ¬ payload.length < 2 ^ 32) :
    (appendFrame durability payload).run disk =
      (disk, .error (.invalidQuery "WAL record is too large")) := by
  unfold appendFrame
  rw [if_neg large]
  rfl

theorem walBytes_singleton (start : Nat) (write : Write) :
    walBytes start [write] = walFormat.frame (recordBytes (UInt64.ofNat start) write) := by
  simp [walBytes, payloads, FrameFormat.frames]

def logWrite (store : PersistentCollection backend) (sequence : UInt64) (write : Write) :
    Fs (PersistentCollection backend × UInt64) := do
  let payload ← Program.ofExcept (encodeWrite sequence write)
  appendFrame store.durability payload
  return (store.committed write, sequence)

variable {sequence : UInt64}

theorem ofNat_nextSequence {collection : Collection}
    (granted : collection.nextSequence = .ok sequence) :
    sequence = UInt64.ofNat (collection.sequence.toNat + 1) := by
  rw [← Collection.nextSequence_eq_ok granted, UInt64.ofNat_toNat]

variable {write : Write}

theorem run_logWrite_ok
    (found : disk walName = some wal) (granted : store.inner.nextSequence = .ok sequence)
    (encoded : encodeWrite sequence write = .ok payload) (small : payload.length < 2 ^ 32) :
    (logWrite store sequence write).run disk =
      (disk.write walName (wal ++ walBytes (store.inner.sequence.toNat + 1) [write]),
        .ok (store.committed write, sequence)) := by
  obtain ⟨-, -, isRecord⟩ := encodeWrite_eq_ok encoded
  unfold logWrite
  rw [encoded, Program.run_bind_ok (Program.run_ofExcept _),
    Program.run_bind_ok (run_appendFrame found small), walBytes_singleton,
    ← ofNat_nextSequence granted, ← isRecord]
  rfl

theorem appended_singleton (granted : store.inner.nextSequence = .ok sequence)
    (accepted : Accepted arith store.inner.config sequence write)
    (encoded : encodeWrite sequence write = .ok payload) (small : payload.length < 2 ^ 32) :
    Appended arith store.inner.config (store.inner.sequence.toNat + 1) [write] := by
  have next := Collection.nextSequence_eq_ok granted
  have bound := sequence.toNat_lt
  have only : ∀ (index : Nat) (found : Write), [write][index]? = some found →
      index = 0 ∧ found = write := by
    intro index found lookup
    cases index with
    | zero => exact ⟨rfl, (Option.some.inj lookup).symm⟩
    | succ index => simp at lookup
  refine ⟨by simp; omega, fun index found lookup => ?_, fun index found lookup => ?_⟩
  · obtain ⟨rfl, rfl⟩ := only index found lookup
    rw [Nat.add_zero, ← ofNat_nextSequence granted]
    exact accepted
  · obtain ⟨rfl, rfl⟩ := only index found lookup
    rw [Nat.add_zero, ← ofNat_nextSequence granted]
    exact ⟨payload, encoded, small⟩

theorem committed_eq (granted : store.inner.nextSequence = .ok sequence)
    (write : Write) :
    store.committed write =
      { store with
        inner := store.inner.applyWrite write sequence
        dirtyIds := store.dirtyIds.insertMany write.ids } := by
  have next := Collection.nextSequence_eq_ok granted
  have same : sequence = store.inner.sequence + 1 := by
    apply UInt64.toNat_inj.mp
    have bound := sequence.toNat_lt
    rw [next, UInt64.toNat_add]
    exact (Nat.mod_eq_of_lt (by rw [next] at bound; exact bound)).symm
  rw [PersistentCollection.committed, commit, same, changedIds, List.flatMap_singleton]

/-- The outcomes of a write: it is refused and leaves no trace, or it appends
one frame and commits its batch. -/
def Performs (arith : FloatArithmetic) (store : PersistentCollection backend)
    (request : Request) (disk : Directory) (wal : Bytes)
    (outcome : Directory × Result (PersistentCollection backend × UInt64)) : Prop :=
  (∃ write sequence, store.batch arith request = .ok write ∧
    Appended arith store.inner.config (store.inner.sequence.toNat + 1) [write] ∧
    outcome = (disk.write walName (wal ++ walBytes (store.inner.sequence.toNat + 1) [write]),
      .ok (store.committed write, sequence))) ∨
  ∃ error, outcome = (disk, .error error)

theorem run_delete_eq {ids : List String}
    (granted : store.inner.nextSequence = .ok sequence) (nonempty : ids ≠ [])
    (named : ∀ id ∈ ids, id.isEmpty = false) :
    (store.delete ids).run disk = (logWrite store sequence (.delete ids)).run disk := by
  have allNamed : ¬ ids.any String.isEmpty = true := by
    rw [Bool.not_eq_true, List.any_eq_false]
    exact fun id member => by simp [named id member]
  unfold PersistentCollection.delete
  rw [if_neg (by simpa using nonempty), if_neg allNamed, granted,
    Program.run_bind_ok (Program.run_ofExcept _), logWrite, committed_eq granted]
  rfl

/-- What a request comes down to: it is refused, or the record of its batch is
appended. -/
theorem perform_cases (arith : FloatArithmetic) (store : PersistentCollection backend)
    (request : Request) :
    (∃ error, store.perform arith request = .raise error) ∨
    ∃ write sequence payload, store.batch arith request = .ok write ∧
      store.inner.nextSequence = .ok sequence ∧
      Accepted arith store.inner.config sequence write ∧
      encodeWrite sequence write = .ok payload ∧
      store.perform arith request =
        (appendFrame store.durability payload >>= fun _ =>
          pure (store.committed write, sequence)) := by
  cases request with
  | upsert points =>
    simp only [PersistentCollection.perform, PersistentCollection.upsert, PersistentCollection.batch]
    cases granted : store.inner.nextSequence with
    | error error => exact .inl ⟨error, rfl⟩
    | ok sequence =>
      rw [Program.ofExcept_ok_bind]
      cases prepared : store.inner.prepareUpsert arith points sequence with
      | error error => exact .inl ⟨error, rfl⟩
      | ok batch =>
        rw [Program.ofExcept_ok_bind]
        cases encoded : encodeUpsert sequence batch with
        | error error => exact .inl ⟨error, rfl⟩
        | ok payload =>
          refine .inr ⟨.upsert batch, sequence, payload, ?_, rfl,
            ⟨store.inner, points, rfl, prepared⟩, encoded, ?_⟩
          · simp only [Bind.bind, Except.bind, prepared]
            rfl
          · rw [Program.ofExcept_ok_bind, committed_eq granted]
            rfl
  | delete ids =>
    simp only [PersistentCollection.perform, PersistentCollection.delete]
    split
    · exact .inl ⟨_, rfl⟩
    next nonempty =>
      split
      · exact .inl ⟨_, rfl⟩
      next named =>
        cases granted : store.inner.nextSequence with
        | error error => exact .inl ⟨error, rfl⟩
        | ok sequence =>
          rw [Program.ofExcept_ok_bind]
          cases encoded : encodeDelete sequence ids with
          | error error => exact .inl ⟨error, rfl⟩
          | ok payload =>
            have allNamed : ∀ id ∈ ids, id.isEmpty = false := by
              intro id member
              simpa using List.any_eq_false.mp (Bool.eq_false_iff.mpr named) id member
            refine .inr ⟨.delete ids, sequence, payload, rfl, rfl,
              ⟨by simpa using nonempty, allNamed⟩, encoded, ?_⟩
            rw [Program.ofExcept_ok_bind, committed_eq granted]
            rfl

variable {request : Request}

theorem replays_of_batch (idempotent : store.inner.config.metric.PrepareIdempotent arith)
    (isBatch : store.batch arith request = .ok write) :
    replayWrite arith store.inner.config write = .ok write := by
  cases request with
  | upsert points =>
    unfold PersistentCollection.batch at isBatch
    cases granted : store.inner.nextSequence with
    | error error =>
      rw [granted] at isBatch
      cases isBatch
    | ok sequence =>
      cases prepared : store.inner.prepareUpsert arith points sequence with
      | error error =>
        simp only [granted, Bind.bind, Except.bind, prepared] at isBatch
        cases isBatch
      | ok batch =>
        simp only [granted, Bind.bind, Except.bind, prepared] at isBatch
        cases isBatch
        have accepted : Accepted arith store.inner.config sequence (.upsert batch) :=
          ⟨store.inner, points, rfl, prepared⟩
        exact accepted.replays idempotent
  | delete ids =>
    cases isBatch
    rfl

theorem run_perform (request : Request) (found : disk walName = some wal) :
    Performs arith store request disk wal ((store.perform arith request).run disk) := by
  rcases perform_cases arith store request with ⟨error, isRaise⟩ |
    ⟨write, sequence, payload, isBatch, granted, accepted, encoded, isAppend⟩
  · exact .inr ⟨error, by rw [isRaise]; rfl⟩
  · rw [isAppend]
    by_cases small : payload.length < 2 ^ 32
    · obtain ⟨-, -, isRecord⟩ := encodeWrite_eq_ok encoded
      refine .inl ⟨write, sequence, isBatch, appended_singleton granted accepted encoded small, ?_⟩
      rw [Program.run_bind_ok (run_appendFrame found small), walBytes_singleton,
        ← ofNat_nextSequence granted, ← isRecord]
      rfl
    · exact .inr ⟨_, Program.run_bind_error (run_appendFrame_large small)⟩

/-- A write leaves every file but the log alone. -/
theorem perform_avoids {store : PersistentCollection backend} {file : String}
    (notLog : file ≠ walName) : (store.perform arith request).Avoids file := by
  have framed : ∀ payload, (appendFrame store.durability payload).Avoids file := by
    intro payload
    unfold appendFrame
    split
    · refine Program.Avoids.bind (avoids_io (by simp [FileOp.targets])) fun wal =>
        Program.Avoids.rescue ?_ (Program.Avoids.attempt (by simpa [FileOp.targets] using notLog))
      refine Program.Avoids.bind (avoids_io (by simpa [FileOp.targets] using notLog)) fun _ => ?_
      cases store.durability with
      | sync => exact avoids_io (by simp [FileOp.targets])
      | flush => exact .pure _
    · exact .raise _
  rcases perform_cases arith store request with ⟨error, isRaise⟩ | ⟨_, _, payload, -, -, -, -, isAppend⟩
  · rw [isRaise]
    exact .raise _
  · rw [isAppend]
    exact (framed payload).bind fun _ => .pure _

theorem appendFrame_eq_ok {next : Directory}
    (runs : (appendFrame durability payload).run disk = (next, .ok ())) :
    payload.length < 2 ^ 32 ∧ ∃ wal, disk walName = some wal := by
  unfold appendFrame at runs
  split at runs
  next small =>
    obtain ⟨_, wal, reading, -⟩ := Program.of_run_bind_ok runs
    cases found : disk walName with
    | none =>
      rw [run_readFile_missing found] at reading
      cases reading
    | some log => exact ⟨small, log, rfl⟩
  next => cases runs

theorem perform_eq_ok {next : Directory}
    {after : PersistentCollection backend}
    (runs : (store.perform arith request).run disk = (next, .ok (after, sequence))) :
    ∃ write, store.batch arith request = .ok write ∧
      Appended arith store.inner.config (store.inner.sequence.toNat + 1) [write] ∧
      after = store.committed write := by
  rcases perform_cases arith store request with ⟨error, isRaise⟩ |
    ⟨write, _, payload, isBatch, granted, accepted, encoded, isAppend⟩
  · rw [isRaise] at runs
    cases runs
  · rw [isAppend] at runs
    obtain ⟨_, _, appends, returns⟩ := Program.of_run_bind_ok runs
    cases returns
    exact ⟨write, isBatch, appended_singleton granted accepted encoded (appendFrame_eq_ok appends).1,
      rfl⟩

theorem Appended.newer {config : CollectionConfig}
    (appended : Appended arith config (store.inner.sequence.toNat + 1) [write]) :
    store.inner.sequence < (store.committed write).inner.sequence ∧
      ∀ points, write = .upsert points → ∀ point ∈ points,
        point.vector.length = config.dimension ∧
          point.sequence = (store.committed write).inner.sequence := by
  have bounded : store.inner.sequence.toNat + 1 < 2 ^ 64 := appended.bounded
  have next := commit_sequence store.inner write bounded
  have numbered : UInt64.ofNat (store.inner.sequence.toNat + 1) =
      (store.committed write).inner.sequence := by
    apply UInt64.toNat_inj.mp
    rw [toNat_ofNat_of_lt bounded]
    exact next.symm
  have shaped := (appended.accepted 0 write rfl).wellShaped
  rw [Nat.add_zero, numbered] at shaped
  constructor
  · rw [UInt64.lt_iff_toNat_lt]
    exact next ▸ Nat.lt_succ_self _
  · rintro points rfl point member
    exact ⟨(shaped.2 point member).1, (shaped.2 point member).2.2⟩

theorem readable_singleton_iff {config : CollectionConfig} {start sequence : Nat}
    (isNext : start = sequence + 1) (replays : replayWrite arith config write = .ok write) :
    Readable arith config sequence start [write] ↔ Recoverable write := by
  have none_ : sequence + 1 - start = 0 := by omega
  unfold Readable Recoverable
  rw [none_, List.drop_zero]
  simp only [List.mem_singleton, forall_eq]
  constructor
  · intro ⟨short, replayable⟩
    exact ⟨replayable.1, short⟩
  · intro ⟨within, short⟩
    exact ⟨short, within, write, replays⟩

/-- The frame of a batch is replayed to the state its commit leads to exactly
when the batch is within recovery's limits. -/
theorem recover_committed_iff (idempotent : store.inner.config.metric.PrepareIdempotent arith)
    (appended : Appended arith store.inner.config (store.inner.sequence.toNat + 1) [write]) :
    (Recoverable write →
      recover arith (walBytes (store.inner.sequence.toNat + 1) [write]) store.inner
          store.dirtyIds =
        .ok (((store.committed write).inner, (store.committed write).dirtyIds),
          (walBytes (store.inner.sequence.toNat + 1) [write]).length)) ∧
    (¬ Recoverable write → ∃ error,
      recover arith (walBytes (store.inner.sequence.toNat + 1) [write]) store.inner
        store.dirtyIds = .error error) := by
  have replays : replayWrite arith store.inner.config write = .ok write :=
    (appended.accepted 0 write rfl).replays idempotent
  have recovers : (Readable arith _ _ _ _ → _) ∧ _ :=
    recover_walBytes store.dirtyIds le_rfl appended.recorded
  rw [readable_singleton_iff rfl replays] at recovers
  refine ⟨fun recoverable => ?_, recovers.2⟩
  rw [recovers.1 recoverable, recovered_of_faithful _ _ (by simpa using ⟨recoverable, replays⟩),
    Nat.sub_self, List.drop_zero]
  rfl

/-- An acknowledged write appends one frame; replaying that frame over the
state before the write gives the state after it exactly when the batch is
within the limits of the decoder and of recovery. -/
theorem acknowledged_write_replays_iff {request : Request} {next : Directory}
    {after : PersistentCollection backend} {sequence : UInt64}
    (idempotent : store.inner.config.metric.PrepareIdempotent arith)
    (found : disk walName = some wal)
    (acknowledged : (store.perform arith request).run disk = (next, .ok (after, sequence))) :
    ∃ write frame, store.batch arith request = .ok write ∧
      next = disk.write walName (wal ++ frame) ∧
      (recover arith frame store.inner store.dirtyIds =
          .ok ((after.inner, after.dirtyIds), frame.length) ↔
        Recoverable write) := by
  rcases run_perform request found with ⟨write, granted, isBatch, appended, runs⟩ | ⟨error, refused⟩
  · rw [acknowledged, Prod.mk.injEq, Except.ok.injEq, Prod.mk.injEq] at runs
    obtain ⟨rfl, rfl, rfl⟩ := runs
    have replays := recover_committed_iff idempotent appended
    refine ⟨write, _, isBatch, rfl, fun same => ?_, replays.1⟩
    by_contra unrecoverable
    obtain ⟨error, fails⟩ := replays.2 unrecoverable
    rw [fails] at same
    cases same
  · rw [acknowledged] at refused
    cases refused

/-- A delete of a short id is replayed. -/
theorem acknowledged_delete_replays :
    let config : CollectionConfig := ⟨1, .euclidean, by decide⟩
    let store := newStore .flat config .sync
    ∃ frame,
      ((store.perform .normalised (.delete ["a"])).run (newDirectory config)).1 =
        (newDirectory config).write walName ([] ++ frame) ∧
      recover .normalised frame store.inner store.dirtyIds =
        .ok (((store.committed (.delete ["a"])).inner,
          (store.committed (.delete ["a"])).dirtyIds), frame.length) := by
  intro config store
  have found : newDirectory config walName = some [] := by decide +kernel
  obtain ⟨write, frame, isBatch, appends, replays⟩ := acknowledged_write_replays_iff
    (Metric.prepareIdempotent_of_ne_cosine (by decide)) found
    (show (store.perform .normalised (.delete ["a"])).run (newDirectory config) = (_, .ok (_, _))
      from rfl)
  have isDelete : write = .delete ["a"] := (Except.ok.inj isBatch).symm
  subst isDelete
  exact ⟨frame, appends, replays.mpr (by decide)⟩

end Running

/-! ## A write that is lost -/

theorem utf8_replicate (count : Nat) :
    (utf8 (String.ofList (List.replicate count 'a'))).length = count := by
  rw [utf8_length, String.utf8ByteSize_ofList]
  induction count with
  | zero => rfl
  | succ count ih =>
    rw [List.replicate_succ, String.utf8Len_cons, ih]
    rfl

/-- Deleting an id of more than a million bytes is acknowledged, and the frame
it leaves fails recovery. -/
theorem long_delete_not_replayed :
    let config : CollectionConfig := ⟨1, .euclidean, by decide⟩
    let store := newStore .flat config .sync
    let id := String.ofList (List.replicate 1000001 'a')
    ∃ after sequence frame,
      (store.perform .normalised (.delete [id])).run (newDirectory config) =
        ((newDirectory config).write walName ([] ++ frame), .ok (after, sequence)) ∧
      ∃ error, recover .normalised frame store.inner store.dirtyIds = .error error := by
  intro config store id
  have size : (utf8 id).length = 1000001 := utf8_replicate 1000001
  have found : newDirectory config walName = some [] := by decide +kernel
  have granted : store.inner.nextSequence = .ok 1 := rfl
  have named : ∀ other ∈ [id], other.isEmpty = false := by
    intro other member
    rw [List.mem_singleton.mp member, Bool.eq_false_iff, ne_eq,
      String.isEmpty_iff_utf8ByteSize_eq_zero, ← utf8_length, size]
    decide
  have within : WriteWithin wireLimit (.delete [id]) := by
    refine ⟨by decide, fun other member => ?_⟩
    rw [List.mem_singleton.mp member, StringWithin, size]
    decide
  have small : (recordBytes 1 (.delete [id])).length < 2 ^ 32 := by
    simp [recordLength, changeBytes, stringBytes, size]
  have encoded : encodeWrite 1 (.delete [id]) = .ok _ :=
    (encodeWrite_eq 1 (.delete [id])).1 ⟨within, trivial⟩
  have accepted : Accepted .normalised store.inner.config 1 (.delete [id]) := ⟨by simp, named⟩
  have large : ¬ Recoverable (.delete [id]) := by
    intro recoverable
    have bound : (utf8 id).length ≤ maxItems := recoverable.1.2 id List.mem_cons_self
    rw [size] at bound
    exact absurd bound (by decide)
  have runs : (store.perform .normalised (.delete [id])).run (newDirectory config) = _ :=
    (run_delete_eq granted (by simp) named).trans (run_logWrite_ok found granted encoded small)
  exact ⟨_, _, _, runs, (recover_committed_iff
    (Metric.prepareIdempotent_of_ne_cosine (by decide))
    (appended_singleton granted accepted encoded small)).2 large⟩

end FocalVector.Persistence
