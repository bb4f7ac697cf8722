import FocalVector.Persistence.Wal
import FocalVector.Persistence.Files

/-!
Contract: recovery of a whole write-ahead log.

A log is a list of batches with consecutive sequences. Loaded over a snapshot
that already holds the first of them, recovery commits exactly the rest, each
with its vectors prepared a second time. A log cut at any byte recovers to the
end of its last whole frame.

Owns: recorded logs, what recovery makes of them, and the torn log.

Does not own: loading the snapshot, appending to the log, or altered logs.
-/

namespace FocalVector.Persistence

open FocalVector.Foundation FocalVector.Engine LittleEndian

/-! ## Recorded logs -/

def commit (collection : Collection) (write : Write) : Collection :=
  collection.applyWrite write (collection.sequence + 1)

def commitAll (collection : Collection) (writes : List Write) : Collection :=
  writes.foldl commit collection

def changedIds (dirtyIds : IdSet) (writes : List Write) : IdSet :=
  dirtyIds.insertMany (writes.flatMap Write.ids)

/-- The payloads of batches whose sequences count up from `start`. -/
def payloads : Nat → List Write → List Bytes
  | _, [] => []
  | start, write :: rest => recordBytes (UInt64.ofNat start) write :: payloads (start + 1) rest

/-- The log file that holds batches whose sequences count up from `start`. -/
def walBytes (start : Nat) (writes : List Write) : Bytes :=
  walFormat.frames (payloads start writes)

def recordLength (write : Write) : Nat := 9 + (changeBytes write).length

def Recoverable (write : Write) : Prop :=
  WriteWithin maxItems write ∧ recordLength write ≤ maxFrameBytes

instance (write : Write) : Decidable (Recoverable write) :=
  inferInstanceAs (Decidable (_ ∧ _))

/-- Batches as the log holds them, with sequences from `start` on. -/
structure Recorded (config : CollectionConfig) (start : Nat) (writes : List Write) : Prop where
  bounded : start + writes.length ≤ 2 ^ 64
  shaped : ∀ index write, writes[index]? = some write →
    WellShaped config (UInt64.ofNat (start + index)) write
  fits : ∀ write ∈ writes, WriteWithin wireLimit write
  finite : ∀ write ∈ writes, WriteFinite write
  framed : ∀ write ∈ writes, recordLength write < 2 ^ 32

/-- Batches that successful upsert and delete calls appended one after another,
with sequences from `start` on. -/
structure Appended (arith : FloatArithmetic) (config : CollectionConfig) (start : Nat)
    (writes : List Write) : Prop where
  bounded : start + writes.length ≤ 2 ^ 64
  accepted : ∀ index write, writes[index]? = some write →
    Accepted arith config (UInt64.ofNat (start + index)) write
  encoded : ∀ index write, writes[index]? = some write → ∃ payload,
    encodeWrite (UInt64.ofNat (start + index)) write = .ok payload ∧ payload.length < 2 ^ 32

namespace Recorded

variable {config : CollectionConfig} {start : Nat} {write : Write} {writes : List Write}

theorem head (recorded : Recorded config start (write :: writes)) :
    WellShaped config (UInt64.ofNat start) write :=
  recorded.shaped 0 write rfl

theorem tail (recorded : Recorded config start (write :: writes)) :
    Recorded config (start + 1) writes where
  bounded := by
    have bound := recorded.bounded
    rw [List.length_cons] at bound
    omega
  shaped := by
    intro index later found
    have shifted := recorded.shaped (index + 1) later found
    rwa [show start + (index + 1) = start + 1 + index by omega] at shifted
  fits := fun later member => recorded.fits later (List.mem_cons_of_mem _ member)
  finite := fun later member => recorded.finite later (List.mem_cons_of_mem _ member)
  framed := fun later member => recorded.framed later (List.mem_cons_of_mem _ member)

theorem take (recorded : Recorded config start writes) (count : Nat) :
    Recorded config start (writes.take count) where
  bounded := by
    have bound := recorded.bounded
    have shorter : (writes.take count).length ≤ writes.length := by
      rw [List.length_take]
      omega
    omega
  shaped := by
    intro index later found
    rw [List.getElem?_take] at found
    split at found
    · exact recorded.shaped index later found
    · contradiction
  fits := fun later member => recorded.fits later (List.mem_of_mem_take member)
  finite := fun later member => recorded.finite later (List.mem_of_mem_take member)
  framed := fun later member => recorded.framed later (List.mem_of_mem_take member)

theorem drop (recorded : Recorded config start writes) (count : Nat)
    (within : count ≤ writes.length) : Recorded config (start + count) (writes.drop count) where
  bounded := by
    have bound := recorded.bounded
    rw [List.length_drop]
    omega
  shaped := by
    intro index later found
    rw [List.getElem?_drop] at found
    rw [Nat.add_assoc]
    exact recorded.shaped (count + index) later found
  fits := fun later member => recorded.fits later (List.mem_of_mem_drop member)
  finite := fun later member => recorded.finite later (List.mem_of_mem_drop member)
  framed := fun later member => recorded.framed later (List.mem_of_mem_drop member)

theorem append {later : List Write} (recorded : Recorded config start writes)
    (next : Recorded config (start + writes.length) later) :
    Recorded config start (writes ++ later) where
  bounded := by
    have bound := next.bounded
    rw [List.length_append]
    omega
  shaped := by
    intro index found lookup
    by_cases inside : index < writes.length
    · rw [List.getElem?_append_left inside] at lookup
      exact recorded.shaped index found lookup
    · rw [List.getElem?_append_right (by omega)] at lookup
      have shifted := next.shaped _ found lookup
      rwa [show start + writes.length + (index - writes.length) = start + index by omega]
        at shifted
  fits := fun found member => (List.mem_append.mp member).elim (recorded.fits found)
    (next.fits found)
  finite := fun found member => (List.mem_append.mp member).elim (recorded.finite found)
    (next.finite found)
  framed := fun found member => (List.mem_append.mp member).elim (recorded.framed found)
    (next.framed found)

end Recorded

@[simp] theorem recordBytes_length (sequence : UInt64) (write : Write) :
    (recordBytes sequence write).length = recordLength write := by
  simp [recordBytes, recordLength]
  omega

theorem payloads_append (start : Nat) (left right : List Write) :
    payloads start (left ++ right) =
      payloads start left ++ payloads (start + left.length) right := by
  induction left generalizing start with
  | nil => rfl
  | cons write rest ih =>
    simp only [List.cons_append, payloads, ih, List.length_cons]
    rw [show start + 1 + rest.length = start + (rest.length + 1) by omega]

theorem payloads_take (start : Nat) (writes : List Write) (count : Nat) :
    (payloads start writes).take count = payloads start (writes.take count) := by
  induction writes generalizing start count with
  | nil => simp [payloads]
  | cons write rest ih =>
    cases count with
    | zero => rfl
    | succ count => simp [payloads, ih]

theorem walBytes_append (start : Nat) (left right : List Write) :
    walBytes start (left ++ right) =
      walBytes start left ++ walBytes (start + left.length) right := by
  unfold walBytes FrameFormat.frames
  rw [payloads_append, List.flatMap_append]

variable {writes : List Write}

theorem length_of_mem_payloads {start : Nat} {payload : Bytes}
    (member : payload ∈ payloads start writes) :
    ∃ write ∈ writes, payload.length = recordLength write := by
  induction writes generalizing start with
  | nil => simp [payloads] at member
  | cons write rest ih =>
    rcases List.mem_cons.mp member with rfl | later
    · exact ⟨write, List.mem_cons_self, recordBytes_length _ _⟩
    · obtain ⟨found, foundMember, sameLength⟩ := ih later
      exact ⟨found, List.mem_cons_of_mem _ foundMember, sameLength⟩

theorem payloads_fit (short : ∀ write ∈ writes, recordLength write ≤ maxFrameBytes) (start : Nat) :
    ∀ payload ∈ payloads start writes, payload.length ≤ walFormat.maxPayload := by
  intro payload member
  obtain ⟨write, writeMember, sameLength⟩ := length_of_mem_payloads member
  rw [sameLength]
  exact short write writeMember

theorem exists_payload_of_mem {write : Write} (member : write ∈ writes)
    (start : Nat) : ∃ payload ∈ payloads start writes, payload.length = recordLength write := by
  induction writes generalizing start with
  | nil => cases member
  | cons first rest ih =>
    rcases List.mem_cons.mp member with rfl | later
    · exact ⟨_, List.mem_cons_self, recordBytes_length _ _⟩
    · obtain ⟨payload, found, sameLength⟩ := ih later (start + 1)
      exact ⟨payload, List.mem_cons_of_mem _ found, sameLength⟩

@[simp] theorem commit_config (collection : Collection) (write : Write) :
    (commit collection write).config = collection.config :=
  Collection.applyWrite_config _

@[simp] theorem commitAll_config (collection : Collection) (writes : List Write) :
    (commitAll collection writes).config = collection.config := by
  induction writes generalizing collection with
  | nil => rfl
  | cons write rest ih =>
    exact (ih _).trans (commit_config collection write)

theorem commit_sequence (collection : Collection) (write : Write)
    (bounded : collection.sequence.toNat + 1 < 2 ^ 64) :
    (commit collection write).sequence.toNat = collection.sequence.toNat + 1 := by
  simp only [commit, Collection.applyWrite_sequence, UInt64.toNat_add]
  exact Nat.mod_eq_of_lt bounded

theorem Appended.recorded {arith : FloatArithmetic} {config : CollectionConfig} {start : Nat} (appended : Appended arith config start writes) :
    Recorded config start writes := by
  have each : ∀ write ∈ writes, WriteWithin wireLimit write ∧ WriteFinite write ∧
      recordLength write < 2 ^ 32 := by
    intro write member
    obtain ⟨index, found⟩ := List.mem_iff_getElem?.mp member
    obtain ⟨payload, encoded, small⟩ := appended.encoded index write found
    obtain ⟨fits, finite, rfl⟩ := encodeWrite_eq_ok encoded
    exact ⟨fits, finite, by rwa [recordBytes_length] at small⟩
  exact {
    bounded := appended.bounded
    shaped := fun index write found => (appended.accepted index write found).wellShaped
    fits := fun write member => (each write member).1
    finite := fun write member => (each write member).2.1
    framed := fun write member => (each write member).2.2 }

theorem commitAll_sequence (collection : Collection) (writes : List Write)
    (bounded : collection.sequence.toNat + writes.length < 2 ^ 64) :
    (commitAll collection writes).sequence.toNat = collection.sequence.toNat + writes.length := by
  induction writes generalizing collection with
  | nil => rfl
  | cons write rest ih =>
    rw [List.length_cons] at bounded
    have advanced := commit_sequence collection write (by omega)
    have later := ih (commit collection write) (by omega)
    rw [List.length_cons]
    change (commitAll (commit collection write) rest).sequence.toNat = _
    omega

/-! ## Replaying a log -/

section Replay

variable {arith : FloatArithmetic} {collection : Collection} {dirtyIds : IdSet} {start : Nat}
  {write : Write} {writes : List Write}

theorem toNat_ofNat_of_lt {value : Nat} (bounded : value < 2 ^ 64) :
    (UInt64.ofNat value).toNat = value := by
  rw [UInt64.toNat_ofNat']
  exact Nat.mod_eq_of_lt bounded

theorem nextSequence_ofNat (bounded : collection.sequence.toNat + 1 < 2 ^ 64) :
    collection.nextSequence = .ok (UInt64.ofNat (collection.sequence.toNat + 1)) := by
  unfold Collection.nextSequence
  rw [if_pos bounded]
  have same : (collection.sequence + 1).toNat =
      (UInt64.ofNat (collection.sequence.toNat + 1)).toNat := by
    rw [toNat_ofNat_of_lt bounded, UInt64.toNat_add]
    exact Nat.mod_eq_of_lt bounded
  rw [UInt64.toNat_inj.mp same]

/-- A record the collection already holds changes nothing. -/
theorem recoverStep_stale (stale : start ≤ collection.sequence.toNat) :
    recoverStep arith (collection, dirtyIds) (recordBytes (UInt64.ofNat start) write) =
      .ok (collection, dirtyIds) := by
  have bounded : start < 2 ^ 64 := lt_of_le_of_lt stale collection.sequence.toNat_lt
  have below : UInt64.ofNat start ≤ collection.sequence := by
    rw [UInt64.le_iff_toNat_le, toNat_ofNat_of_lt bounded]
    exact stale
  unfold recoverStep recordBytes
  simp only [applyPayload_stale below]
  rfl

theorem recoverStep_short {state : Collection × IdSet} {payload : Bytes}
    (short : payload.length < 9) : ∃ error, recoverStep arith state payload = .error error := by
  obtain ⟨error, fails⟩ := applyPayload_short short
  exact ⟨error, by unfold recoverStep; rw [fails]; rfl⟩

theorem recoverStep_next (isNext : start = collection.sequence.toNat + 1)
    (recorded : Recorded collection.config start (write :: writes)) :
    (Replayable arith collection.config write →
      recoverStep arith (collection, dirtyIds) (recordBytes (UInt64.ofNat start) write) =
        .ok (commit collection (asReplayed arith collection.config write),
          dirtyIds.insertMany write.ids)) ∧
    (¬ Replayable arith collection.config write → ∃ error,
      recoverStep arith (collection, dirtyIds) (recordBytes (UInt64.ofNat start) write) =
        .error error) := by
  subst isNext
  have bound := recorded.bounded
  rw [List.length_cons] at bound
  have next : collection.nextSequence = _ := nextSequence_ofNat (by omega)
  have replayed : (Replayable arith collection.config write ∧ _ → _) ∧ _ :=
    applyPayload_record next recorded.head
    (recorded.fits write List.mem_cons_self) (recorded.finite write List.mem_cons_self) []
  rw [List.append_nil] at replayed
  have sameSequence : UInt64.ofNat (collection.sequence.toNat + 1) = collection.sequence + 1 := by
    unfold Collection.nextSequence at next
    rw [if_pos (by omega)] at next
    exact (Except.ok.inj next).symm
  constructor
  · intro replayable
    unfold recoverStep
    simp only [replayed.1 ⟨replayable, rfl⟩]
    rw [commit, ← sameSequence]
    rfl
  · intro refused
    obtain ⟨error, fails⟩ := replayed.2 fun accepted => refused accepted.1
    exact ⟨error, by unfold recoverStep; simp only [fails]; rfl⟩

def replayAll (arith : FloatArithmetic) (config : CollectionConfig) (writes : List Write) :
    List Write :=
  writes.map (asReplayed arith config)

/-- Over a snapshot that holds the records below `sequence + 1`, replay commits
the rest. -/
theorem foldlM_recoverStep (starts : start ≤ collection.sequence.toNat + 1)
    (recorded : Recorded collection.config start writes)
    (replayable : ∀ write ∈ writes.drop (collection.sequence.toNat + 1 - start),
      Replayable arith collection.config write) :
    (payloads start writes).foldlM (recoverStep arith) (collection, dirtyIds) =
      .ok (commitAll collection (replayAll arith collection.config
          (writes.drop (collection.sequence.toNat + 1 - start))),
        changedIds dirtyIds (writes.drop (collection.sequence.toNat + 1 - start))) := by
  induction writes generalizing start collection dirtyIds with
  | nil => simp [payloads, replayAll, commitAll, changedIds, pure, Except.pure]
  | cons write rest ih =>
    rw [payloads, List.foldlM_cons]
    by_cases stale : start ≤ collection.sequence.toNat
    · have skip : collection.sequence.toNat + 1 - start =
          (collection.sequence.toNat + 1 - (start + 1)) + 1 := by omega
      rw [skip, List.drop_succ_cons] at replayable ⊢
      rw [recoverStep_stale stale]
      exact ih (by omega) recorded.tail replayable
    · have isNext : start = collection.sequence.toNat + 1 := by omega
      have bound := recorded.bounded
      rw [List.length_cons] at bound
      have none_ : collection.sequence.toNat + 1 - start = 0 := by omega
      rw [none_, List.drop_zero] at replayable ⊢
      rw [(recoverStep_next isNext recorded).1 (replayable write List.mem_cons_self)]
      generalize asWritten : asReplayed arith collection.config write = again
      have advanced := commit_sequence collection again (by omega)
      have noneLater : (commit collection again).sequence.toNat + 1 - (start + 1) = 0 := by
        omega
      have later : (payloads (start + 1) rest).foldlM (recoverStep arith)
          (commit collection again, dirtyIds.insertMany write.ids) = _ :=
        ih (by omega) (by rw [commit_config]; exact recorded.tail)
          (by
            rw [noneLater, List.drop_zero, commit_config]
            exact fun found member => replayable found (List.mem_cons_of_mem _ member))
      rw [noneLater, List.drop_zero, commit_config] at later
      change (payloads (start + 1) rest).foldlM (recoverStep arith) _ = _
      rw [later]
      simp only [commitAll, replayAll, List.map_cons, List.foldl_cons, changedIds,
        List.flatMap_cons, Std.ExtTreeSet.insertMany_append, asWritten]

theorem foldlM_recoverStep_fails (starts : start ≤ collection.sequence.toNat + 1)
    (recorded : Recorded collection.config start writes)
    (refused : ∃ write ∈ writes.drop (collection.sequence.toNat + 1 - start),
      ¬ Replayable arith collection.config write) :
    ∃ error, (payloads start writes).foldlM (recoverStep arith) (collection, dirtyIds) =
      .error error := by
  induction writes generalizing start collection dirtyIds with
  | nil => simp at refused
  | cons write rest ih =>
    rw [payloads, List.foldlM_cons]
    by_cases stale : start ≤ collection.sequence.toNat
    · have skip : collection.sequence.toNat + 1 - start =
          (collection.sequence.toNat + 1 - (start + 1)) + 1 := by omega
      rw [skip, List.drop_succ_cons] at refused
      rw [recoverStep_stale stale]
      exact ih (by omega) recorded.tail refused
    · have isNext : start = collection.sequence.toNat + 1 := by omega
      have bound := recorded.bounded
      rw [List.length_cons] at bound
      have none_ : collection.sequence.toNat + 1 - start = 0 := by omega
      rw [none_, List.drop_zero] at refused
      by_cases replayable : Replayable arith collection.config write
      · rw [(recoverStep_next isNext recorded).1 replayable]
        generalize asReplayed arith collection.config write = again
        have advanced := commit_sequence collection again (by omega)
        have restRecorded : Recorded (commit collection again).config (start + 1) rest := by
          rw [commit_config]
          exact recorded.tail
        refine ih (by omega) restRecorded ?_
        obtain ⟨bad, member, isBad⟩ := refused
        rcases List.mem_cons.mp member with rfl | later
        · exact absurd replayable isBad
        · have noneLater : (commit collection again).sequence.toNat + 1 - (start + 1) = 0 := by
            omega
          rw [noneLater, List.drop_zero, commit_config]
          exact ⟨bad, later, isBad⟩
      · obtain ⟨error, fails⟩ := (recoverStep_next isNext recorded).2 replayable
        exact ⟨error, by rw [fails]; rfl⟩

/-- A log that a collection at `sequence` reads to its end: no frame is
oversized, and replay accepts every batch that is not skipped. -/
def Readable (arith : FloatArithmetic) (config : CollectionConfig) (sequence start : Nat)
    (writes : List Write) : Prop :=
  (∀ write ∈ writes, recordLength write ≤ maxFrameBytes) ∧
    ∀ write ∈ writes.drop (sequence + 1 - start), Replayable arith config write

def recovered (arith : FloatArithmetic) (collection : Collection) (dirtyIds : IdSet)
    (start : Nat) (writes : List Write) : Collection × IdSet :=
  (commitAll collection (replayAll arith collection.config
      (writes.drop (collection.sequence.toNat + 1 - start))),
    changedIds dirtyIds (writes.drop (collection.sequence.toNat + 1 - start)))

/-- Recovery reads a readable log and goes on behind it, and fails on any other. -/
theorem recover_walBytes_append (dirtyIds : IdSet)
    (starts : start ≤ collection.sequence.toNat + 1)
    (recorded : Recorded collection.config start writes) (rest : Bytes) :
    (Readable arith collection.config collection.sequence.toNat start writes →
      recover arith (walBytes start writes ++ rest) collection dirtyIds =
        walFormat.recover walFault (recoverStep arith) rest (walBytes start writes).length
          (recovered arith collection dirtyIds start writes)) ∧
    (¬ Readable arith collection.config collection.sequence.toNat start writes → ∃ error,
      recover arith (walBytes start writes ++ rest) collection dirtyIds = .error error) := by
  unfold recover walBytes
  by_cases small : ∀ write ∈ writes, recordLength write ≤ maxFrameBytes
  · have fit : ∀ payload ∈ payloads start writes, payload.length ≤ walFormat.maxPayload := by
      intro payload member
      obtain ⟨write, writeMember, sameLength⟩ := length_of_mem_payloads member
      rw [sameLength]
      exact small write writeMember
    rw [FrameFormat.recover_frames_append _ fit]
    constructor
    · intro readable
      rw [foldlM_recoverStep starts recorded readable.2]
      simp only [Except.bind, Nat.zero_add]
      rfl
    · intro unreadable
      have refused : ∃ write ∈ writes.drop (collection.sequence.toNat + 1 - start),
          ¬ Replayable arith collection.config write := by
        by_contra none_
        exact unreadable ⟨small, by simpa using none_⟩
      obtain ⟨error, fails⟩ := foldlM_recoverStep_fails starts recorded refused
      exact ⟨error, by rw [fails]; rfl⟩
  · refine ⟨fun readable => absurd readable.1 small, fun _ => ?_⟩
    have oversized : ∃ payload ∈ payloads start writes, walFormat.maxPayload < payload.length := by
      rw [not_forall] at small
      obtain ⟨write, large⟩ := small
      rw [Classical.not_imp, not_le] at large
      obtain ⟨payload, found, sameLength⟩ := exists_payload_of_mem large.1 start
      exact ⟨payload, found, by rw [sameLength]; exact large.2⟩
    refine FrameFormat.recover_oversized ?_ oversized rest 0 _
    intro payload member
    obtain ⟨write, writeMember, sameLength⟩ := length_of_mem_payloads member
    rw [sameLength]
    exact recorded.framed write writeMember

/-- A log is recovered completely when it is readable, and refused otherwise. -/
theorem recover_walBytes (dirtyIds : IdSet) (starts : start ≤ collection.sequence.toNat + 1)
    (recorded : Recorded collection.config start writes) :
    (Readable arith collection.config collection.sequence.toNat start writes →
      recover arith (walBytes start writes) collection dirtyIds =
        .ok (recovered arith collection dirtyIds start writes, (walBytes start writes).length)) ∧
    (¬ Readable arith collection.config collection.sequence.toNat start writes → ∃ error,
      recover arith (walBytes start writes) collection dirtyIds = .error error) := by
  have whole : (Readable arith _ _ _ _ → _) ∧ _ :=
    recover_walBytes_append dirtyIds starts recorded []
  rw [List.append_nil, FrameFormat.recover_nil] at whole
  exact whole

/-- Batches that replay takes as they are: it reads them, and preparing keeps
their vectors. -/
def Faithful (arith : FloatArithmetic) (config : CollectionConfig) (write : Write) : Prop :=
  Recoverable write ∧ replayWrite arith config write = .ok write

variable {config : CollectionConfig}

theorem Faithful.replayable (faithful : Faithful arith config write) :
    Replayable arith config write :=
  ⟨faithful.1.1, write, faithful.2⟩

theorem replayAll_eq_self (replays : ∀ write ∈ writes, replayWrite arith config write = .ok write) :
    replayAll arith config writes = writes := by
  have same : ∀ write ∈ writes, asReplayed arith config write = write :=
    fun write member => asReplayed_eq (replays write member)
  simpa [replayAll] using List.map_congr_left same

theorem readable_of_faithful (sequence start : Nat)
    (faithful : ∀ write ∈ writes, Faithful arith config write) :
    Readable arith config sequence start writes :=
  ⟨fun write member => (faithful write member).1.2,
    fun write member => (faithful write (List.mem_of_mem_drop member)).replayable⟩

theorem Readable.advance {sequence later : Nat}
    (readable : Readable arith config sequence start writes) (further : sequence ≤ later) :
    Readable arith config later start writes := by
  refine ⟨readable.1, fun write member => readable.2 write ?_⟩
  rw [show later + 1 - start = (sequence + 1 - start) + (later + 1 - start - (sequence + 1 - start))
    by omega, ← List.drop_drop] at member
  exact List.mem_of_mem_drop member

/-- A readable log stays so with one more faithful batch at its end. -/
theorem Readable.append {sequence : Nat}
    (readable : Readable arith config sequence start writes)
    (faithful : Faithful arith config write) :
    Readable arith config sequence start (writes ++ [write]) := by
  constructor
  · exact List.forall_mem_append.mpr ⟨readable.1, List.forall_mem_singleton.mpr faithful.1.2⟩
  · intro other member
    rw [List.drop_append] at member
    rcases List.mem_append.mp member with earlier | last
    · exact readable.2 other earlier
    · rw [List.mem_singleton.mp (List.mem_of_mem_drop last)]
      exact faithful.replayable

theorem Appended.faithful (appended : Appended arith config start writes)
    (idempotent : config.metric.PrepareIdempotent arith)
    (recoverable : ∀ write ∈ writes, Recoverable write) :
    ∀ write ∈ writes, Faithful arith config write := by
  intro write member
  obtain ⟨index, found⟩ := List.mem_iff_getElem?.mp member
  exact ⟨recoverable write member, (appended.accepted index write found).replays idempotent⟩

theorem recovered_of_faithful (dirtyIds : IdSet) (start : Nat)
    (faithful : ∀ write ∈ writes, Faithful arith collection.config write) :
    recovered arith collection dirtyIds start writes =
      (commitAll collection (writes.drop (collection.sequence.toNat + 1 - start)),
        changedIds dirtyIds (writes.drop (collection.sequence.toNat + 1 - start))) := by
  unfold recovered
  rw [replayAll_eq_self fun write member => (faithful write (List.mem_of_mem_drop member)).2]

/-! ## A torn log -/

/-- `recover` on the log file: replay it and cut it behind the last whole frame. -/
def recoverFile (arith : FloatArithmetic) (collection : Collection) (dirtyIds : IdSet) :
    Fs (Collection × IdSet) := do
  let wal ← readFile walName
  let (state, validLength) ← Program.ofExcept (recover arith wal collection dirtyIds)
  if validLength < wal.length then
    setFileLength walName validLength
  return state

theorem run_recoverFile {disk : Directory} {wal : Bytes} {state : Collection × IdSet}
    {validLength : Nat} (found : disk walName = some wal)
    (recovers : recover arith wal collection dirtyIds = .ok (state, validLength))
    (within : validLength ≤ wal.length) :
    (recoverFile arith collection dirtyIds).run disk =
      (disk.write walName (wal.take validLength), .ok state) := by
  unfold recoverFile
  rw [Program.run_bind_ok (run_readFile found), recovers]
  by_cases torn : validLength < wal.length
  · have cut := run_setFileLength found within
    change (if validLength < wal.length then
      setFileLength walName validLength >>= fun _ => pure state else pure state : Fs _).run disk = _
    rw [if_pos torn, Program.run_bind_ok cut]
    rfl
  · have whole : wal.take validLength = wal := List.take_of_length_le (by omega)
    change (if validLength < wal.length then
      setFileLength walName validLength >>= fun _ => pure state else pure state : Fs _).run disk = _
    rw [if_neg torn, whole, Disk.write_self found]
    rfl

theorem run_recoverFile_error {disk : Directory} {wal : Bytes} {error : Error}
    (found : disk walName = some wal)
    (fails : recover arith wal collection dirtyIds = .error error) :
    (recoverFile arith collection dirtyIds).run disk = (disk, .error error) := by
  unfold recoverFile
  rw [Program.run_bind_ok (run_readFile found), fails]
  exact Program.run_bind_error rfl

theorem take_walBytes (start : Nat) (short : ∀ write ∈ writes, recordLength write ≤ maxFrameBytes)
    (cut : Nat) :
    ∃ rest, (walBytes start writes).take cut =
      walBytes start (writes.take (walFormat.wholeFrames (payloads start writes) cut)) ++ rest := by
  obtain ⟨rest, split, -⟩ := FrameFormat.take_frames (payloads start writes)
    (payloads_fit short start) cut
  rw [FrameFormat.complete_eq_take, payloads_take] at split
  exact ⟨rest, split⟩

theorem recover_take_walBytes (dirtyIds : IdSet)
    (starts : start ≤ collection.sequence.toNat + 1)
    (recorded : Recorded collection.config start writes)
    (readable : Readable arith collection.config collection.sequence.toNat start writes)
    (cut : Nat) :
    let whole := writes.take (walFormat.wholeFrames (payloads start writes) cut)
    recover arith ((walBytes start writes).take cut) collection dirtyIds =
      .ok (recovered arith collection dirtyIds start whole, (walBytes start whole).length) := by
  intro whole
  have replayable : ∀ write ∈ whole.drop (collection.sequence.toNat + 1 - start),
      Replayable arith collection.config write := fun write member =>
    readable.2 write (((List.take_sublist _ _).drop _).subset member)
  unfold recover walBytes
  rw [FrameFormat.recover_take _ (payloads_fit readable.1 start), FrameFormat.complete_eq_take,
    payloads_take, foldlM_recoverStep starts (recorded.take _) replayable]
  simp only [Except.map, Nat.zero_add]
  rfl

theorem torn_walBytes {write : Write} (short : recordLength write ≤ maxFrameBytes)
    (sequence : Nat) {kept : Nat} (partly : kept < (walBytes sequence [write]).length) :
    (walBytes sequence [write]).take kept = [] ∨
      walFormat.scan ((walBytes sequence [write]).take kept) = .torn := by
  have fits : (recordBytes (UInt64.ofNat sequence) write).length ≤ walFormat.maxPayload := by
    rw [recordBytes_length]
    exact short
  have single : walBytes sequence [write] =
      walFormat.frame (recordBytes (UInt64.ofNat sequence) write) := by
    simp [walBytes, payloads]
  rw [single] at partly ⊢
  rcases Nat.eq_zero_or_pos kept with rfl | some_
  · exact .inl List.take_zero
  · exact .inr (FrameFormat.scan_torn fits some_ partly)

/-- A log cut at any byte recovers its whole frames, keeps exactly those, and
recovers the same once more. -/
theorem torn_log_recovers {disk : Directory} {cut : Nat}
    (idempotent : collection.config.metric.PrepareIdempotent arith)
    (appended : Appended arith collection.config start writes)
    (recoverable : ∀ write ∈ writes, Recoverable write)
    (starts : start ≤ collection.sequence.toNat + 1)
    (file : disk walName = some ((walBytes start writes).take cut)) :
    let whole := writes.take (walFormat.wholeFrames (payloads start writes) cut)
    let applied := whole.drop (collection.sequence.toNat + 1 - start)
    let kept := disk.write walName (walBytes start whole)
    (recoverFile arith collection ∅).run disk =
        (kept, .ok (commitAll collection applied, changedIds ∅ applied)) ∧
      (recoverFile arith collection ∅).run kept =
        (kept, .ok (commitAll collection applied, changedIds ∅ applied)) := by
  intro whole applied kept
  have recorded := appended.recorded
  have faithful := appended.faithful idempotent recoverable
  have wholeFaithful : ∀ write ∈ whole, Faithful arith collection.config write :=
    fun write member => faithful write (List.mem_of_mem_take member)
  rw [← recovered_of_faithful ∅ start wholeFaithful]
  constructor
  · have recovers := recover_take_walBytes ∅ starts recorded
      (readable_of_faithful _ start faithful) cut
    obtain ⟨rest, split⟩ := take_walBytes start (fun write member => (recoverable write member).2) cut
    have within : (walBytes start whole).length ≤ ((walBytes start writes).take cut).length := by
      rw [split, List.length_append]
      exact Nat.le_add_right _ _
    rw [run_recoverFile file recovers within, split, List.take_left]
  · have recovers := (recover_walBytes ∅ starts (recorded.take _)).1
      (readable_of_faithful _ start wholeFaithful)
    have keptFile : kept walName = some (walBytes start whole) := Disk.write_same _ _ _
    rw [run_recoverFile keptFile recovers le_rfl, List.take_length, Disk.write_self keptFile]

/-- Two deletes with the second frame torn: the first is recovered. -/
theorem torn_second_delete_recovers :
    let collection : Collection := ⟨⟨1, .euclidean, by decide⟩, .empty, 0⟩
    let writes : List Write := [.delete ["a"], .delete ["b"]]
    let disk : Directory := fun _ => some ((walBytes 1 writes).take 40)
    let kept := disk.write walName (walBytes 1 [.delete ["a"]])
    (recoverFile .normalised collection ∅).run disk =
        (kept, .ok (commitAll collection [.delete ["a"]], changedIds ∅ [.delete ["a"]])) ∧
      (recoverFile .normalised collection ∅).run kept =
        (kept, .ok (commitAll collection [.delete ["a"]], changedIds ∅ [.delete ["a"]])) := by
  intro collection writes disk kept
  have each : ∀ write ∈ writes,
      (∀ sequence, Accepted .normalised collection.config sequence write) ∧
      WriteWithin wireLimit write ∧ WriteFinite write ∧ recordLength write < 2 ^ 32 := by
    intro write member
    rcases List.mem_cons.mp member with rfl | rest
    · exact ⟨fun _ => ⟨by simp, by decide⟩, by decide, trivial, by decide⟩
    · rw [List.mem_singleton.mp rest]
      exact ⟨fun _ => ⟨by simp, by decide⟩, by decide, trivial, by decide⟩
  have appended : Appended .normalised collection.config 1 writes := by
    refine ⟨by decide, fun index write found => ?_, fun index write found => ?_⟩
    · exact (each write (List.mem_of_getElem? found)).1 _
    · obtain ⟨-, within, finite, short⟩ := each write (List.mem_of_getElem? found)
      exact ⟨_, (encodeWrite_eq _ write).1 ⟨within, finite⟩, by rwa [recordBytes_length]⟩
  have whole : walFormat.wholeFrames (payloads 1 writes) 40 = 1 := by decide +kernel
  have torn : (recoverFile .normalised collection ∅).run disk = _ ∧ _ :=
    torn_log_recovers (Metric.prepareIdempotent_of_ne_cosine (by decide)) appended (by decide)
      (by decide) rfl
  rw [whole] at torn
  exact torn

end Replay

end FocalVector.Persistence
