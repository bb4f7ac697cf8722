import FocalVector.Raft.Replica
import FocalVector.Raft.SearchRuns

/-!
Contract: what a snapshot that is not accepted leaves behind.

A snapshot is decoded and its configuration compared before it replaces the snapshot
file. Its points are checked only afterwards, when the indexes are built and the
collection is restored, and opening the directory repeats these checks. A snapshot that
fails them is refused, and from then on the directory does not open.

Owns: when a rejected installation leaves the recovered state as it was.

Does not own: snapshots that are accepted.
-/

namespace FocalVector.Raft

open FocalVector.Foundation FocalVector.Engine FocalVector.Persistence

variable {arith : FloatArithmetic} {json : SerdeJson} {indexes : ShardIndexes}
  {config : CollectionConfig}

/-- The snapshot does not decode, or is of another configuration. -/
def RefusedAtOnce (json : SerdeJson) (config : CollectionConfig) (data : Bytes) : Prop :=
  ∀ snapshot, decodeStateSnapshot json data = .ok snapshot → snapshot.config ≠ config

/-- The snapshot is stored before its points are found not to be restorable. -/
def RefusedLate (json : SerdeJson) (indexes : ShardIndexes) (config : CollectionConfig)
    (data : Bytes) : Prop :=
  ∃ snapshot error, decodeStateSnapshot json data = .ok snapshot ∧ snapshot.config = config ∧
    restoreSnapshot indexes snapshot = .error error

def reopened (arith : FloatArithmetic) (json : SerdeJson) (indexes : ShardIndexes)
    (config : CollectionConfig) (disk : Directory) : Option (ShardMachine indexes) :=
  ((openMachine arith json indexes config).run disk).2.toOption

section Installing

variable {process : Nat} {machine : ShardMachine indexes} {snapshotMeta : SnapshotMeta}
  {data : Bytes} {disk next : Directory} {error : Error}

theorem of_run_installSnapshot_error (journal : disk stateJournal.file ≠ none)
    (rejects : (installSnapshot json process machine snapshotMeta data).run disk =
      (next, .error error)) :
    (RefusedAtOnce json machine.config data ∧ next = disk) ∨
      (RefusedLate json indexes machine.config data ∧
        next snapshotName = some (json.storedSnapshot.toVec (.sealing json snapshotMeta data))) := by
  unfold installSnapshot at rejects
  cases decodes : decodeStateSnapshot json data with
  | error fault =>
    rw [decodes] at rejects
    cases rejects
    refine .inl ⟨fun snapshot decoded => ?_, rfl⟩
    rw [decodes] at decoded
    cases decoded
  | ok snapshot =>
    rw [decodes, Program.run_bind_ok (Program.run_ofExcept _)] at rejects
    split at rejects
    next differs =>
      cases rejects
      refine .inl ⟨fun other decoded => ?_, rfl⟩
      rw [decodes] at decoded
      cases decoded
      exact differs
    next same =>
      obtain ⟨written, writes, stored, others⟩ := run_replaceFile disk
        (snapshotTemporaryName process) snapshotName (json.storedSnapshot.toVec
          (.sealing json snapshotMeta data))
      rw [Program.run_bind_ok (show (writeSnapshot json process _).run disk = _ from writes)] at rejects
      cases restores : restoreSnapshot indexes snapshot with
      | error fault =>
        rw [restores] at rejects
        cases rejects
        exact .inr ⟨⟨snapshot, _, decodes, not_not.mp same, restores⟩, stored⟩
      | ok restored =>
        -- Only a missing journal could still fail.
        obtain ⟨bytes, found⟩ := Option.ne_none_iff_exists'.mp journal
        have kept : written stateJournal.file = some bytes :=
          (others _ (stateJournal_ne_temporary process) stateJournal_ne_snapshot).trans found
        rw [restores, Program.run_bind_ok (Program.run_ofExcept _)] at rejects
        simp only at rejects
        rw [Program.run_bind_ok (run_setFileLength kept (Nat.zero_le _))] at rejects
        cases rejects

theorem exists_run_installSnapshot_error (process : Nat) (snapshotMeta : SnapshotMeta)
    (disk : Directory) (refused : RefusedLate json indexes machine.config data) :
    ∃ next error, (installSnapshot json process machine snapshotMeta data).run disk =
      (next, .error error) := by
  obtain ⟨snapshot, fault, decodes, sameConfig, fails⟩ := refused
  obtain ⟨written, writes, -⟩ := run_replaceFile disk (snapshotTemporaryName process) snapshotName
    (json.storedSnapshot.toVec (.sealing json snapshotMeta data))
  refine ⟨written, fault, ?_⟩
  unfold installSnapshot
  rw [decodes, Program.run_bind_ok (Program.run_ofExcept _), if_neg (not_not.mpr sameConfig)]
  simp only
  rw [Program.run_bind_ok (show (writeSnapshot json process _).run disk = _ from writes), fails]
  rfl

theorem reopened_of_refusedLate (refused : RefusedLate json indexes config data)
    (stored : disk snapshotName = some (json.storedSnapshot.toVec (.sealing json snapshotMeta data))) :
    reopened arith json indexes config disk = none := by
  obtain ⟨snapshot, fault, decodes, sameConfig, fails⟩ := refused
  have reads : (readSnapshot json).run disk = (disk, .ok (some (.sealing json snapshotMeta data))) := by
    unfold readSnapshot
    rw [Program.run_bind_ok run_fileExists, stored]
    show (readFile snapshotName >>= fun bytes =>
      Program.ofExcept (decodeStoredSnapshot json bytes) >>= fun stored => pure (some stored)).run
        disk = _
    rw [Program.run_bind_ok (run_readFile stored), decodeStoredSnapshot_toVec rfl]
    rfl
  have loads : ∀ empty, loadState json indexes config empty (some (.sealing json snapshotMeta data)) =
      .error fault := by
    intro empty
    simp only [loadState, StoredSnapshot.sealing, decodes, bind, Except.bind, sameConfig, fails,
      ne_eq, not_true_eq_false, if_false]
  unfold reopened openMachine
  cases creates : Collection.new config with
  | error fault => rfl
  | ok empty =>
    rw [Program.run_bind_ok (Program.run_ofExcept _), Program.run_bind_ok reads, loads]
    rfl

theorem step_rejected {state : MachineState indexes} (isOpen : state.machine = some machine)
    (rejects : (installSnapshot json process machine snapshotMeta data).run state.disk =
      (next, .error error)) :
    state.step arith json config (.installSnapshot process snapshotMeta data) =
      ⟨next, some machine⟩ := by
  simp only [MachineState.step, isOpen, rejects]

/-- A snapshot that is rejected without a failure of the storage leaves the open state
machine as it was; it leaves the state that the directory recovers exactly when it was
refused before it was stored, unless the directory did not open anyway. -/
theorem rejected_installation_atomic_iff {state : MachineState indexes}
    (isOpen : state.machine = some machine) (sameConfig : machine.config = config)
    (journal : state.disk stateJournal.file ≠ none)
    (rejects : (installSnapshot json process machine snapshotMeta data).run state.disk =
      (next, .error error)) :
    (state.step arith json config (.installSnapshot process snapshotMeta data)).machine =
        some machine ∧
    ((∀ before, reopened arith json indexes config state.disk = some before →
        reopened arith json indexes config (state.step arith json config
          (.installSnapshot process snapshotMeta data)).disk = some before) ↔
      RefusedAtOnce json config data ∨ reopened arith json indexes config state.disk = none) := by
  subst sameConfig
  rw [step_rejected isOpen rejects]
  refine ⟨rfl, ?_⟩
  rcases of_run_installSnapshot_error journal rejects with ⟨atOnce, rfl⟩ | ⟨late, stored⟩
  · exact ⟨fun _ => .inl atOnce, fun _ before same => same⟩
  · have fails : reopened arith json indexes machine.config next = none :=
      reopened_of_refusedLate late stored
    constructor
    · intro same
      cases before : reopened arith json indexes machine.config state.disk with
      | none => exact .inr rfl
      | some opened =>
        have lost := same opened before
        rw [fails] at lost
        cases lost
    · rintro (atOnce | nothing) before opened
      · obtain ⟨snapshot, _, decodes, isSame, -⟩ := late
        exact absurd isSame (atOnce snapshot decodes)
      · rw [nothing] at opened
        cases opened

end Installing

theorem reopened_created (arith : FloatArithmetic) (json : SerdeJson) (indexes : ShardIndexes)
    (positive : config.dimension ≠ 0) :
    reopened arith json indexes config (Disk.write (fun _ => none) stateJournal.file []) =
      some (.created indexes config) := by
  have opens := @run_openMachine_created json arith
    (Disk.write (fun _ => none) stateJournal.file []) indexes config positive
    (Disk.write_other _ _ stateJournal_ne_snapshot.symm) (by rw [Disk.write_same]; rfl)
  rw [reopened, opens]
  rfl

theorem exists_encodeStateSnapshot {snapshot : StateSnapshot}
    (light : (JsonText.stateSnapshot.serialize snapshot).weight ≤ 2 ^ 60) :
    ∃ data, encodeStateSnapshot .spelled snapshot = .ok data := by
  have bytes := SerdeJson.stateSnapshot_length_le snapshot
  exact ⟨_, encodeStateSnapshot_of_lt (by omega)⟩

theorem journal_created :
    Disk.write (fun _ => none) stateJournal.file [] stateJournal.file ≠ none :=
  fun missing => Option.some_ne_none _ ((Disk.write_same _ _ _).symm.trans missing)

/-- The snapshot of a shard with another dimension leaves the new directory as it was. -/
theorem foreign_snapshot_is_ignored :
    let config : CollectionConfig := ⟨1, .dotProduct, by decide⟩
    let indexes : ShardIndexes := ⟨Unit, fun _ _ _ => .ok (), Unit, fun _ => ()⟩
    let state : MachineState indexes :=
      ⟨Disk.write (fun _ => none) stateJournal.file [], some (.created indexes config)⟩
    let snapshotMeta := (ShardState.initial config).snapshotMeta 0
    ∃ data next error, encodeStateSnapshot .spelled ⟨⟨2, .dotProduct, by decide⟩,
        [⟨"p", [⟨0x3f800000⟩, ⟨0x3f800000⟩], ∅, 1⟩], 1, none, .initial, ∅⟩ = .ok data ∧
      (installSnapshot .spelled 7 (.created indexes config) snapshotMeta data).run state.disk =
        (next, .error error) ∧
      reopened .normalised .spelled indexes config (state.step .normalised .spelled config
        (.installSnapshot 7 snapshotMeta data)).disk = some (.created indexes config) := by
  intro config indexes state snapshotMeta
  let snapshot : StateSnapshot := ⟨⟨2, .dotProduct, by decide⟩,
    [⟨"p", [⟨0x3f800000⟩, ⟨0x3f800000⟩], ∅, 1⟩], 1, none, .initial, ∅⟩
  obtain ⟨data, encodes⟩ := @exists_encodeStateSnapshot snapshot (by decide +kernel)
  have finite : SnapshotFinite snapshot :=
    List.forall_mem_singleton.mpr ⟨by decide, by decide +kernel⟩
  have decodes := decodeStateSnapshot_sealed finite encodes
  have differs : snapshot.config ≠ (ShardMachine.created indexes config).config := by decide
  obtain ⟨error, rejects⟩ : ∃ error, (installSnapshot .spelled 7 (.created indexes config)
      snapshotMeta data).run state.disk = (state.disk, .error error) := by
    unfold installSnapshot
    rw [decodes, Program.run_bind_ok (Program.run_ofExcept _), if_pos differs]
    exact ⟨_, rfl⟩
  have atOnce : RefusedAtOnce .spelled config data := fun found decoded =>
    Except.ok.inj (decodes.symm.trans decoded) ▸ differs
  have atomic : (state.step .normalised .spelled config
      (.installSnapshot 7 snapshotMeta data)).machine = _ ∧ (_ ↔ _) :=
    rejected_installation_atomic_iff rfl rfl journal_created rejects
  exact ⟨_, _, _, encodes, rejects,
    atomic.2.mpr (.inl atOnce) _ (reopened_created _ _ _ (by decide))⟩

/-- A snapshot with a vector of the wrong dimension is rejected, and the directory that
held the new state machine does not open any more. -/
theorem rejected_snapshot_is_stored :
    let config : CollectionConfig := ⟨1, .dotProduct, by decide⟩
    let indexes : ShardIndexes := ⟨Unit, fun _ _ _ => .ok (), Unit, fun _ => ()⟩
    let state : MachineState indexes :=
      ⟨Disk.write (fun _ => none) stateJournal.file [], some (.created indexes config)⟩
    let snapshotMeta := (ShardState.initial config).snapshotMeta 0
    ∃ data next error, encodeStateSnapshot .spelled
        ⟨config, [⟨"p", [], ∅, 1⟩], 1, none, .initial, ∅⟩ = .ok data ∧
      (installSnapshot .spelled 7 (.created indexes config) snapshotMeta data).run state.disk =
        (next, .error error) ∧
      reopened .normalised .spelled indexes config state.disk = some (.created indexes config) ∧
      reopened .normalised .spelled indexes config (state.step .normalised .spelled config
        (.installSnapshot 7 snapshotMeta data)).disk = none := by
  intro config indexes state snapshotMeta
  let snapshot : StateSnapshot := ⟨config, [⟨"p", [], ∅, 1⟩], 1, none, .initial, ∅⟩
  obtain ⟨data, encodes⟩ := @exists_encodeStateSnapshot snapshot (by decide +kernel)
  have finite : ∀ point ∈ snapshot.points, StoredFinite point :=
    List.forall_mem_singleton.mpr ⟨List.forall_mem_nil _, by decide +kernel⟩
  have late : RefusedLate .spelled indexes config _ :=
    ⟨snapshot, _, decodeStateSnapshot_sealed finite encodes, rfl, rfl⟩
  obtain ⟨next, error, rejects⟩ :=
    @exists_run_installSnapshot_error .spelled indexes (.created indexes config) _ 7 snapshotMeta
      state.disk late
  have lost : reopened .normalised .spelled indexes config next = none := by
    rcases of_run_installSnapshot_error journal_created rejects with ⟨atOnce, -⟩ | ⟨refused, stored⟩
    · obtain ⟨found, _, decodes, isSame, -⟩ := late
      exact absurd isSame (atOnce found decodes)
    · exact reopened_of_refusedLate refused stored
  refine ⟨data, next, error, encodes, rejects, reopened_created _ _ _ (by decide), ?_⟩
  rw [step_rejected rfl rejects]
  exact lost

end FocalVector.Raft
