import FocalVector.Raft.LogRecovery
import FocalVector.Raft.Replay

/-!
Contract: when a command that was accepted is there again after a restart.

Numbers that are not finite are written as null, which no reader of a number
takes. A record with one of them is appended like any other, and the journal
that holds it is refused from then on.

Owns: records that are read back as themselves or not at all, and the condition
under which accepted entries are returned on reopening.

Does not own: journals that were cut short or altered.
-/

namespace FocalVector.Raft

open FocalVector.Foundation FocalVector.Engine FocalVector.Persistence

/-! ## Unreadable records -/

namespace Journal

variable {α σ : Type} {journal : Journal} {finite : α → Prop} {form : JsonForm α finite} {step : σ → α → σ}
  {records : List α} {state final : σ} {disk next : Directory}

theorem recoverStep_of_error {payload : Bytes} {message : String}
    (fails : form.fromSlice payload = .error message) :
    recoverStep form step state payload = .error (.io message) := by
  unfold recoverStep
  rw [fails]

theorem readable_of_foldlM
    (small : ∀ record ∈ records, (form.toVec record).length ≤ journal.format.maxPayload)
    (folds : (records.map form.toVec).foldlM (recoverStep form step) state = .ok final) :
    ∀ record ∈ records, journal.Readable form record := by
  induction records generalizing state with
  | nil => exact fun record member => absurd member List.not_mem_nil
  | cons record rest ih =>
    rw [List.map_cons, List.foldlM_cons] at folds
    cases read : form.fromSlice (form.toVec record) with
    | error message =>
      rw [recoverStep_of_error read] at folds
      cases folds
    | ok other =>
      have same := form.eq_of_ok read
      have stepped : recoverStep form step state (form.toVec record) =
          .ok (step state other) := by
        unfold recoverStep
        rw [read]
      rw [stepped] at folds
      refine List.forall_mem_cons.mpr ⟨⟨small record List.mem_cons_self, same ▸ read⟩, ?_⟩
      exact ih (fun later member => small later (List.mem_cons_of_mem _ member))
        folds

theorem readable_of_run_recoverFile
    (small : ∀ record ∈ records, (form.toVec record).length ≤ journal.format.maxPayload)
    (found : disk journal.file = some (journal.bytes form records))
    (reopens : (journal.recoverFile form step state).run disk = (next, .ok final)) :
    ∀ record ∈ records, journal.Readable form record := by
  have fits : ∀ payload ∈ records.map form.toVec,
      payload.length ≤ journal.format.maxPayload := by
    intro payload member
    obtain ⟨record, isRecord, rfl⟩ := List.mem_map.mp member
    exact small record isRecord
  have recovered : journal.recover form step (journal.bytes form records) state =
      ((records.map form.toVec).foldlM (recoverStep form step) state).map fun state =>
        (state, 0 + (journal.format.frames (records.map form.toVec)).length) :=
    FrameFormat.recover_frames _ fits 0 state
  cases folds : (records.map form.toVec).foldlM (recoverStep form step) state with
  | ok reached => exact readable_of_foldlM small folds
  | error error =>
    rw [folds] at recovered
    rw [run_recoverFile_error found recovered] at reopens
    cases reopens

end Journal

section Poison

variable {json : SerdeJson} {arith : FloatArithmetic} {indexes : ShardIndexes}
  {disk next : Directory}

def ShardMachine.afterEntry (arith : FloatArithmetic) (machine : ShardMachine indexes)
    (entry : Entry) : ShardMachine indexes :=
  { machine with
    state := advance arith machine.state entry
    dirtyIds := machine.dirtyIds.insertMany (changedIds arith machine.state entry) }

variable {machine : ShardMachine indexes} {kept : List AppliedRecord}

theorem run_applyEntry {entry : Entry}
    (found : disk stateJournal.file = some (stateJournal.bytes json.appliedRecord kept))
    (small : (json.appliedRecord.toVec (recordOf arith machine.state entry)).length ≤
      stateJournal.format.maxPayload) :
    (applyEntry arith json machine entry).run disk =
      (disk.write stateJournal.file (stateJournal.bytes json.appliedRecord
          (kept ++ [recordOf arith machine.state entry])),
        .ok (machine.afterEntry arith entry, (preparePayload arith machine.state entry).2)) := by
  have isRecord : (⟨entry.logId, (preparePayload arith machine.state entry).1⟩ : AppliedRecord) =
      recordOf arith machine.state entry := rfl
  unfold applyEntry
  simp only [isRecord]
  rw [Program.run_bind_ok (Journal.run_append found small), replayRecord_recordOf,
    Journal.bytes_concat]
  rfl

theorem run_applyEntry_large {entry : Entry}
    (large : stateJournal.format.maxPayload <
      (json.appliedRecord.toVec (recordOf arith machine.state entry)).length) :
    (applyEntry arith json machine entry).run disk =
      (disk, .error (.io stateJournal.tooLarge)) :=
  Program.run_bind_error (Journal.run_append_large large)

variable {entries : List Entry}

theorem journal_of_run_applyEntries {final : ShardMachine indexes}
    {responses : List ShardResponse}
    (found : disk stateJournal.file = some (stateJournal.bytes json.appliedRecord kept))
    (applies : (applyEntries arith json machine entries).run disk =
      (next, .ok (final, .ok responses))) :
    next stateJournal.file = some (stateJournal.bytes json.appliedRecord
        (kept ++ recordsOf arith machine.state entries)) ∧
      ∀ record ∈ recordsOf arith machine.state entries,
        (json.appliedRecord.toVec record).length ≤ stateJournal.format.maxPayload := by
  induction entries generalizing machine kept disk responses with
  | nil =>
    cases applies
    rw [recordsOf, List.append_nil]
    exact ⟨found, fun record member => absurd member List.not_mem_nil⟩
  | cons entry rest ih =>
    unfold applyEntries at applies
    rw [Program.run_bind_ok (Program.run_capture ..)] at applies
    by_cases large : stateJournal.format.maxPayload <
        (json.appliedRecord.toVec (recordOf arith machine.state entry)).length
    · rw [run_applyEntry_large large] at applies
      cases applies
    rw [run_applyEntry found (not_lt.mp large)] at applies
    obtain ⟨between, ⟨reached, answers⟩, others, finishes⟩ := Program.of_run_bind_ok applies
    cases answers with
    | error error => cases finishes
    | ok answers =>
      cases finishes
      obtain ⟨journal, each⟩ := ih (Disk.write_same _ _ _) others
      rw [List.append_assoc] at journal
      exact ⟨journal, List.forall_mem_cons.mpr ⟨not_lt.mp large, each⟩⟩

theorem appliedFinite_recordsOf {state : ShardState} :
    (∀ record ∈ recordsOf arith state entries, AppliedFinite record) ↔
      ∀ entry ∈ entries, EntryFinite entry := by
  induction entries generalizing state with
  | nil => simp [recordsOf]
  | cons entry rest ih =>
    rw [recordsOf, List.forall_mem_cons, List.forall_mem_cons, ih,
      appliedFinite_recordOf]

variable {base : JournalState}

theorem Holds.run_writeRecord_append {records : List JournalRecord}
    (holds : Holds json disk base records []) (process : Nat)
    (small : (json.journalRecord.toVec (.append entries)).length ≤
      raftJournal.format.maxPayload) :
    (writeRecord json process (records.foldl JournalState.apply base) (.append entries)).run disk =
      (disk.write raftJournal.file
          (raftJournal.bytes json.journalRecord (records ++ [.append entries])),
        .ok ((records.foldl JournalState.apply base).apply (.append entries), .ok ())) := by
  have file : disk raftJournal.file = some (raftJournal.bytes json.journalRecord records) := by
    rw [holds.journal, List.append_nil]
  unfold writeRecord
  rw [Program.run_bind_ok (Program.run_capture ..), Journal.run_append file small,
    Journal.bytes_concat]
  rfl

theorem Checkpointed.write (checkpoint : Checkpointed json disk base)
    (bytes : Bytes) : Checkpointed json (disk.write raftJournal.file bytes) base := by
  unfold Checkpointed
  rw [Disk.write_other _ _ journal_ne_checkpoint.symm]
  exact checkpoint

theorem Holds.finite_of_run_openLog {state : JournalState} {records : List JournalRecord} (holds : Holds json disk base records [])
    (small : (json.journalRecord.toVec (.append entries)).length ≤
      raftJournal.format.maxPayload)
    (reopens : (openLog json).run (disk.write raftJournal.file
      (raftJournal.bytes json.journalRecord (records ++ [.append entries]))) =
        (next, .ok state)) :
    ∀ entry ∈ entries, EntryFinite entry := by
  rw [run_openLog_checkpointed (holds.checkpoint.write _) holds.finite
    (Disk.write_same _ _ _)] at reopens
  have all := Journal.readable_of_run_recoverFile
    (List.forall_mem_append.mpr ⟨fun record member => (holds.readable record member).1,
      List.forall_mem_singleton.mpr small⟩) (Disk.write_same _ _ _) reopens
  exact (Journal.readable_iff.mp (all _ (List.mem_append_right _ List.mem_cons_self))).2

theorem finite_of_run_recoverFile {σ : Type} {step : σ → AppliedRecord → σ} {initial final : σ}
    {state : ShardState}
    (found : disk stateJournal.file = some (stateJournal.bytes json.appliedRecord
      (kept ++ recordsOf arith state entries)))
    (small : ∀ record ∈ kept ++ recordsOf arith state entries,
      (json.appliedRecord.toVec record).length ≤ stateJournal.format.maxPayload)
    (reopens : (stateJournal.recoverFile json.appliedRecord step initial).run disk =
      (next, .ok final)) :
    ∀ entry ∈ entries, EntryFinite entry := by
  have all := Journal.readable_of_run_recoverFile small found reopens
  apply appliedFinite_recordsOf.mp
  intro record member
  exact (Journal.readable_iff.mp (all record (List.mem_append_right _ member))).2

def ShardMachine.created (indexes : ShardIndexes) (config : CollectionConfig) :
    ShardMachine indexes where
  config
  state := .initial config
  index := none
  metadataIndex := none
  dirtyIds := ∅
  currentSnapshot := none

theorem run_applyEntries {entries : List Entry} {machine : ShardMachine indexes}
    {kept : List AppliedRecord}
    (found : disk stateJournal.file = some (stateJournal.bytes json.appliedRecord kept))
    (small : ∀ record ∈ recordsOf arith machine.state entries,
      (json.appliedRecord.toVec record).length ≤ stateJournal.format.maxPayload) :
    ∃ applied responses, (applyEntries arith json machine entries).run disk =
      (applied, .ok (entries.foldl (ShardMachine.afterEntry arith) machine, .ok responses)) := by
  induction entries generalizing machine kept disk with
  | nil => exact ⟨disk, [], rfl⟩
  | cons entry rest ih =>
    obtain ⟨first, others⟩ := List.forall_mem_cons.mp small
    unfold applyEntries
    rw [Program.run_bind_ok (Program.run_capture ..), run_applyEntry found first]
    obtain ⟨applied, responses, applies⟩ :=
      @ih _ (machine.afterEntry arith entry) _ (Disk.write_same _ _ _) others
    exact ⟨applied, _, Program.run_bind_ok applies⟩

variable (arith json) in
theorem run_openMachine_created (indexes : ShardIndexes) {config : CollectionConfig}
    (positive : config.dimension ≠ 0) (noSnapshot : disk snapshotName = none)
    (noRecords : (disk stateJournal.file).getD [] = []) :
    (openMachine arith json indexes config).run disk =
      (disk.write stateJournal.file [], .ok (.created indexes config)) := by
  have created : Collection.new config = .ok ⟨config, .empty, 0⟩ := if_neg positive
  have reads : (readSnapshot json).run disk = (disk, .ok none) := by
    unfold readSnapshot
    rw [Program.run_bind_ok run_fileExists, noSnapshot]
    rfl
  have file : disk.write stateJournal.file [] stateJournal.file =
      some (stateJournal.bytes json.appliedRecord [] ++ []) := Disk.write_same _ _ _
  have recovers : (stateJournal.recoverFile json.appliedRecord
      (fun records record => records ++ [record]) []).run (disk.write stateJournal.file []) =
      (disk.write stateJournal.file [], .ok []) := by
    rw [Journal.run_recoverFile_torn (List.forall_mem_nil _) (.inl rfl) file, Disk.write_write]
    rfl
  unfold openMachine
  rw [created, Program.run_bind_ok (Program.run_ofExcept _), Program.run_bind_ok reads,
    show loadState json indexes config ⟨config, .empty, 0⟩ none =
      .ok (.initial config, none) from rfl, Program.run_bind_ok (Program.run_ofExcept _)]
  simp only
  rw [Program.run_bind_ok run_openOrCreate_getD, noRecords, Program.run_bind_ok recovers]
  rfl

/-- Entries that the log and the state machine both took are there again after
either is reopened exactly when all their numbers are finite. -/
theorem accepted_entries_reopen_iff {logDisk appended stateDisk applied : Directory}
    {base logState : JournalState} {records : List JournalRecord} {kept : List AppliedRecord}
    {machine final : ShardMachine indexes} {process : Nat} {entries : List Entry}
    {responses : List ShardResponse}
    (holds : Holds json logDisk base records [])
    (accepts : (writeRecord json process (records.foldl JournalState.apply base)
      (.append entries)).run logDisk = (appended, .ok (logState, .ok ())))
    (journal : stateDisk stateJournal.file =
      some (stateJournal.bytes json.appliedRecord kept))
    (readable : ∀ record ∈ kept, stateJournal.Readable json.appliedRecord record)
    (applies : (applyEntries arith json machine entries).run stateDisk =
      (applied, .ok (final, .ok responses))) :
    ((∃ reopened, (openLog json).run appended = (reopened, .ok
        ((records ++ [JournalRecord.append entries]).foldl JournalState.apply base))) ↔
      ∀ entry ∈ entries, EntryFinite entry) ∧
    ((∃ reopened, (stateJournal.recoverFile json.appliedRecord
        (fun seen record => seen ++ [record]) []).run applied =
          (reopened, .ok (kept ++ recordsOf arith machine.state entries))) ↔
      ∀ entry ∈ entries, EntryFinite entry) := by
  obtain ⟨written, small⟩ := journal_of_run_applyEntries journal applies
  refine ⟨⟨?_, fun finite => ?_⟩, ⟨?_, fun finite => ?_⟩⟩
  · rintro ⟨reopened, reopens⟩
    by_cases large : raftJournal.format.maxPayload <
        (json.journalRecord.toVec (.append entries)).length
    · unfold writeRecord at accepts
      rw [Program.run_bind_ok (Program.run_capture ..), Journal.run_append_large large] at accepts
      cases accepts
    · rw [holds.run_writeRecord_append process (not_lt.mp large)] at accepts
      cases accepts
      exact holds.finite_of_run_openLog (not_lt.mp large) reopens
  · obtain ⟨next, state, ended, runs, ⟨base', records', held, folds⟩, outcome⟩ :=
      holds.run_writeRecord process (show RecordFinite (.append entries) from finite)
    rw [accepts] at runs
    cases runs
    rw [← outcome.resolve_right fun refused => refused.2 rfl, ← folds]
    exact ⟨_, held.run_openLog⟩
  · rintro ⟨reopened, reopens⟩
    exact finite_of_run_recoverFile written
      (List.forall_mem_append.mpr ⟨fun record member => (readable record member).1, small⟩) reopens
  · have all : ∀ record ∈ kept ++ recordsOf arith machine.state entries,
        stateJournal.Readable json.appliedRecord record :=
      List.forall_mem_append.mpr ⟨readable, fun record member => Journal.readable_iff.mpr
        ⟨small record member, appliedFinite_recordsOf.mpr finite record member⟩⟩
    have whole : applied stateJournal.file = some (stateJournal.bytes json.appliedRecord
        (kept ++ recordsOf arith machine.state entries) ++ []) := by
      rw [List.append_nil, written]
    rw [Journal.run_recoverFile_torn all (.inl rfl) whole, Journal.foldl_concat]
    exact ⟨_, rfl⟩

/-- An entry with one point is there again. -/
theorem finite_component_reopens :
    let config : CollectionConfig := ⟨1, .dotProduct, by decide⟩
    let indexes : ShardIndexes := ⟨Unit, fun _ _ _ => .ok (), Unit, fun _ => ()⟩
    let entry : Entry := ⟨⟨⟨1, 1⟩, 1⟩, .normal (.upsert "c" 1 [⟨"p", [⟨0x3f800000⟩], ∅⟩])⟩
    ∃ appended logState applied final responses,
      (writeRecord .spelled 7 .initial (.append [entry])).run
          (Disk.write (fun _ => none) raftJournal.file []) =
        (appended, .ok (logState, .ok ())) ∧
      (applyEntries .normalised .spelled (.created indexes config) [entry]).run
          (Disk.write (fun _ => none) stateJournal.file []) =
        (applied, .ok (final, .ok responses)) ∧
      (∃ reopened, (openLog .spelled).run appended =
        (reopened, .ok (JournalState.initial.apply (.append [entry])))) ∧
      ∃ reopened, (stateJournal.recoverFile SerdeJson.spelled.appliedRecord
        (fun seen record => seen ++ [record]) []).run applied =
          (reopened, .ok (recordsOf .normalised (.initial config) [entry])) := by
  intro config indexes entry
  have small : (SerdeJson.spelled.journalRecord.toVec (.append [entry])).length ≤
      raftJournal.format.maxPayload := by decide +kernel
  have finite : ∀ entry' ∈ [entry], EntryFinite entry' := by decide
  have record : ∀ record ∈ recordsOf .normalised (ShardMachine.created indexes config).state [entry],
      (SerdeJson.spelled.appliedRecord.toVec record).length ≤ stateJournal.format.maxPayload := by
    decide +kernel
  obtain ⟨applied, responses, applies⟩ := run_applyEntries
    (show Disk.write (fun _ => none) _ [] _ = some (stateJournal.bytes _ []) from
      Disk.write_same _ _ _) record
  have accepts := (holds_created .spelled).run_writeRecord_append 7 small
  have reopen := accepted_entries_reopen_iff (holds_created .spelled) accepts
    (show _ = some (stateJournal.bytes _ []) from Disk.write_same _ _ _)
    (fun _ member => absurd member List.not_mem_nil) applies
  exact ⟨_, _, applied, _, responses, accepts, applies, reopen.1.mpr finite, reopen.2.mpr finite⟩

/-- A component that overflowed to infinity is taken by the log and by the state
machine, and neither opens again. -/
theorem infinite_component_poisons_journals :
    let config : CollectionConfig := ⟨1, .dotProduct, by decide⟩
    let indexes : ShardIndexes := ⟨Unit, fun _ _ _ => .ok (), Unit, fun _ => ()⟩
    let entry : Entry := ⟨⟨⟨1, 1⟩, 1⟩, .normal (.upsert "c" 1 [⟨"p", [⟨0x7f800000⟩], ∅⟩])⟩
    ∃ appended logState applied final responses,
      (writeRecord .spelled 7 .initial (.append [entry])).run
          (Disk.write (fun _ => none) raftJournal.file []) =
        (appended, .ok (logState, .ok ())) ∧
      (applyEntries .normalised .spelled (.created indexes config) [entry]).run
          (Disk.write (fun _ => none) stateJournal.file []) =
        (applied, .ok (final, .ok responses)) ∧
      (∀ reopened state, (openLog .spelled).run appended ≠ (reopened, .ok state)) ∧
      ∀ reopened records, (stateJournal.recoverFile SerdeJson.spelled.appliedRecord
        (fun seen record => seen ++ [record]) []).run applied ≠ (reopened, .ok records) := by
  intro config indexes entry
  have small : (SerdeJson.spelled.journalRecord.toVec (.append [entry])).length ≤
      raftJournal.format.maxPayload := by decide +kernel
  have infinite : ¬ ∀ entry' ∈ [entry], EntryFinite entry' := by decide
  have record : ∀ record ∈ recordsOf .normalised (ShardMachine.created indexes config).state [entry],
      (SerdeJson.spelled.appliedRecord.toVec record).length ≤ stateJournal.format.maxPayload := by
    decide +kernel
  obtain ⟨applied, responses, applies⟩ := run_applyEntries
    (show Disk.write (fun _ => none) _ [] _ = some (stateJournal.bytes _ []) from
      Disk.write_same _ _ _) record
  obtain ⟨written, -⟩ := journal_of_run_applyEntries
    (show _ = some (stateJournal.bytes _ []) from Disk.write_same _ _ _) applies
  refine ⟨_, _, applied, _, responses,
    (holds_created .spelled).run_writeRecord_append 7 small, applies, ?_, ?_⟩
  · intro reopened state reopens
    exact infinite ((holds_created .spelled).finite_of_run_openLog small reopens)
  · intro reopened records reopens
    exact infinite (finite_of_run_recoverFile written record reopens)

end Poison

end FocalVector.Raft
