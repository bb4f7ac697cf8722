import FocalVector.Raft.JsonForms
import FocalVector.Raft.LogStore

/-!
Contract: what a reopened log store holds.

A directory holds a base state, in its checkpoint or initial, and the records
written since, in its journal, with at most a torn frame behind them. Every
crash of a write leaves such a directory, either without the record or with it.

Owns: `Holds`, its step lemmas, runs of a log store with crashes and reopenings,
and that every run ends in the state its completed records describe.

Does not own: failing devices.
-/

namespace FocalVector.Raft

open FocalVector.Foundation FocalVector.Engine FocalVector.Persistence LittleEndian

/-! ## Finite states -/

variable {state : JournalState}

theorem stateFinite_iff : StateFinite state ↔
      ∀ (index : UInt64) (entry : Entry), state.entries[index]? = some entry →
        EntryFinite entry := by
  unfold StateFinite
  constructor
  · intro finite index entry found
    exact finite (index, entry) (Std.ExtTreeMap.mem_toList_iff_getElem?_eq_some.mpr found)
  · intro finite entry member
    exact finite entry.1 entry.2 (Std.ExtTreeMap.mem_toList_iff_getElem?_eq_some.mp member)

theorem stateFinite_initial : StateFinite .initial := by
  rw [stateFinite_iff]
  simp [JournalState.initial]

theorem StateFinite.apply {record : JournalRecord}
    (finite : StateFinite state) (recordFinite : RecordFinite record) :
    StateFinite (state.apply record) := by
  rw [stateFinite_iff] at finite ⊢
  intro index entry found
  cases record with
  | saveVote vote => exact finite index entry found
  | saveCommitted committed => exact finite index entry found
  | append entries =>
    simp only [JournalState.apply, JournalState.getElem?_foldl_insertEntry] at found
    rcases Option.or_eq_some_iff.mp found with appended | ⟨-, kept⟩
    · exact recordFinite entry (List.mem_reverse.mp (List.mem_of_find?_eq_some appended))
    · exact finite index entry kept
  | truncate logId =>
    simp only [JournalState.apply, Std.ExtTreeMap.getElem?_filter', Option.filter_eq_some_iff]
      at found
    exact finite index entry found.1
  | purge logId =>
    simp only [JournalState.apply, Std.ExtTreeMap.getElem?_filter', Option.filter_eq_some_iff]
      at found
    exact finite index entry found.1

theorem StateFinite.foldl {records : List JournalRecord}
    (finite : StateFinite state) (each : ∀ record ∈ records, RecordFinite record) :
    StateFinite (records.foldl JournalState.apply state) := by
  induction records generalizing state with
  | nil => exact finite
  | cons record rest ih =>
    exact ih (finite.apply (each record List.mem_cons_self))
      fun later member => each later (List.mem_cons_of_mem _ member)

/-! ## What a directory holds -/

variable {json : SerdeJson} {disk : Directory} {base state : JournalState}
  {records : List JournalRecord} {rest : Bytes}

theorem decodeCheckpoint_checkpointBytes (finite : StateFinite state)
    (small : (json.journalState.toVec state).length ≤ maxCheckpointBytes) :
    decodeCheckpoint json (checkpointBytes json state) = .ok state := by
  have fourBytes : checkpointMagic.length = 4 := rfl
  have word : (json.journalState.toVec state).length < 2 ^ 64 :=
    lt_of_le_of_lt small (by decide)
  have reads := json.journalState.fromSlice_toVec state finite
  unfold decodeCheckpoint checkpointBytes
  rw [sealed_magic fourBytes, sealed_version fourBytes, sealed_length fourBytes,
    if_neg (by simp)]
  simp only [sealed_lengthField fourBytes word, sealed_payload fourBytes,
    sealed_checksum fourBytes, reads]
  rw [if_neg (by omega), if_neg (by simp)]
  rfl

def Checkpointed (json : SerdeJson) (disk : Directory) (base : JournalState) : Prop :=
  (disk checkpointName = none ∧ base = .initial) ∨
    (disk checkpointName = some (checkpointBytes json base) ∧
      (json.journalState.toVec base).length ≤ maxCheckpointBytes)

/-- A directory with a base state, the records since, and a torn end. -/
structure Holds (json : SerdeJson) (disk : Directory) (base : JournalState)
    (records : List JournalRecord) (rest : Bytes) : Prop where
  checkpoint : Checkpointed json disk base
  journal : disk raftJournal.file = some (raftJournal.bytes json.journalRecord records ++ rest)
  torn : raftJournal.TornEnd rest
  readable : ∀ record ∈ records, raftJournal.Readable json.journalRecord record
  finite : StateFinite base

def Recovers (json : SerdeJson) (disk : Directory) (state : JournalState) : Prop :=
  ∃ base records rest, Holds json disk base records rest ∧
    records.foldl JournalState.apply base = state

theorem journal_ne_checkpoint : raftJournal.file ≠ checkpointName := by decide

@[simp] theorem leading_checkpointTemporaryName (process : Nat) :
    leading (checkpointTemporaryName process) = ['.', 'r'] :=
  leading_append (by decide) _

@[simp] theorem leading_checkpointName : leading checkpointName = ['r', 'a'] := by decide

@[simp] theorem leading_raftJournal : leading raftJournal.file = ['r', 'a'] := by decide

theorem journal_ne_temporary (process : Nat) :
    raftJournal.file ≠ checkpointTemporaryName process :=
  ne_of_leading (by simp)

theorem checkpoint_ne_temporary (process : Nat) :
    checkpointName ≠ checkpointTemporaryName process :=
  ne_of_leading (by simp)

theorem run_readCheckpoint (checkpoint : Checkpointed json disk base) (finite : StateFinite base) :
    ∃ found, (readCheckpoint json).run disk = (disk, .ok found) ∧
      found.getD .initial = base := by
  unfold readCheckpoint
  rw [Program.run_bind_ok run_fileExists]
  rcases checkpoint with ⟨missing, rfl⟩ | ⟨present, small⟩
  · refine ⟨none, ?_, rfl⟩
    rw [missing]
    rfl
  · refine ⟨some base, ?_, rfl⟩
    rw [present]
    show (readFile checkpointName >>= fun bytes =>
      Program.ofExcept (decodeCheckpoint json bytes) >>= fun state => pure (some state)).run disk = _
    rw [Program.run_bind_ok (run_readFile present),
      decodeCheckpoint_checkpointBytes finite small]
    rfl

theorem run_openLog_checkpointed {bytes : Bytes} (checkpoint : Checkpointed json disk base)
    (finite : StateFinite base) (journal : disk raftJournal.file = some bytes) :
    (openLog json).run disk =
      (raftJournal.recoverFile json.journalRecord JournalState.apply base).run disk := by
  obtain ⟨found, reads, isBase⟩ := run_readCheckpoint checkpoint finite
  unfold openLog
  rw [Program.run_bind_ok (run_openOrCreate journal), Program.run_bind_ok reads, isBase]

/-- A directory with nothing but an empty journal. -/
theorem holds_created (json : SerdeJson) :
    Holds json (Disk.write (fun _ => none) raftJournal.file []) .initial [] [] where
  checkpoint := .inl ⟨Disk.write_other _ _ journal_ne_checkpoint.symm, rfl⟩
  journal := Disk.write_same _ _ _
  torn := .inl rfl
  readable _ member := absurd member List.not_mem_nil
  finite := stateFinite_initial

namespace Holds

section

variable (holds : Holds json disk base records rest)

include holds

/-- Opening folds the records over the base and cuts off the torn end. -/
theorem run_openLog : (openLog json).run disk =
      (disk.write raftJournal.file (raftJournal.bytes json.journalRecord records),
        .ok (records.foldl JournalState.apply base)) := by
  rw [run_openLog_checkpointed holds.checkpoint holds.finite holds.journal]
  exact Journal.run_recoverFile_torn holds.readable holds.torn holds.journal

theorem withJournal {other : List JournalRecord} {otherRest : Bytes} (torn : raftJournal.TornEnd otherRest)
    (readable : ∀ record ∈ other, raftJournal.Readable json.journalRecord record) :
    Holds json (disk.write raftJournal.file
      (raftJournal.bytes json.journalRecord other ++ otherRest)) base other otherRest where
  checkpoint := by
    unfold Checkpointed
    rw [Disk.write_other _ _ journal_ne_checkpoint.symm]
    exact holds.checkpoint
  journal := Disk.write_same _ _ _
  torn := torn
  readable := readable
  finite := holds.finite

theorem foldl_finite : StateFinite (records.foldl JournalState.apply base) :=
  holds.finite.foldl fun record member => (Journal.readable_iff.mp (holds.readable record member)).2

/-- A new checkpoint with the effects of the whole journal, which is still
there. -/
theorem checkpointed {next : Directory}
    (small : (json.journalState.toVec (records.foldl JournalState.apply base)).length ≤
      maxCheckpointBytes)
    (replaced : next checkpointName =
      some (checkpointBytes json (records.foldl JournalState.apply base)))
    (kept : next raftJournal.file = disk raftJournal.file) :
    Holds json next (records.foldl JournalState.apply base) records rest where
  checkpoint := .inr ⟨replaced, small⟩
  journal := kept.trans holds.journal
  torn := holds.torn
  readable := holds.readable
  finite := holds.foldl_finite

end

end Holds

theorem Holds.congr {next : Directory} (holds : Holds json disk base records rest)
    (sameCheckpoint : next checkpointName = disk checkpointName)
    (sameJournal : next raftJournal.file = disk raftJournal.file) :
    Holds json next base records rest where
  checkpoint := by
    unfold Checkpointed
    rw [sameCheckpoint]
    exact holds.checkpoint
  journal := sameJournal.trans holds.journal
  torn := holds.torn
  readable := holds.readable
  finite := holds.finite

/-- A journal over a checkpoint that has its effects already. -/
theorem Holds.recovers_replayed
    (holds : Holds json disk (records.foldl JournalState.apply base) records rest) :
    Recovers json disk (records.foldl JournalState.apply base) :=
  ⟨_, records, rest, holds, JournalState.foldl_apply_replay records base⟩

theorem Holds.recovers (holds : Holds json disk base records rest) :
    Recovers json disk (records.foldl JournalState.apply base) :=
  ⟨base, records, rest, holds, rfl⟩

/-! ## One write -/

section Write

variable {process : Nat} {record : JournalRecord}

theorem Holds.append (holds : Holds json disk base records [])
    (readable : raftJournal.Readable json.journalRecord record) :
    Holds json (disk.write raftJournal.file (raftJournal.bytes json.journalRecord records ++
        raftJournal.format.frame (json.journalRecord.toVec record)))
      base (records ++ [record]) [] := by
  have whole := holds.withJournal (.inl rfl)
    (List.forall_mem_append.mpr ⟨holds.readable, List.forall_mem_singleton.mpr readable⟩)
  rwa [List.append_nil, Journal.bytes_concat] at whole

variable {next : Directory}

section

variable (holds : Holds json disk base records [])

include holds

theorem Holds.append_crash (finite : RecordFinite record)
    (crashed : next ∈ (raftJournal.append json.journalRecord record).crashStates disk) :
    (∃ rest, Holds json next base records rest) ∨ Holds json next base (records ++ [record]) [] := by
  have file : disk raftJournal.file = some (raftJournal.bytes json.journalRecord records) := by
    rw [holds.journal, List.append_nil]
  obtain ⟨length, rfl, refused⟩ := Journal.append_crash file crashed
  by_cases large : raftJournal.format.maxPayload < (json.journalRecord.toVec record).length
  · rw [refused large, List.take_zero]
    exact .inl ⟨[], holds.withJournal (.inl rfl) holds.readable⟩
  · by_cases partly :
        length < (raftJournal.format.frame (json.journalRecord.toVec record)).length
    · exact .inl ⟨_, holds.withJournal (Journal.tornEnd_take (not_lt.mp large) partly)
        holds.readable⟩
    · rw [List.take_of_length_le (not_lt.mp partly)]
      exact .inr (holds.append (Journal.readable_iff.mpr ⟨not_lt.mp large, finite⟩))

/-- Writing the checkpoint and emptying the journal. -/
theorem Holds.run_compactLog (process : Nat) :
    ∃ next ended base' records', (compactLog json process
        (records.foldl JournalState.apply base)).run disk = (next, ended) ∧
      Holds json next base' records' [] ∧
      records'.foldl JournalState.apply base' = records.foldl JournalState.apply base := by
  unfold compactLog writeCheckpoint
  split
  next large =>
    exact ⟨disk, _, base, records, Program.run_bind_error rfl, holds, rfl⟩
  next small =>
    obtain ⟨next, runs, replaced, others⟩ := run_replaceFile disk (checkpointTemporaryName process)
      checkpointName (checkpointBytes json (records.foldl JournalState.apply base))
    have kept := others raftJournal.file (journal_ne_temporary process) journal_ne_checkpoint
    have renewal := holds.checkpointed (not_lt.mp small) replaced kept
    have empty := renewal.withJournal (.inl rfl) (fun _ member => absurd member List.not_mem_nil)
    refine ⟨next.write raftJournal.file [], .ok (), _, [], ?_, empty, rfl⟩
    rw [Program.run_bind_ok runs, Program.run_bind_ok
      (run_setFileLength renewal.journal (Nat.zero_le _)), List.take_zero]
    rfl

theorem Holds.compactLog_crash (crashed : next ∈ (compactLog json process
      (records.foldl JournalState.apply base)).crashStates disk) :
    Recovers json next (records.foldl JournalState.apply base) := by
  unfold compactLog writeCheckpoint at crashed
  split at crashed
  next large =>
    rcases Program.mem_crashStates_bind.mp crashed with refused | ⟨_, _, runs, _⟩
    · rw [Program.crashStates_raise, List.mem_singleton] at refused
      exact refused ▸ holds.recovers
    · cases runs
  next small =>
    rcases Program.mem_crashStates_bind.mp crashed with replacing | ⟨replaced, _, runs, later⟩
    · obtain ⟨target, others⟩ := replaceFile_crash (checkpoint_ne_temporary process) replacing
      have kept := others raftJournal.file (journal_ne_temporary process) journal_ne_checkpoint
      rcases target with unchanged | renewed
      · exact (holds.congr unchanged kept).recovers
      · exact (holds.checkpointed (not_lt.mp small) renewed kept).recovers_replayed
    obtain ⟨next', runs', renewed, others⟩ := run_replaceFile disk
      (checkpointTemporaryName process) checkpointName
      (checkpointBytes json (records.foldl JournalState.apply base))
    rw [runs'] at runs
    obtain ⟨rfl, -⟩ := Prod.mk.inj runs
    have kept := others raftJournal.file (journal_ne_temporary process) journal_ne_checkpoint
    have renewal := holds.checkpointed (not_lt.mp small) renewed kept
    have empty := renewal.withJournal (.inl rfl) (fun _ member => absurd member List.not_mem_nil)
    have cut : next = next' ∨ next = next'.write raftJournal.file [] := by
      rcases Program.mem_crashStates_bind.mp later with cutting | ⟨_, _, cuts, syncing⟩
      · exact setFileLength_crash renewal.journal (Nat.zero_le _) cutting
      · rw [run_setFileLength renewal.journal (Nat.zero_le _)] at cuts
        obtain ⟨rfl, -⟩ := Prod.mk.inj cuts
        exact .inr (syncDirectory_crash syncing)
    rcases cut with rfl | rfl
    · exact renewal.recovers_replayed
    · exact empty.recovers

/-- `write_record` on a directory that holds its state. -/
theorem Holds.run_writeRecord (process : Nat)
    (finite : RecordFinite record) :
    ∃ next state ended, (writeRecord json process (records.foldl JournalState.apply base)
        record).run disk = (next, .ok (state, ended)) ∧
      (∃ base' records', Holds json next base' records' [] ∧
        records'.foldl JournalState.apply base' = state) ∧
      (state = (records ++ [record]).foldl JournalState.apply base ∨
        state = records.foldl JournalState.apply base ∧ ended ≠ .ok ()) := by
  unfold writeRecord
  by_cases large : raftJournal.format.maxPayload < (json.journalRecord.toVec record).length
  · have refused : (raftJournal.append json.journalRecord record).capture.run disk =
        (disk, .ok (.error (.io raftJournal.tooLarge))) := by
      rw [Program.run_capture, Journal.run_append_large large]
    rw [Program.run_bind_ok refused]
    exact ⟨disk, _, _, rfl, ⟨base, records, holds, rfl⟩, .inr ⟨rfl, nofun⟩⟩
  have file : disk raftJournal.file = some (raftJournal.bytes json.journalRecord records) := by
    rw [holds.journal, List.append_nil]
  have appended : (raftJournal.append json.journalRecord record).capture.run disk =
      (disk.write raftJournal.file (raftJournal.bytes json.journalRecord records ++
        raftJournal.format.frame (json.journalRecord.toVec record)), .ok (.ok ())) := by
    rw [Program.run_capture, Journal.run_append file (not_lt.mp large)]
  have grown := holds.append (Journal.readable_iff.mpr ⟨not_lt.mp large, finite⟩)
  have applied : (records.foldl JournalState.apply base).apply record =
      (records ++ [record]).foldl JournalState.apply base := by simp
  rw [Program.run_bind_ok appended]
  simp only [applied]
  split
  · obtain ⟨next, ended, base', records', runs, compacted, same⟩ :=
      grown.run_compactLog process
    refine ⟨next, _, ended, ?_, ⟨base', records', compacted, same⟩, .inl rfl⟩
    rw [Program.run_bind_ok (Program.run_capture ..), runs]
    rfl
  · exact ⟨_, _, _, rfl, ⟨base, _, grown, rfl⟩, .inl rfl⟩

/-- A crash anywhere in `write_record` leaves the state without the record or
with it. -/
theorem Holds.writeRecord_crash (finite : RecordFinite record)
    (crashed : next ∈ (writeRecord json process (records.foldl JournalState.apply base)
      record).crashStates disk) :
    Recovers json next (records.foldl JournalState.apply base) ∨
      Recovers json next ((records ++ [record]).foldl JournalState.apply base) := by
  have file : disk raftJournal.file = some (raftJournal.bytes json.journalRecord records) := by
    rw [holds.journal, List.append_nil]
  have applied : (records.foldl JournalState.apply base).apply record =
      (records ++ [record]).foldl JournalState.apply base := by simp
  rcases Program.mem_crashStates_bind.mp crashed with appending | ⟨written, result, runs, later⟩
  · rw [Program.crashStates_capture] at appending
    rcases holds.append_crash finite appending with ⟨rest, before⟩ | after
    · exact .inl before.recovers
    · exact .inr after.recovers
  rw [Program.run_capture] at runs
  by_cases large : raftJournal.format.maxPayload < (json.journalRecord.toVec record).length
  · simp only [Journal.run_append_large large, Prod.mk.injEq, Except.ok.injEq] at runs
    obtain ⟨rfl, rfl⟩ := runs
    rw [Program.crashStates_pure, List.mem_singleton] at later
    exact .inl (later ▸ holds.recovers)
  · simp only [Journal.run_append file (not_lt.mp large), Prod.mk.injEq, Except.ok.injEq] at runs
    obtain ⟨rfl, rfl⟩ := runs
    have grown := holds.append (Journal.readable_iff.mpr ⟨not_lt.mp large, finite⟩)
    simp only [applied] at later
    right
    split at later
    · rcases Program.mem_crashStates_bind.mp later with compacting | ⟨compacted, _, runs, finishing⟩
      · rw [Program.crashStates_capture] at compacting
        exact grown.compactLog_crash compacting
      · rw [Program.crashStates_pure, List.mem_singleton] at finishing
        rw [Program.run_capture] at runs
        apply grown.compactLog_crash
        exact finishing ▸ (Prod.mk.inj runs).1 ▸ Program.final_mem_crashStates
    · rw [Program.crashStates_pure, List.mem_singleton] at later
      exact later ▸ grown.recovers

end

end Write

/-! ## Runs -/

/-- What happened to a record: its write returned, or it was cut off by a crash
or an error. -/
inductive LogEvent where
  | completed (record : JournalRecord)
  | interrupted (record : JournalRecord)

/-- The records a log may hold after some events: all that were completed, and
any of those that were interrupted. -/
inductive Survivors : List LogEvent → List JournalRecord → Prop where
  | nil : Survivors [] []
  | completed {events survivors} (record : JournalRecord) :
      Survivors events survivors → Survivors (events ++ [.completed record]) (survivors ++ [record])
  | lost {events survivors} (record : JournalRecord) :
      Survivors events survivors → Survivors (events ++ [.interrupted record]) survivors
  | kept {events survivors} (record : JournalRecord) :
      Survivors events survivors →
        Survivors (events ++ [.interrupted record]) (survivors ++ [record])

/-- A log store that is open. -/
structure LogState where
  disk : Directory
  state : JournalState
  events : List LogEvent

inductive LogCommand where
  | write (process : Nat) (record : JournalRecord)
  /-- Die at a given point of a write, and open the store again. -/
  | crash (process : Nat) (record : JournalRecord) (point : Nat)
  | reopen

namespace LogState

def opened (json : SerdeJson) (disk : Directory) (events : List LogEvent) : Result LogState :=
  match (openLog json).run disk with
  | (next, .ok state) => .ok ⟨next, state, events⟩
  | (_, .error error) => .error error

def step (json : SerdeJson) (log : LogState) : LogCommand → Result LogState
  | .write process record =>
    match (writeRecord json process log.state record).run log.disk with
    | (next, .ok (state, .ok ())) => .ok ⟨next, state, log.events ++ [.completed record]⟩
    | (next, .ok (state, .error _)) => .ok ⟨next, state, log.events ++ [.interrupted record]⟩
    | (_, .error error) => .error error
  | .crash process record point =>
    let states := (writeRecord json process log.state record).crashStates log.disk
    opened json (states.getD point log.disk) (log.events ++ [.interrupted record])
  | .reopen => opened json log.disk log.events

def run (json : SerdeJson) (commands : List LogCommand) : Result LogState := do
  let start ← opened json (fun _ => none) []
  commands.foldlM (step json) start

/-- The state of an open store is what its directory recovers, and comes from
surviving records. -/
structure Consistent (json : SerdeJson) (log : LogState) : Prop where
  holds : ∃ base records, Holds json log.disk base records [] ∧
    records.foldl JournalState.apply base = log.state
  survivors : ∃ survivors, Survivors log.events survivors ∧
    survivors.foldl JournalState.apply .initial = log.state

end LogState

def LogCommand.Finite : LogCommand → Prop
  | .write _ record => RecordFinite record
  | .crash _ record _ => RecordFinite record
  | .reopen => True

instance : (command : LogCommand) → Decidable command.Finite
  | .write _ record => inferInstanceAs (Decidable (RecordFinite record))
  | .crash _ record _ => inferInstanceAs (Decidable (RecordFinite record))
  | .reopen => isTrue trivial

namespace LogState

variable {log : LogState} {events : List LogEvent} {survivors : List JournalRecord}

theorem consistent_opened {state : JournalState} (recovers : Recovers json disk state)
    (survives : Survivors events survivors)
    (folds : survivors.foldl JournalState.apply .initial = state) :
    ∃ log, opened json disk events = .ok log ∧ log.Consistent json ∧ log.events = events := by
  obtain ⟨base, records, rest, holds, rfl⟩ := recovers
  have clean := holds.withJournal (.inl rfl) holds.readable
  rw [List.append_nil] at clean
  refine ⟨⟨disk.write raftJournal.file (raftJournal.bytes json.journalRecord records), _, events⟩,
    ?_, ⟨⟨base, records, clean, rfl⟩, ⟨survivors, survives, folds⟩⟩, rfl⟩
  unfold opened
  rw [holds.run_openLog]

section

variable (consistent : log.Consistent json)

include consistent

theorem Consistent.step_write (process : Nat)
    {record : JournalRecord} (finite : RecordFinite record) :
    ∃ next, log.step json (.write process record) = .ok next ∧ next.Consistent json := by
  obtain ⟨⟨base, records, holds, folds⟩, ⟨survivors, survives, same⟩⟩ := consistent
  obtain ⟨next, state, ended, runs, held, outcome⟩ := holds.run_writeRecord process finite
  have extended : (survivors ++ [record]).foldl JournalState.apply .initial =
      (records ++ [record]).foldl JournalState.apply base := by
    simp only [List.foldl_append, same, folds]
  rw [folds] at runs
  unfold step
  simp only [runs]
  rcases outcome with kept | ⟨lost, failed⟩
  · cases ended with
    | ok done =>
      exact ⟨_, rfl, held, _, survives.completed record, extended.trans kept.symm⟩
    | error error =>
      exact ⟨_, rfl, held, _, survives.kept record, extended.trans kept.symm⟩
  · cases ended with
    | ok done => exact absurd rfl failed
    | error error =>
      exact ⟨_, rfl, held, _, survives.lost record, same.trans (folds.symm.trans lost.symm)⟩

theorem Consistent.step_crash (process point : Nat)
    {record : JournalRecord} (finite : RecordFinite record) :
    ∃ next, log.step json (.crash process record point) = .ok next ∧ next.Consistent json := by
  obtain ⟨⟨base, records, holds, folds⟩, ⟨survivors, survives, same⟩⟩ := consistent
  have extended : (survivors ++ [record]).foldl JournalState.apply .initial =
      (records ++ [record]).foldl JournalState.apply base := by
    simp only [List.foldl_append, same, folds]
  have crashed : ((writeRecord json process log.state record).crashStates log.disk).getD point
      log.disk ∈ (writeRecord json process log.state record).crashStates log.disk := by
    rw [List.getD_eq_getElem?_getD]
    cases found : ((writeRecord json process log.state record).crashStates log.disk)[point]? with
    | none => exact Program.start_mem_crashStates
    | some state => exact List.mem_of_getElem? found
  show ∃ next, opened json (((writeRecord json process log.state record).crashStates
    log.disk).getD point log.disk) (log.events ++ [.interrupted record]) = .ok next ∧ _
  rw [← folds] at crashed ⊢
  generalize ((writeRecord json process (records.foldl JournalState.apply base)
    record).crashStates log.disk).getD point log.disk = left at crashed ⊢
  rcases holds.writeRecord_crash finite crashed with before | after
  · obtain ⟨next, opens, sound, -⟩ := consistent_opened before (survives.lost record)
      (same.trans folds.symm)
    exact ⟨next, opens, sound⟩
  · obtain ⟨next, opens, sound, -⟩ := consistent_opened after (survives.kept record) extended
    exact ⟨next, opens, sound⟩

theorem Consistent.recovers : Recovers json log.disk log.state := by
  obtain ⟨base, records, holds, folds⟩ := consistent.holds
  exact ⟨base, records, [], holds, folds⟩

theorem Consistent.step {command : LogCommand}
    (finite : command.Finite) :
    ∃ next, log.step json command = .ok next ∧ next.Consistent json := by
  cases command with
  | write process record => exact consistent.step_write process finite
  | crash process record point => exact consistent.step_crash process point finite
  | reopen =>
    obtain ⟨survivors, survives, same⟩ := consistent.survivors
    obtain ⟨next, opens, sound, -⟩ := consistent_opened consistent.recovers survives same
    exact ⟨next, opens, sound⟩

theorem Consistent.foldlM_step {commands : List LogCommand}
    (finite : ∀ command ∈ commands, command.Finite) :
    ∃ next, commands.foldlM (LogState.step json) log = .ok next ∧ next.Consistent json := by
  induction commands generalizing log with
  | nil => exact ⟨log, rfl, consistent⟩
  | cons command rest ih =>
    obtain ⟨next, steps, sound⟩ := consistent.step (finite command List.mem_cons_self)
    rw [List.foldlM_cons, steps]
    exact ih sound fun later member =>
      finite later (List.mem_cons_of_mem _ member)

end

/-- The empty directory, which the first open turns into an empty log. -/
theorem consistent_start (json : SerdeJson) :
    ∃ log, opened json (fun _ => none) [] = .ok log ∧ log.Consistent json := by
  have created := holds_created json
  obtain ⟨log, opens, sound, -⟩ := consistent_opened created.recovers .nil rfl
  refine ⟨log, ?_, sound⟩
  -- Opening a missing journal creates it, and opening it again changes nothing.
  rw [← opens]
  unfold opened openLog
  rw [Program.run_bind_ok (run_openOrCreate_missing rfl),
    Program.run_bind_ok (run_openOrCreate created.journal)]

/-- In every run of writes, crashes at any point of a write and reopenings, the
store always opens, holds the fold of all completed records and possibly of
interrupted ones, and opens to the same state once more; replaying a whole
journal over a state that has its effects changes nothing. -/
theorem log_run_recovers {commands : List LogCommand}
    (finite : ∀ command ∈ commands, command.Finite) :
    (∃ log, run json commands = .ok log ∧
      (∃ survivors, Survivors log.events survivors ∧
        log.state = survivors.foldl JournalState.apply .initial) ∧
      ∃ next, (openLog json).run log.disk = (next, .ok log.state)) ∧
    ∀ (records : List JournalRecord) (state : JournalState),
      records.foldl JournalState.apply (records.foldl JournalState.apply state) =
        records.foldl JournalState.apply state := by
  refine ⟨?_, JournalState.foldl_apply_replay⟩
  obtain ⟨start, opens, sound⟩ := consistent_start json
  obtain ⟨log, runs, consistent⟩ := sound.foldlM_step finite
  obtain ⟨survivors, survives, same⟩ := consistent.survivors
  refine ⟨log, ?_, ⟨survivors, survives, same.symm⟩, ?_⟩
  · unfold run
    rw [opens]
    exact runs
  · obtain ⟨base, records, holds, folds⟩ := consistent.holds
    exact ⟨_, by rw [holds.run_openLog, folds]⟩

/-- A purge that dies between its checkpoint and the truncation, after a vote
and two entries. -/
theorem interrupted_purge_recovers :
    let leader : LeaderId := ⟨1, 1⟩
    let commands : List LogCommand := [
      .write 7 (.saveVote ⟨leader, true⟩),
      .write 7 (.append [⟨⟨leader, 0⟩, .blank⟩, ⟨⟨leader, 1⟩, .blank⟩]),
      .crash 7 (.purge ⟨leader, 0⟩) 327,
      .reopen]
    (∀ command ∈ commands, command.Finite) ∧
      ∃ log, run .spelled commands = .ok log ∧
        (∃ survivors, Survivors log.events survivors ∧
          log.state = survivors.foldl JournalState.apply .initial) ∧
        ∃ next, (openLog .spelled).run log.disk = (next, .ok log.state) := by
  intro leader commands
  have finite : ∀ command ∈ commands, command.Finite := by decide
  exact ⟨finite, (log_run_recovers finite).1⟩

end LogState

end FocalVector.Raft
