import FocalVector.Raft.Replay

/-!
Contract: one replica of a shard, its directory and its state machine.

A directory holds a snapshot of the state at one position of the log and the
journal of the entries from there to a later position. In front of these
records there may be stale ones, which the snapshot covers, and behind them a
torn frame. Every program of the state machine leaves such a directory, and so
does every crash of it.

Owns: `SnapshotAt`, `HoldsAt`, `Running`, and the step lemmas of opening,
applying, building and installing snapshots.

Does not own: runs of several replicas.
-/

namespace FocalVector.Raft

open FocalVector.Foundation FocalVector.Engine FocalVector.Persistence LittleEndian

/-! ## What a directory holds -/

section Holding

variable (arith : FloatArithmetic) (json : SerdeJson) (indexes : ShardIndexes)
  (config : CollectionConfig) (log : List Entry)

def stateAt (position : Nat) : ShardState :=
  (log.take position).foldl (advance arith) (.initial config)

def between (base position : Nat) : List Entry := (log.take position).drop base

structure SnapshotAt (stored : StoredSnapshot) (position : Nat) : Prop where
  within : position ≤ log.length
  logId : stored.snapshotMeta.lastLogId = appliedAt log position
  builds : ∃ built, buildIndexes indexes config
    (stateAt arith config log position).collection.snapshotStoredPoints = .ok built
  encodes : encodeStateSnapshot json ((stateAt arith config log position).snapshot config) =
    .ok stored.data
  checksummed : stored.checksum = some (storedSnapshotChecksum json stored.snapshotMeta stored.data)

def BaseSnapshot (current : Option StoredSnapshot) (base : Nat) : Prop :=
  match current with
  | none => base = 0
  | some stored => SnapshotAt arith json indexes config log stored base

def recordsBetween (base position : Nat) : List AppliedRecord :=
  recordsOf arith (stateAt arith config log base) (between log base position)

/-- A directory with a snapshot at `base`, the journal up to `position`, whose
first records may be stale, and a torn end. -/
structure HoldsAt (disk : Directory) (base position : Nat) (records : List AppliedRecord)
    (rest : Bytes) : Prop where
  ordered : base ≤ position
  within : position ≤ log.length
  snapshot : ∃ current, disk snapshotName = current.map json.storedSnapshot.toVec ∧
    BaseSnapshot arith json indexes config log current base
  journal : (disk stateJournal.file).getD [] =
    stateJournal.bytes json.appliedRecord records ++ rest
  torn : stateJournal.TornEnd rest
  readable : ∀ record ∈ records, stateJournal.Readable json.appliedRecord record
  journalled : ∃ stale, records = stale ++ recordsBetween arith config log base position ∧
    ∀ record ∈ stale, (appliedAt log base).any (fun last => record.logId.index ≤ last.index) = true

/-- A state machine at a position of the log. Its indexes are those of an
earlier position, up to the ids that are marked as changed. -/
structure Running (machine : ShardMachine indexes) (position : Nat) : Prop where
  sameConfig : machine.config = config
  state : machine.state = stateAt arith config log position
  indexed : (machine.index = none ∧ machine.metadataIndex = none) ∨
    ∃ base built, base ≤ position ∧
      buildIndexes indexes config
        (stateAt arith config log base).collection.snapshotStoredPoints = .ok built ∧
      machine.index = some built.1 ∧ machine.metadataIndex = some built.2 ∧
      ∀ id ∈ changedBy arith (stateAt arith config log base) (between log base position),
        id ∈ machine.dirtyIds

end Holding

variable {arith : FloatArithmetic} {json : SerdeJson} {indexes : ShardIndexes}
  {config : CollectionConfig} {log : List Entry} {disk next : Directory} {base position : Nat}
  {records : List AppliedRecord} {rest : Bytes} {stored : StoredSnapshot}

/-! ## Positions -/

theorem take_split (ordered : base ≤ position) :
    log.take position = log.take base ++ between log base position := by
  have short : log.take base = (log.take position).take base := by
    rw [List.take_take, Nat.min_eq_left ordered]
  rw [between, short, List.take_append_drop]

theorem stateAt_foldl (ordered : base ≤ position) :
    (between log base position).foldl (advance arith) (stateAt arith config log base) =
      stateAt arith config log position := by
  rw [stateAt, stateAt, take_split ordered, List.foldl_append]

theorem between_self (position : Nat) : between log position position = [] := by
  simp [between]

theorem between_extend {count : Nat} (ordered : base ≤ position) (within : position ≤ log.length) :
    between log base (position + count) =
      between log base position ++ (log.drop position).take count := by
  rw [between, between, List.take_add, List.drop_append_of_le_length]
  rw [List.length_take]
  omega

theorem appliedAt_stateAt (position : Nat) :
    (stateAt arith config log position).lastApplied = appliedAt log position := by
  rw [stateAt, lastApplied_foldl, appliedAt]
  simp [ShardState.initial]

theorem mem_between {entry : Entry} (member : entry ∈ between log base position) :
    entry ∈ log.take position ∧ entry ∈ log.drop base := by
  refine ⟨List.mem_of_mem_drop member, ?_⟩
  rw [between, List.drop_take] at member
  exact List.mem_of_mem_take member

theorem Increasing.between (increasing : Increasing log) :
    Increasing (between log base position) :=
  increasing.sublist ((List.drop_sublist _ _).trans (List.take_sublist _ _))

/-- What a position covers, later ones cover as well. -/
theorem Increasing.covered_mono (increasing : Increasing log) (ordered : base ≤ position)
    {index : UInt64}
    (covered : (appliedAt log base).any (fun last => index ≤ last.index) = true) :
    (appliedAt log position).any (fun last => index ≤ last.index) = true := by
  cases last : (log.take base).getLast? with
  | none => simp [appliedAt, last] at covered
  | some entry =>
    have below : index ≤ entry.logId.index := by simpa [appliedAt, last] using covered
    have member : entry ∈ log.take position := by
      rw [take_split ordered]
      exact List.mem_append_left _ (List.mem_of_getLast? last)
    have entryCovered := increasing.take_covered position entry member
    cases found : appliedAt log position with
    | none => simp [found] at entryCovered
    | some applied =>
      rw [found] at entryCovered
      have above : entry.logId.index ≤ applied.index := by simpa using entryCovered
      simpa using UInt64.le_trans below above

/-- A snapshot that is not older than the applied state is not behind it. -/
theorem Increasing.le_of_covered (increasing : Increasing log) (within : position ≤ log.length)
    (notOlder : (appliedAt log position).all (fun applied =>
      (appliedAt log base).any fun last => applied.index ≤ last.index) = true) :
    position ≤ base := by
  by_contra behind
  have nonempty : position - 1 < log.length := by omega
  have last : appliedAt log position = some (log[position - 1]).logId := by
    have found : (log.take position).getLast? = some (log[position - 1]) := by
      rw [List.getLast?_eq_getElem?, List.length_take, Nat.min_eq_left within,
        List.getElem?_take_of_lt (by omega), List.getElem?_eq_getElem nonempty]
    rw [appliedAt, found]
    rfl
  have dropped : log[position - 1] ∈ log.drop base := by
    rw [List.mem_drop_iff_getElem]
    exact ⟨position - 1 - base, by omega, by congr 1; omega⟩
  have uncovered := increasing.drop_uncovered base _ dropped
  rw [last, Option.all_some, uncovered] at notOlder
  cases notOlder

theorem sound_stateAt (finite : ∀ entry ∈ log, EntryFinite entry) (position : Nat) :
    (stateAt arith config log position).Sound config :=
  (ShardState.sound_initial config).foldl fun entry member =>
    finite entry (List.mem_of_mem_take member)

/-- What is assumed of a log: the entries come with increasing indexes and carry
finite numbers, and the collection has a dimension. -/
structure Deliverable (config : CollectionConfig) (log : List Entry) : Prop where
  positive : config.dimension ≠ 0
  increasing : Increasing log
  finite : ∀ entry ∈ log, EntryFinite entry

/-! ## Opening -/

section Opening

variable {current : Option StoredSnapshot}

theorem run_readSnapshot (found : disk snapshotName = current.map json.storedSnapshot.toVec)
    (isBase : BaseSnapshot arith json indexes config log current base) :
    (readSnapshot json).run disk = (disk, .ok current) := by
  unfold readSnapshot
  rw [Program.run_bind_ok run_fileExists]
  cases current with
  | none =>
    rw [found]
    rfl
  | some stored =>
    have reads : disk snapshotName = some (json.storedSnapshot.toVec stored) := found
    rw [reads]
    show (readFile snapshotName >>= fun bytes =>
      Program.ofExcept (decodeStoredSnapshot json bytes) >>= fun stored => pure (some stored)).run
        disk = _
    rw [Program.run_bind_ok (run_readFile reads),
      decodeStoredSnapshot_toVec (SnapshotAt.checksummed isBase)]
    rfl

theorem SnapshotAt.decodes (deliverable : Deliverable config log)
    (isSnapshot : SnapshotAt arith json indexes config log stored base) :
    decodeStateSnapshot json stored.data = .ok ((stateAt arith config log base).snapshot config) := by
  obtain ⟨built, builds⟩ := isSnapshot.builds
  exact decodeStateSnapshot_sealed
    ((sound_stateAt deliverable.finite base).storedFinite builds) isSnapshot.encodes

theorem loadState_base (deliverable : Deliverable config log)
    (isBase : BaseSnapshot arith json indexes config log current base) :
    ∃ built, loadState json indexes config ⟨config, .empty, 0⟩ current =
        .ok (stateAt arith config log base, built) ∧
      ∀ indexed, built = some indexed → buildIndexes indexes config
        (stateAt arith config log base).collection.snapshotStoredPoints = .ok indexed := by
  cases current with
  | none =>
    have start : base = 0 := isBase
    subst start
    exact ⟨none, rfl, nofun⟩
  | some stored =>
    have isSnapshot : SnapshotAt arith json indexes config log stored base := isBase
    obtain ⟨built, builds⟩ := isSnapshot.builds
    refine ⟨some built, ?_, fun indexed same => Option.some.inj same ▸ builds⟩
    have restores := restoreSnapshot_snapshot (sound_stateAt deliverable.finite base)
      deliverable.positive builds
    unfold loadState
    simp only [isSnapshot.decodes deliverable]
    show (if config ≠ config then _ else _) = _
    rw [if_neg (by simp), restores]
    rfl

theorem readSnapshot_avoids (file : String) : (readSnapshot json).Avoids file := by
  refine Program.Avoids.bind (avoids_io List.not_mem_nil) fun present => ?_
  cases present with
  | false => exact .pure _
  | true =>
    exact .bind (avoids_io List.not_mem_nil) fun _ =>
      .bind (.ofExcept _) fun _ => .pure _

namespace HoldsAt

section

variable (holds : HoldsAt arith json indexes config log disk base position records rest)

include holds

theorem congr {otherRest : Bytes}
    (sameSnapshot : next snapshotName = disk snapshotName)
    (journal : (next stateJournal.file).getD [] =
      stateJournal.bytes json.appliedRecord records ++ otherRest)
    (torn : stateJournal.TornEnd otherRest) :
    HoldsAt arith json indexes config log next base position records otherRest :=
  { holds with
    snapshot := by
      rw [sameSnapshot]
      exact holds.snapshot
    journal
    torn }

theorem cut : HoldsAt arith json indexes config log
      (disk.write stateJournal.file (stateJournal.bytes json.appliedRecord records))
      base position records [] := by
  refine holds.congr (Disk.write_other _ _ stateJournal_ne_snapshot.symm) ?_ (.inl rfl)
  rw [Disk.write_same, Option.getD_some, List.append_nil]

/-- The journal leads from the snapshot to the position. -/
theorem replays (increasing : Increasing log) :
    ∃ changed : IdSet, records.foldlM (openStep arith) (stateAt arith config log base, ∅) =
        .ok (stateAt arith config log position, changed) ∧
      ∀ id ∈ changedBy arith (stateAt arith config log base) (between log base position),
        id ∈ changed := by
  obtain ⟨stale, rfl, covered⟩ := holds.journalled
  have skipped : ∀ record ∈ stale, (stateAt arith config log base).lastApplied.any
      (fun applied => record.logId.index ≤ applied.index) = true := by
    rw [appliedAt_stateAt]
    exact covered
  have ahead : ∀ entry ∈ between log base position,
      (stateAt arith config log base).lastApplied.any
        (fun applied => entry.logId.index ≤ applied.index) = false := by
    rw [appliedAt_stateAt]
    exact fun entry member => increasing.drop_uncovered base entry (mem_between member).2
  obtain ⟨changed, folds, members⟩ := foldlM_openStep_recordsOf increasing.between ahead
  refine ⟨changed, ?_, fun id member => (members id).mpr (.inr member)⟩
  rw [List.foldlM_append, foldlM_openStep_stale skipped, ← stateAt_foldl holds.ordered]
  exact folds

end

theorem run_openMachine (deliverable : Deliverable config log)
    (holds : HoldsAt arith json indexes config log disk base position records rest) :
    ∃ machine, (openMachine arith json indexes config).run disk =
        (disk.write stateJournal.file (stateJournal.bytes json.appliedRecord records),
          .ok machine) ∧
      Running arith indexes config log machine position := by
  obtain ⟨current, found, isBase⟩ := holds.snapshot
  obtain ⟨built, loads, builds⟩ := loadState_base deliverable isBase
  obtain ⟨changed, folds, members⟩ := holds.replays deliverable.increasing
  refine ⟨⟨config, stateAt arith config log position, built.map Prod.fst, built.map Prod.snd,
    changed, current⟩, ?_, rfl, rfl, ?_⟩
  · have created : Collection.new config = .ok ⟨config, .empty, 0⟩ := if_neg deliverable.positive
    have opened : (disk.write stateJournal.file ((disk stateJournal.file).getD []))
        stateJournal.file =
        some (stateJournal.bytes json.appliedRecord records ++ rest) := by
      rw [Disk.write_same, holds.journal]
    have recovers : (stateJournal.recoverFile json.appliedRecord
        (fun records record => records ++ [record]) []).run
          (disk.write stateJournal.file ((disk stateJournal.file).getD [])) =
        (disk.write stateJournal.file (stateJournal.bytes json.appliedRecord records),
          .ok records) := by
      rw [Journal.run_recoverFile_torn holds.readable holds.torn opened, Journal.foldl_concat,
        Disk.write_write]
    unfold openMachine
    rw [created, Program.run_bind_ok (Program.run_ofExcept _),
      Program.run_bind_ok (run_readSnapshot found isBase), loads,
      Program.run_bind_ok (Program.run_ofExcept _)]
    simp only
    rw [Program.run_bind_ok run_openOrCreate_getD, Program.run_bind_ok recovers, folds]
    rfl
  · cases built with
    | none => exact .inl ⟨rfl, rfl⟩
    | some indexed =>
      exact .inr ⟨base, indexed, holds.ordered, builds indexed rfl, rfl, rfl, members⟩

theorem openMachine_crash (deliverable : Deliverable config log)
    (holds : HoldsAt arith json indexes config log disk base position records rest)
    (crashed : next ∈ (openMachine arith json indexes config).crashStates disk) :
    ∃ left, HoldsAt arith json indexes config log next base position records left := by
  obtain ⟨current, found, isBase⟩ := holds.snapshot
  obtain ⟨built, loads, -⟩ := loadState_base deliverable isBase
  have created : Collection.new config = .ok ⟨config, .empty, 0⟩ := if_neg deliverable.positive
  have opened : (disk.write stateJournal.file ((disk stateJournal.file).getD []))
      stateJournal.file = some (stateJournal.bytes json.appliedRecord records ++ rest) := by
    rw [Disk.write_same, holds.journal]
  have touched : HoldsAt arith json indexes config log
      (disk.write stateJournal.file ((disk stateJournal.file).getD [])) base position records
      rest := by
    refine holds.congr (Disk.write_other _ _ stateJournal_ne_snapshot.symm) ?_ holds.torn
    rw [opened, Option.getD_some]
  unfold openMachine at crashed
  rw [created] at crashed
  rcases Program.mem_crashStates_bind.mp crashed with early | ⟨_, _, runs, crashed⟩
  · exact ⟨rest, List.mem_singleton.mp early ▸ holds⟩
  cases runs
  rcases Program.mem_crashStates_bind.mp crashed with early | ⟨_, _, runs, crashed⟩
  · exact ⟨rest, Program.crash_of_avoids_all readSnapshot_avoids early ▸ holds⟩
  rw [run_readSnapshot found isBase] at runs
  cases runs
  rw [loads] at crashed
  rcases Program.mem_crashStates_bind.mp crashed with early | ⟨_, _, runs, crashed⟩
  · exact ⟨rest, List.mem_singleton.mp early ▸ holds⟩
  cases runs
  rcases Program.mem_crashStates_bind.mp crashed with early | ⟨_, _, runs, crashed⟩
  · rcases openOrCreate_crash early with rfl | rfl
    · exact ⟨rest, holds⟩
    · exact ⟨rest, touched⟩
  rw [run_openOrCreate_getD] at runs
  cases runs
  rcases Program.mem_crashStates_bind.mp crashed with early | ⟨_, recovered, runs, crashed⟩
  · rcases Journal.recoverFile_crash holds.readable holds.torn opened early with rfl | rfl
    · exact ⟨rest, touched⟩
    · exact ⟨[], touched.cut⟩
  rw [Journal.run_recoverFile_torn holds.readable holds.torn opened] at runs
  obtain ⟨rfl, -⟩ := Prod.mk.inj runs
  rcases Program.mem_crashStates_bind.mp crashed with early | ⟨_, _, runs, crashed⟩
  · rw [Program.crashStates_ofExcept, List.mem_singleton] at early
    exact ⟨[], early ▸ touched.cut⟩
  rw [Program.run_ofExcept] at runs
  obtain ⟨rfl, -⟩ := Prod.mk.inj runs
  exact ⟨[], List.mem_singleton.mp crashed ▸ touched.cut⟩

end HoldsAt

end Opening

/-! ## Applying -/

section Applying

variable (arith json indexes config log) in
def Survives (disk : Directory) (position : Nat) : Prop :=
  ∃ base records rest, HoldsAt arith json indexes config log disk base position records rest

variable (arith json indexes config log) in
/-- A replica that is open at a position. -/
structure Operates (disk : Directory) (machine : ShardMachine indexes) (position : Nat) : Prop where
  holds : ∃ base records, HoldsAt arith json indexes config log disk base position records [] ∧
    disk stateJournal.file = some (stateJournal.bytes json.appliedRecord records)
  running : Running arith indexes config log machine position

variable {machine : ShardMachine indexes} {entry : Entry} {later : List Entry}

theorem Operates.survives
    (operates : Operates arith json indexes config log disk machine position) :
    Survives arith json indexes config log disk position := by
  obtain ⟨base, records, holds, -⟩ := operates.holds
  exact ⟨base, records, [], holds⟩

theorem Survives.opens (deliverable : Deliverable config log)
    (survives : Survives arith json indexes config log disk position) :
    ∃ next machine, (openMachine arith json indexes config).run disk = (next, .ok machine) ∧
      Operates arith json indexes config log next machine position := by
  obtain ⟨base, records, rest, holds⟩ := survives
  obtain ⟨machine, opens, running⟩ := holds.run_openMachine deliverable
  exact ⟨_, machine, opens, ⟨base, records, holds.cut, Disk.write_same _ _ _⟩, running⟩

theorem Survives.open_crash (deliverable : Deliverable config log)
    (survives : Survives arith json indexes config log disk position)
    (crashed : next ∈ (openMachine arith json indexes config).crashStates disk) :
    Survives arith json indexes config log next position := by
  obtain ⟨base, records, rest, holds⟩ := survives
  obtain ⟨left, after⟩ := holds.openMachine_crash deliverable crashed
  exact ⟨base, records, left, after⟩

theorem recordsBetween_succ (ordered : base ≤ position) (within : position ≤ log.length)
    (following : log.drop position = entry :: later) :
    recordsBetween arith config log base (position + 1) =
      recordsBetween arith config log base position ++
        [recordOf arith (stateAt arith config log position) entry] := by
  rw [recordsBetween, between_extend ordered within, following, recordsOf_append,
    stateAt_foldl ordered]
  rfl

theorem stateAt_succ (following : log.drop position = entry :: later) :
    stateAt arith config log (position + 1) =
      advance arith (stateAt arith config log position) entry := by
  rw [stateAt, List.take_add, following, List.foldl_append]
  rfl

theorem within_succ (following : log.drop position = entry :: later) :
    position + 1 ≤ log.length := by
  have size := congrArg List.length following
  rw [List.length_drop, List.length_cons] at size
  omega

theorem Running.advance (running : Running arith indexes config log machine position)
    (within : position ≤ log.length) (following : log.drop position = entry :: later) :
    Running arith indexes config log { machine with
      state := stateAt arith config log (position + 1)
      dirtyIds := machine.dirtyIds.insertMany
        (changedIds arith (stateAt arith config log position) entry) } (position + 1) where
  sameConfig := running.sameConfig
  state := rfl
  indexed := by
    refine running.indexed.imp_right ?_
    rintro ⟨base, built, ordered, builds, graph, payloads, changed⟩
    refine ⟨base, built, Nat.le_succ_of_le ordered, builds, graph, payloads, ?_⟩
    intro id member
    rw [between_extend ordered within, following, changedBy_append, stateAt_foldl ordered] at member
    rw [Std.ExtTreeSet.mem_insertMany_list, List.contains_iff_mem]
    rcases List.mem_append.mp member with before | now
    · exact .inl (changed id before)
    · exact .inr (by simpa [changedBy] using now)

theorem HoldsAt.append (holds : HoldsAt arith json indexes config log disk base position records [])
    (following : log.drop position = entry :: later)
    (readable : stateJournal.Readable json.appliedRecord
      (recordOf arith (stateAt arith config log position) entry)) :
    HoldsAt arith json indexes config log
      (disk.write stateJournal.file (stateJournal.bytes json.appliedRecord
        (records ++ [recordOf arith (stateAt arith config log position) entry])))
      base (position + 1)
      (records ++ [recordOf arith (stateAt arith config log position) entry]) [] where
  ordered := Nat.le_succ_of_le holds.ordered
  within := within_succ following
  snapshot := by
    rw [Disk.write_other _ _ stateJournal_ne_snapshot.symm]
    exact holds.snapshot
  journal := by rw [Disk.write_same, Option.getD_some, List.append_nil]
  torn := .inl rfl
  readable := List.forall_mem_append.mpr
    ⟨holds.readable, List.forall_mem_singleton.mpr readable⟩
  journalled := by
    obtain ⟨stale, split, covered⟩ := holds.journalled
    refine ⟨stale, ?_, covered⟩
    rw [split, recordsBetween_succ holds.ordered holds.within following, List.append_assoc]

section

variable (deliverable : Deliverable config log)
  (operates : Operates arith json indexes config log disk machine position)
  (following : log.drop position = entry :: later)

include deliverable operates following

/-- An entry is applied, or its record is too large and nothing happens. -/
theorem Operates.run_applyEntry : (∃ next after, (applyEntry arith json machine entry).run disk =
        (next, .ok (after, (preparePayload arith (stateAt arith config log position) entry).2)) ∧
      Operates arith json indexes config log next after (position + 1)) ∨
    ∃ error, (applyEntry arith json machine entry).run disk = (disk, .error error) := by
  obtain ⟨⟨base, records, holds, file⟩, running⟩ := operates
  have finite : EntryFinite entry := deliverable.finite entry
    (List.mem_of_mem_drop (following ▸ List.mem_cons_self))
  have isRecord : (⟨entry.logId, (preparePayload arith machine.state entry).1⟩ : AppliedRecord) =
      recordOf arith (stateAt arith config log position) entry := by
    rw [running.state]
    rfl
  unfold applyEntry
  simp only [isRecord]
  by_cases large : stateJournal.format.maxPayload <
      (json.appliedRecord.toVec
        (recordOf arith (stateAt arith config log position) entry)).length
  · exact .inr ⟨_, Program.run_bind_error (Journal.run_append_large large)⟩
  · have readable : stateJournal.Readable json.appliedRecord
        (recordOf arith (stateAt arith config log position) entry) :=
      Journal.readable_iff.mpr ⟨not_lt.mp large, appliedFinite_recordOf.mpr finite⟩
    refine .inl ⟨_, _, ?_, ⟨base, _, holds.append following readable, Disk.write_same _ _ _⟩,
      running.advance holds.within following⟩
    rw [Program.run_bind_ok (Journal.run_append file (not_lt.mp large)), running.state,
      replayRecord_recordOf, stateAt_succ following, Journal.bytes_concat]
    rfl

theorem Operates.applyEntry_crash
    (crashed : next ∈ (applyEntry arith json machine entry).crashStates disk) :
    Survives arith json indexes config log next position ∨
      Survives arith json indexes config log next (position + 1) := by
  obtain ⟨⟨base, records, holds, file⟩, running⟩ := operates
  have finite : EntryFinite entry := deliverable.finite entry
    (List.mem_of_mem_drop (following ▸ List.mem_cons_self))
  have isRecord : (⟨entry.logId, (preparePayload arith machine.state entry).1⟩ : AppliedRecord) =
      recordOf arith (stateAt arith config log position) entry := by
    rw [running.state]
    rfl
  have whole : ∀ small : ¬ stateJournal.format.maxPayload < (json.appliedRecord.toVec
        (recordOf arith (stateAt arith config log position) entry)).length,
      Survives arith json indexes config log
        (disk.write stateJournal.file (stateJournal.bytes json.appliedRecord records ++
          stateJournal.format.frame (json.appliedRecord.toVec
            (recordOf arith (stateAt arith config log position) entry)))) (position + 1) := by
    intro small
    have grown := holds.append following
      (Journal.readable_iff.mpr ⟨not_lt.mp small, appliedFinite_recordOf.mpr finite⟩)
    rw [Journal.bytes_concat] at grown
    exact ⟨base, _, [], grown⟩
  unfold applyEntry at crashed
  simp only [isRecord] at crashed
  rcases Program.mem_crashStates_bind.mp crashed with appending | ⟨_, _, runs, replaying⟩
  · obtain ⟨length, rfl, refused⟩ := Journal.append_crash file appending
    by_cases large : stateJournal.format.maxPayload < (json.appliedRecord.toVec
        (recordOf arith (stateAt arith config log position) entry)).length
    · rw [refused large, List.take_zero, List.append_nil]
      exact .inl ⟨base, records, [], holds.cut⟩
    by_cases partly : length < (stateJournal.format.frame (json.appliedRecord.toVec
        (recordOf arith (stateAt arith config log position) entry))).length
    · refine .inl ⟨base, records, _, holds.congr
        (Disk.write_other _ _ stateJournal_ne_snapshot.symm) ?_
        (Journal.tornEnd_take (not_lt.mp large) partly)⟩
      rw [Disk.write_same, Option.getD_some]
    · rw [List.take_of_length_le (not_lt.mp partly)]
      exact .inr (whole large)
  · by_cases large : stateJournal.format.maxPayload < (json.appliedRecord.toVec
        (recordOf arith (stateAt arith config log position) entry)).length
    · rw [Journal.run_append_large large] at runs
      cases runs
    · rw [Journal.run_append file (not_lt.mp large)] at runs
      obtain ⟨rfl, -⟩ := Prod.mk.inj runs
      rw [running.state, replayRecord_recordOf] at replaying
      exact .inr (List.mem_singleton.mp replaying ▸ whole large)

end

/-- Applying goes through some of the entries, and through all of them when it
succeeds. -/
theorem Operates.run_applyEntries (deliverable : Deliverable config log) {entries : List Entry}
    (operates : Operates arith json indexes config log disk machine position)
    (following : log.drop position = entries ++ later) :
    ∃ next after responses reached, (applyEntries arith json machine entries).run disk =
        (next, .ok (after, responses)) ∧
      position ≤ reached ∧ Operates arith json indexes config log next after reached ∧
      ∀ answers, responses = .ok answers → reached = position + entries.length ∧
        answers = answersOf arith (stateAt arith config log position) entries := by
  induction entries generalizing disk machine position with
  | nil =>
    refine ⟨disk, machine, .ok [], position, rfl, le_rfl, operates, fun answers same => ?_⟩
    cases same
    exact ⟨rfl, rfl⟩
  | cons entry rest ih =>
    unfold applyEntries
    rcases operates.run_applyEntry deliverable following with
      ⟨next, after, runs, applied⟩ | ⟨error, fails⟩
    · have tail : log.drop (position + 1) = rest ++ later := by
        rw [← List.drop_drop, following]
        rfl
      obtain ⟨last, final, responses, reached, applies, further, operating, answered⟩ :=
        ih applied tail
      refine ⟨last, final, responses.map
        ((preparePayload arith (stateAt arith config log position) entry).2 :: ·), reached, ?_,
        Nat.le_of_succ_le further, operating, ?_⟩
      · rw [Program.run_bind_ok (Program.run_capture ..), runs]
        simp only
        rw [Program.run_bind_ok applies]
        rfl
      · intro answers same
        cases responses with
        | error error => cases same
        | ok rest' =>
          obtain ⟨arrived, same'⟩ := answered rest' rfl
          cases same
          rw [answersOf, ← stateAt_succ following, ← same', List.length_cons, arrived]
          exact ⟨by omega, rfl⟩
    · refine ⟨disk, machine, .error error, position, ?_, le_rfl, operates, nofun⟩
      rw [Program.run_bind_ok (Program.run_capture ..), fails]
      rfl

theorem Operates.applyEntries_crash (deliverable : Deliverable config log) {entries : List Entry}
    (operates : Operates arith json indexes config log disk machine position)
    (following : log.drop position = entries ++ later)
    (crashed : next ∈ (applyEntries arith json machine entries).crashStates disk) :
    ∃ reached, position ≤ reached ∧ Survives arith json indexes config log next reached := by
  induction entries generalizing disk machine position with
  | nil => exact ⟨position, le_rfl, List.mem_singleton.mp crashed ▸ operates.survives⟩
  | cons entry rest ih =>
    unfold applyEntries at crashed
    rcases Program.mem_crashStates_bind.mp crashed with applying | ⟨_, result, runs, going⟩
    · rw [Program.crashStates_capture] at applying
      rcases operates.applyEntry_crash deliverable following applying with before | after
      · exact ⟨position, le_rfl, before⟩
      · exact ⟨position + 1, Nat.le_succ _, after⟩
    · rw [Program.run_capture] at runs
      rcases operates.run_applyEntry deliverable following with
        ⟨mid, after, applies, applied⟩ | ⟨error, fails⟩
      · rw [applies] at runs
        cases runs
        have tail : log.drop (position + 1) = rest ++ later := by
          rw [← List.drop_drop, following]
          rfl
        rcases Program.mem_crashStates_bind.mp going with within | ⟨_, _, finishes, done⟩
        · obtain ⟨reached, further, survives⟩ := ih applied tail within
          exact ⟨reached, Nat.le_of_succ_le further, survives⟩
        · obtain ⟨last, final, responses, reached, applies', further, operating, -⟩ :=
            applied.run_applyEntries deliverable tail
          rw [applies'] at finishes
          cases finishes
          exact ⟨reached, Nat.le_of_succ_le further,
            List.mem_singleton.mp done ▸ operating.survives⟩
      · rw [fails] at runs
        cases runs
        exact ⟨position, le_rfl, List.mem_singleton.mp going ▸ operates.survives⟩

end Applying

/-! ## Snapshots -/

section Snapshots

variable {machine : ShardMachine indexes} {target process : Nat}

namespace HoldsAt

theorem covered (holds : HoldsAt arith json indexes config log disk base position records rest)
    (increasing : Increasing log) :
    ∀ record ∈ records,
      (appliedAt log position).any (fun last => record.logId.index ≤ last.index) = true := by
  obtain ⟨stale, rfl, covered⟩ := holds.journalled
  intro record member
  rcases List.mem_append.mp member with old | new
  · exact increasing.covered_mono holds.ordered (covered record old)
  · obtain ⟨entry, isEntry, same⟩ := logId_of_mem_recordsOf new
    rw [same]
    exact increasing.take_covered position entry (mem_between isEntry).1

/-- A newer snapshot makes the whole journal stale. -/
theorem rebase (holds : HoldsAt arith json indexes config log disk base position records rest)
    (increasing : Increasing log) (ahead : position ≤ target)
    (isSnapshot : SnapshotAt arith json indexes config log stored target)
    (replaced : next snapshotName = some (json.storedSnapshot.toVec stored))
    (kept : next stateJournal.file = disk stateJournal.file) :
    HoldsAt arith json indexes config log next target target records rest where
  ordered := le_rfl
  within := isSnapshot.within
  snapshot := ⟨some stored, replaced, isSnapshot⟩
  journal := by rw [kept, holds.journal]
  torn := holds.torn
  readable := holds.readable
  journalled := by
    refine ⟨records, ?_, fun record member =>
      increasing.covered_mono ahead (holds.covered increasing record member)⟩
    rw [recordsBetween, between_self]
    simp [recordsOf]

theorem empty (holds : HoldsAt arith json indexes config log disk target target records rest) :
    HoldsAt arith json indexes config log (disk.write stateJournal.file []) target target [] [] where
  ordered := le_rfl
  within := holds.within
  snapshot := by
    rw [Disk.write_other _ _ stateJournal_ne_snapshot.symm]
    exact holds.snapshot
  journal := by
    rw [Disk.write_same]
    rfl
  torn := .inl rfl
  readable := fun _ member => absurd member List.not_mem_nil
  journalled := by
    refine ⟨[], ?_, fun _ member => absurd member List.not_mem_nil⟩
    rw [recordsBetween, between_self]
    rfl

/-- A crash while a newer snapshot is written leaves the old one or the new. -/
theorem writeSnapshot_crash
    (holds : HoldsAt arith json indexes config log disk base position records rest)
    (increasing : Increasing log) (ahead : position ≤ target)
    (isSnapshot : SnapshotAt arith json indexes config log stored target)
    (crashed : next ∈ (writeSnapshot json process stored).crashStates disk) :
    Survives arith json indexes config log next position ∨
      Survives arith json indexes config log next target := by
  obtain ⟨replaced, others⟩ := replaceFile_crash (snapshot_ne_temporary process) crashed
  have kept := others stateJournal.file (stateJournal_ne_temporary process)
    stateJournal_ne_snapshot
  rcases replaced with unchanged | renewed
  · exact .inl ⟨base, records, rest, holds.congr unchanged (by rw [kept, holds.journal])
      holds.torn⟩
  · exact .inr ⟨target, records, rest, holds.rebase increasing ahead isSnapshot renewed kept⟩

end HoldsAt

theorem Operates.run_writeSnapshot
    (operates : Operates arith json indexes config log disk machine position)
    (increasing : Increasing log) (ahead : position ≤ target)
    (isSnapshot : SnapshotAt arith json indexes config log stored target) (process : Nat) :
    ∃ next records, (writeSnapshot json process stored).run disk = (next, .ok ()) ∧
      HoldsAt arith json indexes config log next target target records [] ∧
      next stateJournal.file = some (stateJournal.bytes json.appliedRecord records) := by
  obtain ⟨⟨base, records, holds, file⟩, -⟩ := operates
  obtain ⟨next, runs, replaced, others⟩ := run_replaceFile disk (snapshotTemporaryName process)
    snapshotName (json.storedSnapshot.toVec stored)
  have kept := others stateJournal.file (stateJournal_ne_temporary process)
    stateJournal_ne_snapshot
  exact ⟨next, records, runs, holds.rebase increasing ahead isSnapshot replaced kept,
    kept.trans file⟩

theorem Running.snapshotAt (running : Running arith indexes config log machine position)
    (within : position ≤ log.length) {built : indexes.Graph × indexes.MetadataIndex}
    {data : Bytes} (nonce : Nat)
    (builds : buildIndexes indexes machine.config
      machine.state.collection.snapshotStoredPoints = .ok built)
    (encodes : encodeStateSnapshot json (machine.state.snapshot machine.config) = .ok data) :
    SnapshotAt arith json indexes config log
      (.sealing json (machine.state.snapshotMeta nonce) data) position where
  within := within
  logId := by
    rw [← appliedAt_stateAt, ← running.state]
    rfl
  builds := ⟨built, by rw [← running.state, ← running.sameConfig]; exact builds⟩
  encodes := by
    rw [← running.state]
    exact running.sameConfig ▸ encodes
  checksummed := rfl

theorem Operates.run_buildSnapshot (deliverable : Deliverable config log)
    (operates : Operates arith json indexes config log disk machine position)
    (process nonce : Nat) :
    (∃ next after stored, (buildSnapshot json process nonce machine).run disk =
        (next, .ok (after, stored)) ∧
      Operates arith json indexes config log next after position ∧
      SnapshotAt arith json indexes config log stored position) ∨
    ∃ error, (buildSnapshot json process nonce machine).run disk = (disk, .error error) := by
  obtain ⟨base, records, holds, -⟩ := operates.holds
  have running := operates.running
  unfold buildSnapshot
  cases builds : buildIndexes indexes machine.config
      machine.state.collection.snapshotStoredPoints with
  | error error => exact .inr ⟨error, rfl⟩
  | ok built =>
    cases encodes : encodeStateSnapshot json (machine.state.snapshot machine.config) with
    | error error => exact .inr ⟨error, rfl⟩
    | ok data =>
      have isSnapshot := running.snapshotAt holds.within nonce builds encodes
      obtain ⟨next, records', writes, after, file⟩ := operates.run_writeSnapshot
        deliverable.increasing le_rfl isSnapshot process
      refine .inl ⟨next, _, _, Program.run_bind_ok writes, ⟨⟨position, records', after, file⟩,
        running.sameConfig, running.state, ?_⟩, isSnapshot⟩
      refine .inr ⟨position, built, le_rfl, ?_, rfl, rfl, ?_⟩
      · rw [← running.state, ← running.sameConfig]
        exact builds
      · rw [between_self]
        exact fun id member => absurd member List.not_mem_nil

theorem Operates.buildSnapshot_crash (deliverable : Deliverable config log)
    (operates : Operates arith json indexes config log disk machine position) {nonce : Nat}
    (crashed : next ∈ (buildSnapshot json process nonce machine).crashStates disk) :
    Survives arith json indexes config log next position := by
  obtain ⟨base, records, holds, -⟩ := operates.holds
  have running := operates.running
  unfold buildSnapshot at crashed
  cases builds : buildIndexes indexes machine.config
      machine.state.collection.snapshotStoredPoints with
  | error error =>
    rw [builds] at crashed
    exact List.mem_singleton.mp crashed ▸ operates.survives
  | ok built =>
    rw [builds] at crashed
    cases encodes : encodeStateSnapshot json (machine.state.snapshot machine.config) with
    | error error =>
      rw [encodes] at crashed
      exact List.mem_singleton.mp crashed ▸ operates.survives
    | ok data =>
      rw [encodes] at crashed
      have isSnapshot := running.snapshotAt holds.within nonce builds encodes
      change next ∈ (writeSnapshot json process (.sealing json (machine.state.snapshotMeta nonce) data) >>=
        fun _ => pure _).crashStates disk at crashed
      rcases Program.mem_crashStates_bind.mp crashed with writing | ⟨_, _, writes, done⟩
      · exact (holds.writeSnapshot_crash deliverable.increasing le_rfl isSnapshot
          writing).elim id id
      · obtain ⟨next', records', writes', after, -⟩ := operates.run_writeSnapshot
          deliverable.increasing le_rfl isSnapshot process
        rw [writes'] at writes
        cases writes
        exact List.mem_singleton.mp done ▸ ⟨position, records', [], after⟩

/-- The checksum of an installed snapshot is computed anew. -/
theorem SnapshotAt.sealing (isSnapshot : SnapshotAt arith json indexes config log stored target) :
    SnapshotAt arith json indexes config log (.sealing json stored.snapshotMeta stored.data) target :=
  ⟨isSnapshot.within, isSnapshot.logId, isSnapshot.builds, isSnapshot.encodes, rfl⟩

section

variable (deliverable : Deliverable config log)
  (operates : Operates arith json indexes config log disk machine position)
  (ahead : position ≤ target)

include deliverable operates ahead

theorem Operates.run_installSnapshot
    (isSnapshot : SnapshotAt arith json indexes config log stored target) (process : Nat) :
    ∃ next after, (installSnapshot json process machine stored.snapshotMeta stored.data).run disk =
        (next, .ok after) ∧
      Operates arith json indexes config log next after target := by
  obtain ⟨built, builds⟩ := isSnapshot.builds
  have restores := restoreSnapshot_snapshot (sound_stateAt deliverable.finite target)
    deliverable.positive builds
  obtain ⟨next, records, writes, holds, file⟩ := operates.run_writeSnapshot
    deliverable.increasing ahead isSnapshot.sealing process
  have emptied := holds.empty
  refine ⟨next.write stateJournal.file [], ⟨machine.config, stateAt arith config log target,
      some built.1, some built.2, ∅, some (.sealing json stored.snapshotMeta stored.data)⟩, ?_,
    ⟨target, [], emptied, Disk.write_same _ _ _⟩, operates.running.sameConfig, rfl, .inr
      ⟨target, built, le_rfl, builds, rfl, rfl, ?_⟩⟩
  · unfold installSnapshot
    rw [isSnapshot.decodes deliverable, Program.run_bind_ok (Program.run_ofExcept _),
      if_neg (by rw [operates.running.sameConfig]; simp [ShardState.snapshot])]
    simp only
    rw [Program.run_bind_ok writes, restores, Program.run_bind_ok (Program.run_ofExcept _)]
    simp only
    rw [Program.run_bind_ok (run_setFileLength file (Nat.zero_le _)), List.take_zero]
    rfl
  · rw [between_self]
    exact fun id member => absurd member List.not_mem_nil

theorem Operates.installSnapshot_crash
    (isSnapshot : SnapshotAt arith json indexes config log stored target)
    (crashed : next ∈
      (installSnapshot json process machine stored.snapshotMeta stored.data).crashStates disk) :
    Survives arith json indexes config log next position ∨
      Survives arith json indexes config log next target := by
  obtain ⟨built, builds⟩ := isSnapshot.builds
  have restores := restoreSnapshot_snapshot (sound_stateAt deliverable.finite target)
    deliverable.positive builds
  obtain ⟨base, records, before, -⟩ := operates.holds
  obtain ⟨written, records', writes, holds, file⟩ := operates.run_writeSnapshot
    deliverable.increasing ahead isSnapshot.sealing process
  unfold installSnapshot at crashed
  rw [isSnapshot.decodes deliverable] at crashed
  rcases Program.mem_crashStates_bind.mp crashed with early | ⟨_, _, runs, crashed⟩
  · exact .inl (List.mem_singleton.mp early ▸ operates.survives)
  cases runs
  rw [if_neg (by rw [operates.running.sameConfig]; simp [ShardState.snapshot])] at crashed
  rcases Program.mem_crashStates_bind.mp crashed with early | ⟨_, _, runs, crashed⟩
  · exact before.writeSnapshot_crash deliverable.increasing ahead isSnapshot.sealing early
  rw [writes] at runs
  cases runs
  rw [restores] at crashed
  right
  rcases Program.mem_crashStates_bind.mp crashed with early | ⟨_, _, runs, crashed⟩
  · exact ⟨target, records', [], List.mem_singleton.mp early ▸ holds⟩
  cases runs
  rcases Program.mem_crashStates_bind.mp crashed with early | ⟨_, _, runs, crashed⟩
  · rcases setFileLength_crash file (Nat.zero_le _) early with rfl | rfl
    · exact ⟨target, records', [], holds⟩
    · exact ⟨target, [], [], holds.empty⟩
  rw [run_setFileLength file (Nat.zero_le _)] at runs
  obtain ⟨rfl, -⟩ := Prod.mk.inj runs
  rcases Program.mem_crashStates_bind.mp crashed with early | ⟨_, _, runs, crashed⟩
  · exact ⟨target, [], [], syncDirectory_crash early ▸ holds.empty⟩
  cases runs
  exact ⟨target, [], [], List.mem_singleton.mp crashed ▸ holds.empty⟩

end

end Snapshots

end FocalVector.Raft
