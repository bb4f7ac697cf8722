import FocalVector.Raft.Reopening
import FocalVector.Raft.ShardSearch

/-!
Contract: searching a replicated shard in every state it reaches.

A state machine is opened on any directory, applies any entries, builds snapshots,
installs any snapshot that it accepts, and refreshes its indexes while it applies
further entries. Its indexes always agree with the live points outside of the dirty
ids. A search is then exact, unless the refresh that it begins with cannot build the
indexes: a vector that normalising made infinite is stored but not indexed.

Owns: runs of one state machine, `Fresh`, and when a search is exact.

Does not own: logs that replicas share.
-/

namespace FocalVector.Raft

open FocalVector.Foundation FocalVector.Engine FocalVector.Persistence

/-! ## Runs -/

/-- What a state machine does while indexes are being built. -/
inductive MachineTask where
  | apply (entries : List Entry)
  | buildSnapshot (process nonce : Nat)

inductive MachineCommand where
  | perform (task : MachineTask)
  | restart
  | installSnapshot (process : Nat) (snapshotMeta : SnapshotMeta) (data : Bytes)
  /-- Refresh the indexes; the tasks are performed while they are built. -/
  | refresh (meanwhile : List MachineTask)

structure MachineState (indexes : ShardIndexes) where
  disk : Directory
  machine : Option (ShardMachine indexes)

section Steps

variable (arith : FloatArithmetic) (json : SerdeJson) {indexes : ShardIndexes}

def MachineTask.perform (current : Directory × ShardMachine indexes) :
    MachineTask → Directory × ShardMachine indexes
  | .apply entries =>
    match (applyEntries arith json current.2 entries).run current.1 with
    | (next, .ok (after, _)) => (next, after)
    | (next, .error _) => (next, current.2)
  | .buildSnapshot process nonce =>
    match (Raft.buildSnapshot json process nonce current.2).run current.1 with
    | (next, .ok (after, _)) => (next, after)
    | (next, .error _) => (next, current.2)

/-- `refresh_index_if_needed` with tasks between its two parts. -/
def refreshMeanwhile (current : Directory × ShardMachine indexes) (meanwhile : List MachineTask) :
    Directory × ShardMachine indexes :=
  let after := meanwhile.foldl (MachineTask.perform arith json) current
  match current.2.beginRefresh with
  | none => after
  | some (sequence, points) =>
    match after.2.finishRefresh sequence points with
    | .ok refreshed => (after.1, refreshed)
    | .error _ => after

variable (config : CollectionConfig)

namespace MachineState

def step (state : MachineState indexes) (command : MachineCommand) : MachineState indexes :=
  match command, state.machine with
  | .restart, _ =>
    match (openMachine arith json indexes config).run state.disk with
    | (next, .ok machine) => ⟨next, some machine⟩
    | (next, .error _) => ⟨next, none⟩
  | .perform task, some machine =>
    let after := task.perform arith json (state.disk, machine)
    ⟨after.1, some after.2⟩
  | .installSnapshot process snapshotMeta data, some machine =>
    match (Raft.installSnapshot json process machine snapshotMeta data).run state.disk with
    | (next, .ok after) => ⟨next, some after⟩
    | (next, .error _) => ⟨next, some machine⟩
  | .refresh meanwhile, some machine =>
    let after := refreshMeanwhile arith json (state.disk, machine) meanwhile
    ⟨after.1, some after.2⟩
  | _, none => state

def run (state : MachineState indexes) (commands : List MachineCommand) : MachineState indexes :=
  commands.foldl (step arith json config) state

end MachineState

end Steps

/-! ## What a task does -/

section Tasks

variable (arith : FloatArithmetic) (json : SerdeJson) {indexes : ShardIndexes}

/-- One entry applied, or the indexes built anew. -/
inductive TaskStep : ShardMachine indexes → ShardMachine indexes → Prop where
  | apply (machine : ShardMachine indexes) (entry : Entry) :
      TaskStep machine { machine with
        state := advance arith machine.state entry
        dirtyIds := machine.dirtyIds.insertMany (changedIds arith machine.state entry) }
  | build (machine : ShardMachine indexes) (stored : StoredSnapshot)
      {built : indexes.Graph × indexes.MetadataIndex}
      (builds : buildIndexes indexes machine.config
        machine.state.collection.snapshotStoredPoints = .ok built) :
      TaskStep machine ⟨machine.config, machine.state, some built.1, some built.2, ∅, some stored⟩

open Relation (ReflTransGen)

variable {arith json} {machine after : ShardMachine indexes} {disk next : Directory}

theorem taskStep_of_applyEntry {entry : Entry} {response : ShardResponse}
    (applies : (applyEntry arith json machine entry).run disk = (next, .ok (after, response))) :
    TaskStep arith machine after := by
  obtain ⟨_, _, -, replaying⟩ := Program.of_run_bind_ok applies
  obtain ⟨_, ⟨state, dirtyIds⟩, replays, returns⟩ := Program.of_run_bind_ok replaying
  obtain ⟨-, replays⟩ := Program.of_run_ofExcept replays
  have same := (replayRecord_recordOf machine.state machine.dirtyIds entry).symm.trans replays
  cases same
  cases returns
  exact .apply machine entry

theorem steps_of_applyEntries {entries : List Entry} {responses : Result (List ShardResponse)}
    (applies : (applyEntries arith json machine entries).run disk =
      (next, .ok (after, responses))) : ReflTransGen (TaskStep arith) machine after := by
  induction entries generalizing machine disk responses with
  | nil =>
    cases applies
    exact .refl
  | cons entry rest ih =>
    unfold applyEntries at applies
    rw [Program.run_bind_ok (Program.run_capture ..)] at applies
    cases first : (applyEntry arith json machine entry).run disk with
    | mk middle outcome =>
      rw [first] at applies
      cases outcome with
      | error error =>
        cases applies
        exact .refl
      | ok result =>
        obtain ⟨_, ⟨final, answers⟩, others, returns⟩ := Program.of_run_bind_ok applies
        cases returns
        exact .head (taskStep_of_applyEntry first) (ih others)

theorem taskStep_of_buildSnapshot {process nonce : Nat} {stored : StoredSnapshot}
    (builds : (buildSnapshot json process nonce machine).run disk = (next, .ok (after, stored))) :
    TaskStep arith machine after := by
  obtain ⟨_, built, building, builds⟩ := Program.of_run_bind_ok builds
  obtain ⟨-, isBuilt⟩ := Program.of_run_ofExcept building
  obtain ⟨_, data, -, builds⟩ := Program.of_run_bind_ok builds
  obtain ⟨_, _, -, returns⟩ := Program.of_run_bind_ok builds
  cases returns
  exact .build machine _ isBuilt

variable (arith json) in
theorem steps_of_perform (current : Directory × ShardMachine indexes) (task : MachineTask) :
    ReflTransGen (TaskStep arith) current.2 (task.perform arith json current).2 := by
  cases task with
  | apply entries =>
    simp only [MachineTask.perform]
    split
    next applies => exact steps_of_applyEntries applies
    next => exact .refl
  | buildSnapshot process nonce =>
    simp only [MachineTask.perform]
    split
    next builds => exact .single (taskStep_of_buildSnapshot builds)
    next => exact .refl

variable (arith json) in
theorem steps_of_performAll (current : Directory × ShardMachine indexes)
    (tasks : List MachineTask) :
    ReflTransGen (TaskStep arith) current.2 (tasks.foldl (MachineTask.perform arith json) current).2 := by
  induction tasks generalizing current with
  | nil => exact .refl
  | cons task rest ih =>
    exact (steps_of_perform arith json current task).trans (ih _)

theorem collection_of_steps (steps : ReflTransGen (TaskStep arith) machine after) :
    after.config = machine.config ∧
    (after.state.collection = machine.state.collection ∨
      machine.state.collection.sequence.toNat < after.state.collection.sequence.toNat) := by
  induction steps with
  | refl => exact ⟨rfl, .inl rfl⟩
  | @tail middle _ _ step ih =>
    cases step with
    | build stored builds => exact ih
    | apply entry =>
      refine ⟨ih.1, ?_⟩
      rcases advance_collection arith middle.state entry with kept | raised
      · simp only [kept]
        exact ih.2
      · right
        simp only [raised]
        rcases ih.2 with same | grows
        · rw [same]
          exact Nat.lt_succ_self _
        · exact Nat.lt_succ_of_lt grows

end Tasks

/-! ## Indexes of a running state machine -/

section Fresh

variable {indexes : ShardIndexes} {arith : SearchArithmetic} {json : SerdeJson}
  {machine : SearchMachine indexes arith}

/-- The indexes agree with the live points outside of the dirty ids. -/
structure Fresh (machine : SearchMachine indexes arith) : Prop where
  positive : machine.config.dimension ≠ 0
  sameConfig : machine.state.collection.config = machine.config
  stored : ∀ id point, machine.state.collection.points.get id = some point →
    point.id.isEmpty = false ∧ point.vector.length = machine.config.dimension
  indexed : (machine.index = none ∧ machine.metadataIndex = none) ∨
    ∃ points graph, IndexedOver machine points graph

variable {built : indexes.Graph × Engine.MetadataIndex}

theorem IndexedOver.of_build {points : List StoredPoint}
    (builds : buildIndexes (indexes.withMetadata arith.toIntegerConversion)
      machine.state.collection.config points = .ok built)
    (index : machine.index = some built.1) (metadataIndex : machine.metadataIndex = some built.2)
    (current : ∀ point, point ∈ points ↔
      machine.state.collection.points.get point.id = some point) :
    IndexedOver machine points built.1 := by
  obtain ⟨-, -, distinct, graph, metadata⟩ := buildIndexes_eq_ok.mp builds
  have sameMetadata : Engine.MetadataIndex.build arith.toIntegerConversion points = built.2 :=
    metadata
  exact {
    index
    metadataIndex := by rw [metadataIndex, sameMetadata]
    builds := graph
    distinct
    current := fun point _ => current point }

theorem Fresh.rebuilt (fresh : Fresh machine)
    (builds : buildIndexes (indexes.withMetadata arith.toIntegerConversion) machine.config
      machine.state.collection.snapshotStoredPoints = .ok built)
    (current : Option StoredSnapshot) :
    Fresh (⟨machine.config, machine.state, some built.1, some built.2, ∅, current⟩ :
      SearchMachine indexes arith) where
  positive := fresh.positive
  sameConfig := fresh.sameConfig
  stored := fresh.stored
  indexed := .inr ⟨_, _, .of_build (fresh.sameConfig ▸ builds) rfl rfl
    fun _ => PointMap.mem_values⟩

variable {state : ShardState}

theorem fresh_of_restoreSnapshot {snapshot : StateSnapshot}
    (restores : restoreSnapshot (indexes.withMetadata arith.toIntegerConversion) snapshot =
      .ok (state, built)) (current : Option StoredSnapshot) :
    Fresh (⟨snapshot.config, state, some built.1, some built.2, ∅, current⟩ :
      SearchMachine indexes arith) := by
  obtain ⟨built', builds, restores⟩ := Result.of_bind_ok restores
  obtain ⟨empty, creates, restores⟩ := Result.of_bind_ok restores
  obtain ⟨collection, restored, returns⟩ := Result.of_bind_ok restores
  cases returns
  obtain ⟨positive, indexable, distinct, -, -⟩ := buildIndexes_eq_ok.mp builds
  unfold Collection.new at creates
  rw [if_neg positive] at creates
  cases creates
  obtain rfl := Collection.restoreStoredSnapshot_eq_ok restored
  have current : ∀ point, point ∈ snapshot.points ↔
      (PointMap.empty.insertAll snapshot.points).get point.id = some point := by
    intro point
    rw [PointMap.get_insertAll, PointMap.get_empty, Option.or_none,
      PointMap.lastWith_eq_some distinct, and_iff_left rfl]
  exact {
    positive
    sameConfig := rfl
    stored := by
      intro id point found
      have sameId := PointMap.id_of_get found
      subst sameId
      have nodes := indexable point ((current point).mpr found)
      exact ⟨nodes.named, nodes.sized⟩
    indexed := .inr ⟨_, _, .of_build builds rfl rfl current⟩ }

theorem applyCommand_eq_ok {arith : FloatArithmetic} {collection next : Collection}
    {command : ShardCommand} {sequence : UInt64}
    (applies : applyCommand arith collection command sequence = .ok next) :
    ∃ write, next = collection.applyWrite write sequence ∧
      (∀ id ∈ write.ids, id ∈ commandIds command) ∧
      ∀ points, write = .upsert points → ∀ stored ∈ points,
        stored.id.isEmpty = false ∧ stored.vector.length = collection.config.dimension := by
  cases command with
  | delete clientId requestId ids =>
    cases applies
    exact ⟨.delete ids, rfl, fun _ member => member, nofun⟩
  | upsert clientId requestId points =>
    obtain ⟨prepared, prepares, returns⟩ := Result.of_bind_ok applies
    cases returns
    have each := (Collection.prepareUpsert_eq_ok prepares).2
    refine ⟨.upsert prepared, rfl, ?_, ?_⟩
    · intro id member
      obtain ⟨stored, isStored, rfl⟩ := List.mem_map.mp member
      obtain ⟨point, isPoint, fields⟩ := each stored isStored
      exact fields.sameId ▸ List.mem_map_of_mem isPoint
    · rintro _ ⟨rfl⟩ stored isStored
      obtain ⟨point, -, fields⟩ := each stored isStored
      exact ⟨fields.nonempty, fields.dimension⟩

variable {dirtyIds : IdSet}

theorem replayRecord_eq_ok {arith : FloatArithmetic} {next : ShardState}
    {changed : IdSet} {record : AppliedRecord}
    (replays : replayRecord arith state dirtyIds record = .ok (next, changed)) :
    (next.collection = state.collection ∧ changed = dirtyIds) ∨
      ∃ command sequence, applyCommand arith state.collection command sequence =
          .ok next.collection ∧ changed = dirtyIds.insertMany (commandIds command) := by
  unfold replayRecord at replays
  split at replays
  · cases replays
    exact .inl ⟨rfl, rfl⟩
  · cases replays
    exact .inl ⟨rfl, rfl⟩
  · split at replays
    · cases replays
      exact .inl ⟨rfl, rfl⟩
    · simp only at replays
      split at replays
      · obtain ⟨collection, applies, returns⟩ := Result.of_bind_ok replays
        cases returns
        exact .inr ⟨_, _, applies, rfl⟩
      · cases replays
        exact .inl ⟨rfl, rfl⟩

theorem Fresh.changed (fresh : Fresh machine)
    (sameConfig : state.collection.config = machine.state.collection.config)
    (stored : ∀ id point, state.collection.points.get id = some point →
      point.id.isEmpty = false ∧ point.vector.length = machine.config.dimension)
    (kept : ∀ id, id ∉ dirtyIds → id ∉ machine.dirtyIds ∧
      state.collection.points.get id = machine.state.collection.points.get id) :
    Fresh { machine with state, dirtyIds } where
  positive := fresh.positive
  sameConfig := sameConfig.trans fresh.sameConfig
  stored
  indexed := by
    refine fresh.indexed.imp_right ?_
    rintro ⟨points, graph, indexed⟩
    refine ⟨points, graph, indexed.index, indexed.metadataIndex, ?_, indexed.distinct, ?_⟩
    · rw [sameConfig]
      exact indexed.builds
    · intro point clean
      rw [(kept point.id clean).2]
      exact indexed.current point (kept point.id clean).1

theorem Fresh.replayRecord (fresh : Fresh machine) {record : AppliedRecord}
    (replays : Raft.replayRecord arith.toFloatArithmetic machine.state machine.dirtyIds record =
      .ok (state, dirtyIds)) :
    Fresh { machine with state, dirtyIds } := by
  rcases replayRecord_eq_ok replays with ⟨same, rfl⟩ | ⟨command, sequence, applies, rfl⟩
  · refine fresh.changed (congrArg Collection.config same) ?_ ?_
    · rw [same]
      exact fresh.stored
    · exact fun id clean => ⟨clean, by rw [same]⟩
  · obtain ⟨write, isNext, named, prepared⟩ := applyCommand_eq_ok applies
    refine fresh.changed ?_ ?_ ?_
    · rw [isNext, Collection.applyWrite_config]
    · intro id point found
      rw [isNext] at found
      rcases Collection.get_of_applyWrite found with ⟨points, isUpsert, member⟩ | ⟨-, before⟩
      · rw [← fresh.sameConfig]
        exact prepared points isUpsert point member
      · exact fresh.stored id point before
    · intro id clean
      rw [Std.ExtTreeSet.mem_insertMany_list, not_or] at clean
      refine ⟨clean.1, ?_⟩
      rw [isNext, Collection.get_applyWrite_of_not_mem fun touched => clean.2 (by simpa using named id touched)]

theorem Fresh.openSteps (fresh : Fresh machine) {records : List AppliedRecord}
    (replays : records.foldlM (openStep arith.toFloatArithmetic)
      (machine.state, machine.dirtyIds) = .ok (state, dirtyIds)) :
    Fresh { machine with state, dirtyIds } := by
  induction records generalizing machine with
  | nil =>
    cases replays
    exact fresh
  | cons record rest ih =>
    rw [List.foldlM_cons] at replays
    obtain ⟨⟨middle, changed⟩, steps, continues⟩ := Result.of_bind_ok replays
    unfold openStep at steps
    split at steps
    · cases steps
      exact ih fresh continues
    · have replayed : Fresh { machine with state := middle, dirtyIds := changed } :=
        fresh.replayRecord steps
      have rest := ih replayed continues
      exact rest

theorem fresh_of_openMachine {config : CollectionConfig} {disk next : Directory}
    (opens : (openMachine arith.toFloatArithmetic json
      (indexes.withMetadata arith.toIntegerConversion) config).run disk = (next, .ok machine)) :
    Fresh machine ∧ machine.config = config := by
  obtain ⟨_, empty, creating, opens⟩ := Program.of_run_bind_ok opens
  obtain ⟨-, creates⟩ := Program.of_run_ofExcept creating
  obtain ⟨_, current, -, opens⟩ := Program.of_run_bind_ok opens
  obtain ⟨_, ⟨state, built⟩, loading, opens⟩ := Program.of_run_bind_ok opens
  obtain ⟨-, loads⟩ := Program.of_run_ofExcept loading
  obtain ⟨_, _, -, opens⟩ := Program.of_run_bind_ok opens
  obtain ⟨_, records, -, opens⟩ := Program.of_run_bind_ok opens
  obtain ⟨_, ⟨final, dirtyIds⟩, replaying, returns⟩ := Program.of_run_bind_ok opens
  obtain ⟨-, replays⟩ := Program.of_run_ofExcept replaying
  cases returns
  have start : Fresh (⟨config, state, built.map Prod.fst, built.map Prod.snd, ∅, current⟩ :
      SearchMachine indexes arith) := by
    unfold loadState at loads
    split at loads
    · cases loads
      unfold Collection.new at creates
      split at creates
      · cases creates
      next positive =>
        cases creates
        exact ⟨positive, rfl, by simp, .inl ⟨rfl, rfl⟩⟩
    · obtain ⟨snapshot, -, loads⟩ := Result.of_bind_ok loads
      split at loads
      · cases loads
      next sameConfig =>
        obtain ⟨⟨restored, indexes⟩, restores, returns⟩ := Result.of_bind_ok loads
        cases returns
        rw [← not_not.mp sameConfig]
        exact fresh_of_restoreSnapshot restores _
  exact ⟨start.openSteps replays, rfl⟩

section Keeps

variable {after : SearchMachine indexes arith}

theorem Fresh.taskStep (fresh : Fresh machine)
    (step : TaskStep arith.toFloatArithmetic machine after) : Fresh after := by
  cases step with
  | apply entry =>
    exact fresh.replayRecord (replayRecord_recordOf machine.state machine.dirtyIds entry)
  | build stored builds => exact fresh.rebuilt builds _

theorem Fresh.taskSteps (fresh : Fresh machine)
    (steps : Relation.ReflTransGen (TaskStep arith.toFloatArithmetic) machine after) :
    Fresh after := by
  induction steps with
  | refl => exact fresh
  | tail _ step ih => exact ih.taskStep step

/-- Indexes that were being built are kept only over the points of now. -/
theorem Fresh.refreshMeanwhile {disk : Directory} (fresh : Fresh machine)
    (meanwhile : List MachineTask) :
    Fresh (Raft.refreshMeanwhile arith.toFloatArithmetic json (disk, machine) meanwhile).2 := by
  have steps := steps_of_performAll arith.toFloatArithmetic json (disk, machine) meanwhile
  have performed := fresh.taskSteps steps
  obtain ⟨sameConfig, collection⟩ := collection_of_steps steps
  unfold Raft.refreshMeanwhile
  simp only
  generalize meanwhile.foldl (MachineTask.perform arith.toFloatArithmetic json) (disk, machine) =
    after at *
  cases begins : machine.beginRefresh with
  | none => exact performed
  | some pair =>
    obtain ⟨sequence, points⟩ := pair
    simp only
    cases finishes : after.2.finishRefresh sequence points with
    | error error => exact performed
    | ok refreshed =>
      obtain ⟨built, builds, published⟩ := Result.of_bind_ok finishes
      split at published
      next unchanged =>
        cases published
        unfold ShardMachine.beginRefresh at begins
        split at begins
        · cases begins
          have same : after.2.state.collection = machine.state.collection := by
            refine collection.resolve_right fun grows => ?_
            rw [show after.2.state.collection.sequence = machine.state.collection.sequence from
              unchanged] at grows
            exact absurd grows (lt_irrefl _)
          rw [← same] at builds
          exact performed.rebuilt builds _
        · cases begins
      next =>
        cases published
        exact performed

theorem fresh_of_installSnapshot {disk next : Directory} {process : Nat}
    {snapshotMeta : SnapshotMeta} {data : Bytes}
    (installs : (installSnapshot json process machine snapshotMeta data).run disk =
      (next, .ok after)) : Fresh after ∧ after.config = machine.config := by
  obtain ⟨_, decoded, -, installs⟩ := Program.of_run_bind_ok installs
  split at installs
  · cases installs
  next sameConfig =>
    obtain ⟨_, _, -, installs⟩ := Program.of_run_bind_ok installs
    obtain ⟨_, ⟨state, built⟩, restoring, installs⟩ := Program.of_run_bind_ok installs
    obtain ⟨-, restores⟩ := Program.of_run_ofExcept restoring
    obtain ⟨_, _, -, installs⟩ := Program.of_run_bind_ok installs
    obtain ⟨_, _, -, returns⟩ := Program.of_run_bind_ok installs
    cases returns
    rw [← not_not.mp sameConfig]
    exact ⟨fresh_of_restoreSnapshot restores _, rfl⟩

end Keeps

/-! ## Runs -/

section Runs

variable {config : CollectionConfig}
  {state : MachineState (indexes.withMetadata arith.toIntegerConversion)}

def MachineState.Fresh
    (state : MachineState (indexes.withMetadata arith.toIntegerConversion)) : Prop :=
  ∀ machine, state.machine = some machine → Raft.Fresh machine

theorem MachineState.fresh_none (disk : Directory) :
    (⟨disk, none⟩ : MachineState (indexes.withMetadata arith.toIntegerConversion)).Fresh := by
  intro machine isOpen
  cases isOpen

theorem MachineState.Fresh.step (fresh : state.Fresh) (command : MachineCommand) :
    (state.step arith.toFloatArithmetic json config command).Fresh := by
  unfold MachineState.step
  split
  · split
    next opens =>
      rintro _ ⟨⟩
      exact (fresh_of_openMachine opens).1
    next => exact fresh_none _
  next task machine isOpen =>
    rintro _ ⟨⟩
    exact (fresh machine isOpen).taskSteps
      (steps_of_perform arith.toFloatArithmetic json (state.disk, machine) task)
  next isOpen =>
    split
    next installs =>
      rintro _ ⟨⟩
      exact (fresh_of_installSnapshot installs).1
    next =>
      rintro _ ⟨⟩
      exact fresh _ isOpen
  next isOpen =>
    rintro _ ⟨⟩
    exact (fresh _ isOpen).refreshMeanwhile _
  next => exact fresh

theorem MachineState.Fresh.run (fresh : state.Fresh) (commands : List MachineCommand) :
    (state.run arith.toFloatArithmetic json config commands).Fresh := by
  induction commands generalizing state with
  | nil => exact fresh
  | cons command rest ih => exact ih (fresh.step command)

variable (indexes arith) in
theorem fresh_of_run {disk : Directory} {commands : List MachineCommand}
    {machine : SearchMachine indexes arith}
    (reached : ((⟨disk, none⟩ : MachineState (indexes.withMetadata
      arith.toIntegerConversion)).run arith.toFloatArithmetic json config commands).machine =
        some machine) : Fresh machine := by
  exact (MachineState.fresh_none disk).run commands machine reached

end Runs

/-! ## Searching -/

section Searching

variable {graphs : ShardGraphs indexes.Graph} {dimension : indexes.Graph → Nat}
  {metric : indexes.Graph → Metric} {query : List F32} {k efSearch : Nat}

/-- No refresh is due, or the graph can be built over the live points, which takes
finite vectors. -/
def RefreshSucceeds (machine : SearchMachine indexes arith) : Prop :=
  machine.beginRefresh = none ∨
    (∀ point ∈ machine.state.collection.snapshotStoredPoints,
      ∀ component ∈ point.vector, component.isFinite = true) ∧
    ∃ graph, indexes.buildPreparedPoints machine.config.dimension machine.config.metric
      (machine.state.collection.snapshotStoredPoints.map fun point => (point.id, point.vector)) =
        .ok graph

theorem Fresh.buildIndexes_iff (fresh : Fresh machine) :
    (∃ built, buildIndexes (indexes.withMetadata arith.toIntegerConversion) machine.config
        machine.state.collection.snapshotStoredPoints = .ok built) ↔
      (∀ point ∈ machine.state.collection.snapshotStoredPoints,
        ∀ component ∈ point.vector, component.isFinite = true) ∧
      ∃ graph, indexes.buildPreparedPoints machine.config.dimension machine.config.metric
        (machine.state.collection.snapshotStoredPoints.map fun point => (point.id, point.vector)) =
          .ok graph := by
  constructor
  · rintro ⟨built, builds⟩
    exact ⟨buildIndexes_finite builds, built.1, (buildIndexes_eq_ok.mp builds).2.2.2.1⟩
  · rintro ⟨finite, graph, builds⟩
    refine ⟨(graph, _), buildIndexes_eq_ok.mpr ⟨fresh.positive, fun point member => ?_,
      machine.state.collection.points.values_ids_nodup, builds, rfl⟩⟩
    have stored := fresh.stored point.id point (PointMap.mem_values.mp member)
    exact ⟨stored.1, stored.2, finite point member⟩

/-- A refresh leaves the points as they are, or fails. -/
theorem Fresh.refreshIndexIfNeeded_cases (fresh : Fresh machine) :
    (RefreshSucceeds machine ∧ ∃ refreshed, machine.refreshIndexIfNeeded = .ok refreshed ∧
      refreshed.state = machine.state ∧ Fresh refreshed) ∨
    (¬ RefreshSucceeds machine ∧ ∃ error, machine.refreshIndexIfNeeded = .error error) := by
  unfold ShardMachine.refreshIndexIfNeeded RefreshSucceeds
  rw [← fresh.buildIndexes_iff]
  cases begins : machine.beginRefresh with
  | none => exact .inl ⟨.inl rfl, machine, rfl, rfl, fresh⟩
  | some pair =>
    obtain ⟨sequence, points⟩ := pair
    unfold ShardMachine.beginRefresh at begins
    split at begins
    · cases begins
      simp only [reduceCtorEq, false_or, ShardMachine.finishRefresh]
      cases builds : buildIndexes (indexes.withMetadata arith.toIntegerConversion)
          machine.config machine.state.collection.snapshotStoredPoints with
      | error error => exact .inr ⟨nofun, error, rfl⟩
      | ok built =>
        have rebuilt := fresh.rebuilt builds machine.currentSnapshot
        exact .inl ⟨⟨built, rfl⟩, _, rfl, rfl, rebuilt⟩
    · cases begins

variable {perfect : PerfectSearch arith graphs.toGraphSearch dimension metric}

theorem Fresh.searchIndexed_eq (fresh : Fresh machine)
    (keeps : BuildsNodes indexes graphs dimension metric perfect.nodes)
    (valid : ValidSearch arith machine.state.collection query k efSearch)
    (filter : Option Filter) :
    machine.searchIndexed arith graphs query k filter efSearch =
      machine.state.collection.search arith query k filter := by
  rcases fresh.indexed with ⟨noIndex, -⟩ | ⟨points, graph, indexed⟩
  · unfold ShardMachine.searchIndexed
    rw [noIndex]
  · exact indexed.searchIndexed_eq keeps valid filter

variable (perfect) in
/-- In every state that a state machine reaches, from any directory, over graphs that
return their best nodes: once the indexes are refreshed, a search returns exactly what
the exact search of the applied points returns, and a search that refreshes them first
does so exactly when the refresh can build them. -/
theorem replicated_search_exact_iff (keeps : BuildsNodes indexes graphs dimension metric perfect.nodes)
    (json : SerdeJson) (config : CollectionConfig) (disk : Directory)
    {commands : List MachineCommand}
    (reached : ((⟨disk, none⟩ : MachineState (indexes.withMetadata
      arith.toIntegerConversion)).run arith.toFloatArithmetic json config commands).machine =
        some machine)
    (valid : ValidSearch arith machine.state.collection query k efSearch)
    (filter : Option Filter) :
    (∃ hits, machine.searchIndexed arith graphs query k filter efSearch = .ok hits ∧
      machine.state.collection.search arith query k filter = .ok hits) ∧
    (machine.searchWithEf arith graphs query k filter efSearch =
        machine.state.collection.search arith query k filter ↔ RefreshSucceeds machine) := by
  have fresh := fresh_of_run indexes arith reached
  obtain ⟨prepared, -, preparesQuery⟩ := valid.prepareQuery
  obtain ⟨hits, searched, -⟩ := Collection.search_eq preparesQuery filter
  refine ⟨⟨hits, (fresh.searchIndexed_eq keeps valid filter).trans searched, searched⟩, ?_⟩
  unfold ShardMachine.searchWithEf
  rw [if_neg (not_lt.mpr valid.enough)]
  rcases fresh.refreshIndexIfNeeded_cases with
    ⟨succeeds, refreshed, refreshes, sameState, stillFresh⟩ | ⟨fails, error, refuses⟩
  · rw [refreshes]
    have same := stillFresh.searchIndexed_eq keeps (sameState.symm ▸ valid) filter
    rw [sameState] at same
    exact ⟨fun _ => succeeds, fun _ => same⟩
  · rw [refuses, searched]
    exact ⟨nofun, fun succeeds => absurd succeeds fails⟩

end Searching

end Fresh

/-! ## Scanned graphs -/

/-- Indexes without links, of as many points as there are machine words. -/
def ShardIndexes.scan : ShardIndexes where
  Graph := { graph : ScanGraph // graph.nodes.length ≤ usizeMax }
  buildPreparedPoints dimension metric points :=
    if fits : points.length ≤ usizeMax then .ok ⟨⟨dimension, metric, points⟩, fits⟩
    else .error (.resourceExhausted "too many points")
  MetadataIndex := Unit
  buildMetadata _ := ()

theorem ShardIndexes.scan_eq_ok {points : List (String × List F32)}
    (fits : points.length ≤ usizeMax) (dimension : Nat) (metric : Metric) :
    scan.buildPreparedPoints dimension metric points = .ok ⟨⟨dimension, metric, points⟩, fits⟩ :=
  dif_pos fits

def ShardGraphs.scan (arith : SearchArithmetic) : ShardGraphs ShardIndexes.scan.Graph where
  vectorStorage _ := .scalarInt8
  search graph := (scanSearch arith).search graph.1
  len graph := graph.1.nodes.length
  len_le graph := graph.2

def scanShardPerfect (arith : SearchArithmetic) :
    PerfectSearch arith (ShardGraphs.scan arith).toGraphSearch (fun graph => graph.1.dimension)
      fun graph => graph.1.metric where
  nodes graph := graph.1.nodes
  best graph := (scanPerfect arith).best graph.1

theorem buildsNodes_scan (arith : SearchArithmetic) :
    BuildsNodes ShardIndexes.scan (ShardGraphs.scan arith) (fun graph => graph.1.dimension)
      (fun graph => graph.1.metric) (scanShardPerfect arith).nodes where
  built := by
    intro dimension kind points graph builds
    simp only [ShardIndexes.scan] at builds
    split at builds
    · cases builds
      exact ⟨.refl _, rfl, rfl, rfl⟩
    · cases builds

theorem len_of_buildIndexes {arith : SearchArithmetic} {config : CollectionConfig}
    {points : List StoredPoint} {built : ShardIndexes.scan.Graph × Engine.MetadataIndex}
    (builds : buildIndexes (ShardIndexes.scan.withMetadata arith.toIntegerConversion) config points =
      .ok built) : (ShardGraphs.scan arith).len built.1 = points.length ∧
        Engine.MetadataIndex.build arith.toIntegerConversion points = built.2 := by
  obtain ⟨-, -, -, graph, metadata⟩ := buildIndexes_eq_ok.mp builds
  obtain ⟨-, -, -, len⟩ := (buildsNodes_scan arith).built _ _ _ _ graph
  exact ⟨len.trans (List.length_map _), metadata⟩

theorem ShardMachine.beginRefresh_of_few {indexes : ShardIndexes} {machine : ShardMachine indexes}
    (few : machine.dirtyIds.size < minReindexedPoints) : machine.beginRefresh = none := by
  simp [beginRefresh, shouldRebuildIndex, few]

/-! ## Runs from a new directory -/

section Created

variable {arith : FloatArithmetic} {indexes : ShardIndexes} {config : CollectionConfig}
  {entries : List Entry} {first : ShardMachine indexes} (positive : config.dimension ≠ 0)
  (isFirst : entries.foldl (ShardMachine.afterEntry arith) (.created indexes config) = first)
  (small : ∀ record ∈ recordsOf arith (.initial config) entries,
    4 * (JsonText.appliedRecord.serialize record).weight ≤ stateJournal.format.maxPayload)

include positive isFirst small in
theorem run_applied : ∃ disk, (⟨fun _ => none, none⟩ : MachineState indexes).run arith .spelled
      config [.restart, .perform (.apply entries)] = ⟨disk, some first⟩ ∧
    disk stateJournal.file = some (stateJournal.bytes SerdeJson.spelled.appliedRecord
      (recordsOf arith (.initial config) entries)) := by
  have opens := @run_openMachine_created .spelled arith (fun _ => none) indexes config positive rfl
    rfl
  have found : Disk.write (fun _ => none) stateJournal.file [] stateJournal.file =
      some (stateJournal.bytes SerdeJson.spelled.appliedRecord []) := Disk.write_same _ _ _
  obtain ⟨applied, responses, applies⟩ := @run_applyEntries .spelled arith indexes _ entries
    (.created indexes config) [] found fun record member =>
      SerdeJson.appliedRecord_length_le (small record member)
  refine ⟨applied, ?_, (journal_of_run_applyEntries found applies).1⟩
  simp only [MachineState.run, List.foldl_cons, List.foldl_nil, MachineState.step, opens,
    MachineTask.perform, applies, isFirst]

/-- A snapshot of few bytes puts the indexes in place and leaves the journal. -/
theorem run_buildSnapshot_light {machine : ShardMachine indexes} {disk : Directory}
    (process nonce : Nat) {built : indexes.Graph × indexes.MetadataIndex}
    (builds : buildIndexes indexes machine.config
      machine.state.collection.snapshotStoredPoints = .ok built)
    (light : (JsonText.stateSnapshot.serialize (machine.state.snapshot machine.config)).weight ≤
      2 ^ 60) :
    ∃ written stored, (buildSnapshot .spelled process nonce machine).run disk = (written, .ok
        (⟨machine.config, machine.state, some built.1, some built.2, ∅, some stored⟩, stored)) ∧
      written stateJournal.file = disk stateJournal.file := by
  let stored := StoredSnapshot.sealing .spelled (machine.state.snapshotMeta nonce)
    (sealed snapshotMagic snapshotVersion
      (SerdeJson.spelled.stateSnapshot.toVec (machine.state.snapshot machine.config)))
  obtain ⟨written, writes, -, others⟩ := run_replaceFile disk (snapshotTemporaryName process)
    snapshotName (SerdeJson.spelled.storedSnapshot.toVec stored)
  refine ⟨written, stored, ?_, others _ (stateJournal_ne_temporary process) stateJournal_ne_snapshot⟩
  have bytes := SerdeJson.stateSnapshot_length_le (machine.state.snapshot machine.config)
  unfold buildSnapshot
  rw [builds, Program.run_bind_ok (Program.run_ofExcept _), encodeStateSnapshot_of_lt (by omega),
    Program.run_bind_ok (Program.run_ofExcept _)]
  exact Program.run_bind_ok writes

include positive isFirst small

/-- Entries are applied, the indexes are built over them, and more entries are applied. -/
theorem run_indexed {later : List Entry} (process nonce : Nat)
    {built : indexes.Graph × indexes.MetadataIndex}
    (builds : buildIndexes indexes first.config first.state.collection.snapshotStoredPoints =
      .ok built)
    (light : (JsonText.stateSnapshot.serialize (first.state.snapshot first.config)).weight ≤ 2 ^ 60)
    (smallLater : ∀ record ∈ recordsOf arith first.state later,
      4 * (JsonText.appliedRecord.serialize record).weight ≤ stateJournal.format.maxPayload) :
    ∃ stored, ((⟨fun _ => none, none⟩ : MachineState indexes).run arith .spelled config [.restart,
        .perform (.apply entries), .perform (.buildSnapshot process nonce),
        .perform (.apply later)]).machine =
      some (later.foldl (ShardMachine.afterEntry arith)
        ⟨first.config, first.state, some built.1, some built.2, ∅, some stored⟩) := by
  obtain ⟨applied, applies, journal⟩ := run_applied positive isFirst small
  obtain ⟨written, stored, snapshots, kept⟩ :=
    @run_buildSnapshot_light indexes first applied process nonce built builds light
  obtain ⟨final, responses, appliesLater⟩ := @run_applyEntries .spelled arith indexes written later
    ⟨first.config, first.state, some built.1, some built.2, ∅, some stored⟩ _ (kept.trans journal)
    fun record member => SerdeJson.appliedRecord_length_le (smallLater record member)
  have split : ∀ start : MachineState indexes, start.run arith .spelled config [.restart,
      .perform (.apply entries), .perform (.buildSnapshot process nonce), .perform (.apply later)] =
    (start.run arith .spelled config [.restart, .perform (.apply entries)]).run arith .spelled config
      [.perform (.buildSnapshot process nonce), .perform (.apply later)] := fun _ => rfl
  refine ⟨stored, ?_⟩
  rw [split, applies]
  simp only [MachineState.run, List.foldl_cons, List.foldl_nil, MachineState.step,
    MachineTask.perform, snapshots, appliesLater]

end Created

/-- The machine after a run from an empty directory, with graphs that are scanned. -/
def scanRun (arith : SearchArithmetic) (config : CollectionConfig)
    (commands : List MachineCommand) : Option (SearchMachine .scan arith) :=
  ((⟨fun _ => none, none⟩ : MachineState (ShardIndexes.scan.withMetadata
    arith.toIntegerConversion)).run arith.toFloatArithmetic .spelled config commands).machine

/-- One point for each id. -/
def upsertEntry (index : UInt64) (ids : List String) : Entry :=
  ⟨⟨⟨1, 1⟩, index⟩, .normal (.upsert "c" index (ids.map fun id => ⟨id, [⟨0x3f800000⟩], ∅⟩))⟩

/-- Two points are indexed. One of them is written again, and a third one with it. -/
theorem rewritten_point_is_found :
    ∃ machine, scanRun .unit lineConfig [.restart, .perform (.apply [upsertEntry 1 ["p", "q"]]),
        .perform (.buildSnapshot 7 1), .perform (.apply [upsertEntry 2 ["q", "r"]])] =
          some machine ∧
      (∃ graph, machine.index = some graph ∧ (ShardGraphs.scan .unit).len graph = 2) ∧
      machine.dirtyIds.toList = ["q", "r"] ∧
      ∃ hits, machine.state.collection.search .unit [⟨0x3f800000⟩] 2 none = .ok hits ∧
        machine.searchWithEf .unit (.scan .unit) [⟨0x3f800000⟩] 2 none 2 = .ok hits := by
  let arith := SearchArithmetic.unit.toFloatArithmetic
  let indexes := ShardIndexes.scan.withMetadata SearchArithmetic.unit.toIntegerConversion
  let first : ShardMachine indexes :=
    (ShardMachine.created indexes lineConfig).afterEntry arith (upsertEntry 1 ["p", "q"])
  obtain ⟨built, builds⟩ := exists_ok_of_isOk (show (buildIndexes indexes first.config
    first.state.collection.snapshotStoredPoints).isOk = true by decide +kernel)
  obtain ⟨stored, reached⟩ := @run_indexed arith indexes lineConfig [upsertEntry 1 ["p", "q"]] first
    (by decide) rfl (by decide +kernel) [upsertEntry 2 ["q", "r"]] 7 1 built builds
    (by decide +kernel) (by decide +kernel)
  generalize isMachine : List.foldl _ _ _ = machine at reached
  have valid : ValidSearch .unit machine.state.collection [⟨0x3f800000⟩] 2 2 := by
    rw [← isMachine]
    exact ⟨by decide, le_rfl, rfl, _, rfl⟩
  have indexed : machine.index = some built.1 ∧ machine.beginRefresh = none := by
    rw [← isMachine]
    exact ⟨rfl, rfl⟩
  have dirty : machine.dirtyIds.toList = ["q", "r"] := by
    rw [← isMachine]
    show ((∅ : IdSet).insertMany
      (changedIds arith first.state (upsertEntry 2 ["q", "r"]))).toList = _
    decide +kernel
  have two : first.state.collection.snapshotStoredPoints.length = 2 := by decide +kernel
  obtain ⟨⟨hits, -, exactly⟩, same⟩ := replicated_search_exact_iff (scanShardPerfect .unit)
    (buildsNodes_scan .unit) .spelled lineConfig _ reached valid none
  exact ⟨machine, reached, ⟨built.1, indexed.1, (len_of_buildIndexes builds).1.trans two⟩, dirty,
    hits, exactly, (same.mpr (.inl indexed.2)).trans exactly⟩

/-- The smallest positive number, whose inverse overflows: normalising it gives an
infinite vector. The 256 deleted ids make the next search refresh the indexes. -/
def overflowingLog : List Entry := [
  ⟨⟨⟨1, 1⟩, 1⟩, .normal (.upsert "c" 1 [⟨"p", [⟨1⟩], ∅⟩])⟩,
  ⟨⟨⟨1, 1⟩, 2⟩, .normal (.delete "c" 2
    ((List.range 256).map fun n => String.ofList [Char.ofNat (n + 256)]))⟩]

theorem scanRun_overflowingLog :
    let config : CollectionConfig := ⟨1, .cosine, by decide⟩
    ∃ machine,
      scanRun .smallest config [.restart, .perform (.apply overflowingLog)] = some machine ∧
      overflowingLog.foldl (ShardMachine.afterEntry SearchArithmetic.smallest.toFloatArithmetic)
        (.created _ config) = machine ∧
      ValidSearch .smallest machine.state.collection [⟨1⟩] 1 1 := by
  intro config
  obtain ⟨disk, runs, -⟩ := @run_applied SearchArithmetic.smallest.toFloatArithmetic
    (ShardIndexes.scan.withMetadata SearchArithmetic.smallest.toIntegerConversion) config
    overflowingLog _ (by decide) rfl (by decide +kernel)
  have reached := congrArg MachineState.machine runs
  have fresh := fresh_of_run .scan .smallest reached
  generalize isMachine : overflowingLog.foldl _ _ = machine at reached fresh
  have sameConfig : machine.state.collection.config = config := by
    rw [fresh.sameConfig, ← isMachine]
    rfl
  exact ⟨machine, reached, rfl,
    by decide, le_rfl, by rw [sameConfig]; rfl, _, by rw [sameConfig]; rfl⟩

/-- A point whose normalised vector is infinite makes every search fail from the next
refresh on, while the exact search returns it. -/
theorem infinite_vector_fails_search :
    ∃ machine, scanRun .smallest ⟨1, .cosine, by decide⟩
        [.restart, .perform (.apply overflowingLog)] = some machine ∧
      ValidSearch .smallest machine.state.collection [⟨1⟩] 1 1 ∧
      (∃ error, machine.searchWithEf .smallest (.scan .smallest) [⟨1⟩] 1 none 1 =
        .error error) ∧
      ∃ hits, machine.state.collection.search .smallest [⟨1⟩] 1 none = .ok hits := by
  obtain ⟨machine, reached, isMachine, valid⟩ := scanRun_overflowingLog
  have fails : (machine.searchWithEf .smallest (.scan .smallest) [⟨1⟩] 1 none 1).isOk =
      false := by
    rw [← isMachine]
    decide +kernel
  refine ⟨machine, reached, valid, exists_error_of_not_isOk fails, ?_⟩
  obtain ⟨prepared, -, prepares⟩ := valid.prepareQuery
  obtain ⟨hits, searched, -⟩ := Collection.search_eq prepares none
  exact ⟨hits, searched⟩

end FocalVector.Raft
