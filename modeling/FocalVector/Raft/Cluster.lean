import FocalVector.Raft.JsonForms
import FocalVector.Raft.Replica

/-!
Contract: the replicas of a shard under every interleaving.

All replicas are delivered one log. Each applies it in pieces, builds
snapshots, installs snapshots that others built, refreshes its index, is
restarted, and may die at any point of any of these. What a replica holds is
always the plain fold of the log up to the entry it applied last.

Owns: `Cluster`, its steps and runs, their invariant, and determinism.

Does not own: how the log is agreed on. A snapshot older than the applied state
is never handed to a replica.
-/

namespace FocalVector.Raft

open FocalVector.Foundation FocalVector.Engine FocalVector.Persistence

/-! ## Steps -/

/-- A replica: its directory, its state machine while it runs, and the points of
a refresh on its way. -/
structure Replica (indexes : ShardIndexes) where
  disk : Directory
  machine : Option (ShardMachine indexes)
  refresh : Option (UInt64 × List StoredPoint)

structure Cluster (indexes : ShardIndexes) where
  replicas : Nat → Replica indexes
  snapshots : List StoredSnapshot

/-- What a running replica is asked to do with its files. -/
inductive ReplicaTask where
  | apply (count : Nat)
  | buildSnapshot (process nonce : Nat)
  | installSnapshot (process number : Nat)

inductive ClusterCommand where
  | perform (replica : Nat) (task : ReplicaTask)
  /-- Die at a given point of a task. -/
  | crash (replica : Nat) (task : ReplicaTask) (point : Nat)
  | restart (replica : Nat)
  /-- Die at a given point of opening. -/
  | crashRestart (replica point : Nat)
  | beginRefresh (replica : Nat)
  | finishRefresh (replica : Nat)

def StoredSnapshot.notOlder (stored : StoredSnapshot) (applied : Option LogId) : Bool :=
  applied.all fun applied => stored.snapshotMeta.lastLogId.any fun last => applied.index ≤ last.index

section Steps

variable (arith : FloatArithmetic) (json : SerdeJson) {indexes : ShardIndexes}
  (config : CollectionConfig) (log : List Entry)

def ReplicaTask.program (snapshots : List StoredSnapshot) (machine : ShardMachine indexes) :
    ReplicaTask → Fs (ShardMachine indexes × Option StoredSnapshot)
  | .apply count => do
      let (after, _) ← applyEntries arith json machine
        ((pending machine.state.lastApplied log).take count)
      return (after, none)
  | .buildSnapshot process nonce => do
      let (after, stored) ← Raft.buildSnapshot json process nonce machine
      return (after, some stored)
  | .installSnapshot process number =>
    match snapshots[number]? with
    | some stored =>
      if stored.notOlder machine.state.lastApplied then do
        let after ← Raft.installSnapshot json process machine stored.snapshotMeta stored.data
        return (after, none)
      else
        return (machine, none)
    | none => return (machine, none)

namespace Cluster

/-- Replicas with empty directories, none of them started. -/
def initial : Cluster indexes := ⟨fun _ => ⟨fun _ => none, none, none⟩, []⟩

def set (cluster : Cluster indexes) (number : Nat) (replica : Replica indexes) :
    Cluster indexes :=
  { cluster with replicas := fun other => if other = number then replica
                                          else cluster.replicas other }

def perform (cluster : Cluster indexes) (number : Nat) (machine : ShardMachine indexes)
    (task : ReplicaTask) : Cluster indexes :=
  let replica := cluster.replicas number
  match (task.program arith json log cluster.snapshots machine).run replica.disk with
  | (next, .ok (after, built)) =>
    { cluster.set number { replica with disk := next, machine := some after } with
      snapshots := cluster.snapshots ++ built.toList }
  | (next, .error _) => cluster.set number { replica with disk := next }

def step (cluster : Cluster indexes) : ClusterCommand → Cluster indexes
  | .perform number task =>
    match (cluster.replicas number).machine with
    | some machine => cluster.perform arith json log number machine task
    | none => cluster
  | .crash number task point =>
    let replica := cluster.replicas number
    match replica.machine with
    | some machine =>
      let states :=
        (task.program arith json log cluster.snapshots machine).crashStates replica.disk
      cluster.set number ⟨states.getD point replica.disk, none, none⟩
    | none => cluster
  | .restart number =>
    match (openMachine arith json indexes config).run (cluster.replicas number).disk with
    | (next, .ok machine) => cluster.set number ⟨next, some machine, none⟩
    | (next, .error _) => cluster.set number ⟨next, none, none⟩
  | .crashRestart number point =>
    let disk := (cluster.replicas number).disk
    let states := (openMachine arith json indexes config).crashStates disk
    cluster.set number ⟨states.getD point disk, none, none⟩
  | .beginRefresh number =>
    let replica := cluster.replicas number
    match replica.machine, replica.refresh with
    | some machine, none => cluster.set number { replica with refresh := machine.beginRefresh }
    | _, _ => cluster
  | .finishRefresh number =>
    let replica := cluster.replicas number
    match replica.machine, replica.refresh with
    | some machine, some (sequence, points) =>
      match machine.finishRefresh sequence points with
      | .ok after => cluster.set number { replica with machine := some after, refresh := none }
      | .error _ => cluster.set number { replica with refresh := none }
    | _, _ => cluster

def run (commands : List ClusterCommand) : Cluster indexes :=
  commands.foldl (step arith json config log) initial

end Cluster

end Steps

/-! ## The invariant -/

section Invariant

variable (arith : FloatArithmetic) (json : SerdeJson) (indexes : ShardIndexes)
  (config : CollectionConfig) (log : List Entry)

def Refreshing (refresh : Option (UInt64 × List StoredPoint)) (position : Nat) : Prop :=
  ∀ sequence points, refresh = some (sequence, points) → ∃ begun ≤ position,
    sequence = (stateAt arith config log begun).collection.sequence ∧
    points = (stateAt arith config log begun).collection.snapshotStoredPoints

inductive ReplicaAt : Replica indexes → Nat → Prop where
  | running {disk : Directory} {machine : ShardMachine indexes}
      {refresh : Option (UInt64 × List StoredPoint)} {position : Nat}
      (operates : Operates arith json indexes config log disk machine position)
      (refreshing : Refreshing arith config log refresh position) :
      ReplicaAt ⟨disk, some machine, refresh⟩ position
  | stopped {disk : Directory} {position : Nat}
      (survives : Survives arith json indexes config log disk position) :
      ReplicaAt ⟨disk, none, none⟩ position

/-- Every replica is at some position and every snapshot is of one. -/
structure Cluster.Consistent (cluster : Cluster indexes) : Prop where
  replicas : ∀ number, ∃ position,
    ReplicaAt arith json indexes config log (cluster.replicas number) position
  snapshots : ∀ stored ∈ cluster.snapshots, ∃ position,
    SnapshotAt arith json indexes config log stored position

end Invariant

variable {arith : FloatArithmetic} {json : SerdeJson} {indexes : ShardIndexes}
  {config : CollectionConfig} {log : List Entry} {disk next : Directory}
  {machine : ShardMachine indexes} {position : Nat}

theorem Refreshing.none : Refreshing arith config log none position := nofun

theorem Refreshing.mono {refresh : Option (UInt64 × List StoredPoint)} {reached : Nat}
    (refreshing : Refreshing arith config log refresh position) (further : position ≤ reached) :
    Refreshing arith config log refresh reached := by
  intro sequence points found
  obtain ⟨begun, before, facts⟩ := refreshing sequence points found
  exact ⟨begun, before.trans further, facts⟩

theorem Survives.empty_directory : Survives arith json indexes config log (fun _ => none) 0 :=
  ⟨0, [], [], {
    ordered := le_rfl
    within := Nat.zero_le _
    snapshot := ⟨none, rfl, rfl⟩
    journal := rfl
    torn := .inl rfl
    readable := fun _ member => absurd member List.not_mem_nil
    journalled := ⟨[], rfl, fun _ member => absurd member List.not_mem_nil⟩ }⟩

/-! ## Tasks -/

section Tasks

variable {snapshots : List StoredSnapshot}

theorem Operates.within (operates : Operates arith json indexes config log disk machine position) :
    position ≤ log.length := by
  obtain ⟨base, records, holds, -⟩ := operates.holds
  exact holds.within

section

variable (deliverable : Deliverable config log)
  (operates : Operates arith json indexes config log disk machine position)

include deliverable operates

theorem Operates.following (count : Nat) :
    log.drop position =
      (pending machine.state.lastApplied log).take count ++ (log.drop position).drop count := by
  rw [operates.running.state, appliedAt_stateAt, deliverable.increasing.pending_eq,
    List.take_append_drop]

theorem Operates.le_of_notOlder {stored : StoredSnapshot} {target : Nat}
    (isSnapshot : SnapshotAt arith json indexes config log stored target)
    (notOlder : stored.notOlder machine.state.lastApplied = true) : position ≤ target := by
  unfold StoredSnapshot.notOlder at notOlder
  rw [operates.running.state, appliedAt_stateAt, isSnapshot.logId] at notOlder
  exact deliverable.increasing.le_of_covered operates.within notOlder

theorem Operates.run_program (genuine : ∀ stored ∈ snapshots, ∃ position,
      SnapshotAt arith json indexes config log stored position)
    (task : ReplicaTask) :
    (∃ next after built reached,
      (task.program arith json log snapshots machine).run disk = (next, .ok (after, built)) ∧
      position ≤ reached ∧ Operates arith json indexes config log next after reached ∧
      ∀ stored ∈ built, SnapshotAt arith json indexes config log stored reached) ∨
    ∃ error, (task.program arith json log snapshots machine).run disk = (disk, .error error) := by
  cases task with
  | apply count =>
    left
    obtain ⟨next, after, responses, reached, runs, further, operating, -⟩ :=
      operates.run_applyEntries deliverable (operates.following deliverable count)
    exact ⟨next, after, none, reached, by rw [ReplicaTask.program, Program.run_bind_ok runs]; rfl,
      further, operating, nofun⟩
  | buildSnapshot process nonce =>
    rcases operates.run_buildSnapshot deliverable process nonce with
      ⟨next, after, stored, runs, operating, isSnapshot⟩ | ⟨error, fails⟩
    · refine .inl ⟨next, after, some stored, position, ?_, le_rfl, operating, ?_⟩
      · rw [ReplicaTask.program, Program.run_bind_ok runs]
        rfl
      · intro found member
        cases member
        exact isSnapshot
    · exact .inr ⟨error, Program.run_bind_error fails⟩
  | installSnapshot process number =>
    left
    cases found : snapshots[number]? with
    | none =>
      refine ⟨disk, machine, none, position, ?_, le_rfl, operates, nofun⟩
      simp only [ReplicaTask.program, found]
      rfl
    | some stored =>
      obtain ⟨target, isSnapshot⟩ := genuine stored (List.mem_of_getElem? found)
      simp only [ReplicaTask.program, found]
      split
      next notOlder =>
        have ahead := operates.le_of_notOlder deliverable isSnapshot notOlder
        obtain ⟨next, after, runs, operating⟩ :=
          operates.run_installSnapshot deliverable ahead isSnapshot process
        exact ⟨next, after, none, target, by rw [Program.run_bind_ok runs]; rfl, ahead,
          operating, nofun⟩
      next => exact ⟨disk, machine, none, position, rfl, le_rfl, operates, nofun⟩

theorem Operates.program_crash (genuine : ∀ stored ∈ snapshots, ∃ position,
      SnapshotAt arith json indexes config log stored position)
    {task : ReplicaTask}
    (crashed : next ∈ (task.program arith json log snapshots machine).crashStates disk) :
    ∃ reached, Survives arith json indexes config log next reached := by
  -- A task only returns its result once its files are written.
  have finished : ∀ {α : Type} {program : Fs α}
      {result : α → ShardMachine indexes × Option StoredSnapshot},
      next ∈ (program >>= fun value => pure (result value)).crashStates disk →
      next ∈ program.crashStates disk := by
    intro α program result late
    rcases Program.mem_crashStates_bind.mp late with early | ⟨_, _, runs, done⟩
    · exact early
    · rw [List.mem_singleton.mp done]
      exact Program.mem_crashStates_of_run runs
  cases task with
  | apply count =>
    obtain ⟨reached, -, survives⟩ :=
      operates.applyEntries_crash deliverable (operates.following deliverable count)
        (finished crashed)
    exact ⟨reached, survives⟩
  | buildSnapshot process nonce =>
    exact ⟨position, operates.buildSnapshot_crash deliverable (finished crashed)⟩
  | installSnapshot process number =>
    cases found : snapshots[number]? with
    | none =>
      simp only [ReplicaTask.program, found] at crashed
      exact ⟨position, List.mem_singleton.mp crashed ▸ operates.survives⟩
    | some stored =>
      obtain ⟨target, isSnapshot⟩ := genuine stored (List.mem_of_getElem? found)
      simp only [ReplicaTask.program, found] at crashed
      split at crashed
      next notOlder =>
        have ahead := operates.le_of_notOlder deliverable isSnapshot notOlder
        exact (operates.installSnapshot_crash deliverable ahead isSnapshot
          (finished crashed)).elim (⟨position, ·⟩) (⟨target, ·⟩)
      next => exact ⟨position, List.mem_singleton.mp crashed ▸ operates.survives⟩

end

end Tasks

/-! ## Runs -/

namespace Cluster

variable {cluster : Cluster indexes} {number : Nat}

theorem consistent_initial :
    (initial : Cluster indexes).Consistent arith json indexes config log where
  replicas := fun _ => ⟨0, .stopped .empty_directory⟩
  snapshots := fun _ member => absurd member List.not_mem_nil

theorem Consistent.set (consistent : cluster.Consistent arith json indexes config log)
    (number : Nat) {replica : Replica indexes} (at_ : ReplicaAt arith json indexes config log replica position) :
    (cluster.set number replica).Consistent arith json indexes config log where
  replicas := by
    intro other
    by_cases same : other = number
    · exact ⟨position, by simpa only [Cluster.set, if_pos same] using at_⟩
    · obtain ⟨reached, kept⟩ := consistent.replicas other
      exact ⟨reached, by simpa only [Cluster.set, if_neg same] using kept⟩
  snapshots := consistent.snapshots

theorem Consistent.survives (consistent : cluster.Consistent arith json indexes config log)
    (number : Nat) :
    ∃ position, Survives arith json indexes config log (cluster.replicas number).disk position := by
  obtain ⟨position, at_⟩ := consistent.replicas number
  generalize cluster.replicas number = replica at at_
  cases at_ with
  | running operates refreshing => exact ⟨position, operates.survives⟩
  | stopped survives => exact ⟨position, survives⟩

theorem Consistent.operates (consistent : cluster.Consistent arith json indexes config log)
    (isRunning : (cluster.replicas number).machine = some machine) :
    ∃ position, Operates arith json indexes config log (cluster.replicas number).disk machine
        position ∧
      Refreshing arith config log (cluster.replicas number).refresh position := by
  obtain ⟨position, at_⟩ := consistent.replicas number
  generalize cluster.replicas number = replica at at_ isRunning
  cases at_ with
  | running operates refreshing =>
    cases isRunning
    exact ⟨position, operates, refreshing⟩
  | stopped survives => cases isRunning

section

variable (deliverable : Deliverable config log)
  (consistent : cluster.Consistent arith json indexes config log)
  (isRunning : (cluster.replicas number).machine = some machine)

include deliverable consistent isRunning

theorem Consistent.perform (task : ReplicaTask) :
    (cluster.perform arith json log number machine task).Consistent arith json indexes config
      log := by
  obtain ⟨position, operates, refreshing⟩ := consistent.operates isRunning
  unfold Cluster.perform
  rcases operates.run_program deliverable consistent.snapshots task with
    ⟨next, after, built, reached, runs, further, operating, genuine⟩ | ⟨error, fails⟩
  · simp only [runs]
    have moved := consistent.set number (ReplicaAt.running operating
      (refreshing.mono further))
    refine ⟨moved.replicas, fun stored member => ?_⟩
    rcases List.mem_append.mp member with old | new
    · exact consistent.snapshots stored old
    · exact ⟨reached, genuine stored (Option.mem_toList.mp new)⟩
  · simp only [fails]
    rw [isRunning]
    exact consistent.set number (.running operates refreshing)

theorem Consistent.crash {left : Directory} {task : ReplicaTask}
    (crashed : left ∈ (task.program arith json log cluster.snapshots machine).crashStates
      (cluster.replicas number).disk) :
    (cluster.set number ⟨left, none, none⟩).Consistent arith json indexes config log := by
  obtain ⟨position, operates, -⟩ := consistent.operates isRunning
  obtain ⟨reached, survives⟩ := operates.program_crash deliverable consistent.snapshots crashed
  exact consistent.set number (.stopped survives)

end

theorem getD_mem_crashStates {α : Type} (program : Fs α) (disk : Directory) (point : Nat) :
    (program.crashStates disk).getD point disk ∈ program.crashStates disk := by
  rw [List.getD_eq_getElem?_getD]
  cases found : (program.crashStates disk)[point]? with
  | none => exact Program.start_mem_crashStates
  | some state => exact List.mem_of_getElem? found

theorem Consistent.beginRefresh (consistent : cluster.Consistent arith json indexes config log)
    (isRunning : (cluster.replicas number).machine = some machine) :
    (cluster.set number { cluster.replicas number with
      refresh := machine.beginRefresh }).Consistent arith json indexes config log := by
  obtain ⟨position, operates, -⟩ := consistent.operates isRunning
  show (cluster.set number ⟨(cluster.replicas number).disk, (cluster.replicas number).machine,
    machine.beginRefresh⟩).Consistent arith json indexes config log
  rw [isRunning]
  refine consistent.set number (.running operates ?_)
  intro sequence points found
  unfold ShardMachine.beginRefresh at found
  split at found
  · cases found
    rw [operates.running.state]
    exact ⟨position, le_rfl, rfl, rfl⟩
  · cases found

/-- Indexes over points that were not changed meanwhile are those of now. -/
theorem Consistent.finishRefresh (consistent : cluster.Consistent arith json indexes config log)
    (isRunning : (cluster.replicas number).machine = some machine) {sequence : UInt64}
    {points : List StoredPoint} {after : ShardMachine indexes}
    (isRefreshing : (cluster.replicas number).refresh = some (sequence, points))
    (finishes : machine.finishRefresh sequence points = .ok after) :
    (cluster.set number { cluster.replicas number with
      machine := some after, refresh := none }).Consistent arith json indexes config log := by
  obtain ⟨position, operates, refreshing⟩ := consistent.operates isRunning
  have running := operates.running
  refine consistent.set number (.running ⟨operates.holds, ?_⟩ .none)
  unfold ShardMachine.finishRefresh at finishes
  cases builds : buildIndexes indexes machine.config points with
  | error error => simp [builds, bind, Except.bind] at finishes
  | ok built =>
    simp only [builds, bind, Except.bind] at finishes
    split at finishes
    next unchanged =>
      obtain ⟨begun, before, isSequence, isPoints⟩ := refreshing sequence points isRefreshing
      have same : (stateAt arith config log position).collection =
          (stateAt arith config log begun).collection := by
        have along := (foldl_collection arith (stateAt arith config log begun)
          (between log begun position)).2
        rw [stateAt_foldl before] at along
        refine along ?_
        rw [← isSequence, ← unchanged, running.state]
        rfl
      cases finishes
      refine ⟨running.sameConfig, running.state, .inr ⟨position, built, le_rfl, ?_, rfl, rfl, ?_⟩⟩
      · rw [same, ← isPoints, ← running.sameConfig]
        exact builds
      · rw [between_self]
        exact fun id member => absurd member List.not_mem_nil
    next =>
      cases finishes
      exact running

theorem Consistent.step (deliverable : Deliverable config log)
    (consistent : cluster.Consistent arith json indexes config log) (command : ClusterCommand) :
    (cluster.step arith json config log command).Consistent arith json indexes config log := by
  cases command with
  | perform number task =>
    cases isRunning : (cluster.replicas number).machine with
    | none => simpa only [Cluster.step, isRunning] using consistent
    | some machine =>
      simpa only [Cluster.step, isRunning] using consistent.perform deliverable isRunning task
  | crash number task point =>
    cases isRunning : (cluster.replicas number).machine with
    | none => simpa only [Cluster.step, isRunning] using consistent
    | some machine =>
      simpa only [Cluster.step, isRunning] using
        consistent.crash deliverable isRunning (getD_mem_crashStates _ _ point)
  | restart number =>
    obtain ⟨position, survives⟩ := consistent.survives number
    obtain ⟨next, machine, opens, operates⟩ := survives.opens deliverable
    simpa only [Cluster.step, opens] using consistent.set number (.running operates .none)
  | crashRestart number point =>
    obtain ⟨position, survives⟩ := consistent.survives number
    exact consistent.set number
      (.stopped (survives.open_crash deliverable (getD_mem_crashStates _ _ point)))
  | beginRefresh number =>
    cases isRunning : (cluster.replicas number).machine with
    | none => simpa only [Cluster.step, isRunning] using consistent
    | some machine =>
      cases isRefreshing : (cluster.replicas number).refresh with
      | none =>
        simpa only [Cluster.step, isRunning, isRefreshing] using
          consistent.beginRefresh isRunning
      | some pending => simpa only [Cluster.step, isRunning, isRefreshing] using consistent
  | finishRefresh number =>
    cases isRunning : (cluster.replicas number).machine with
    | none => simpa only [Cluster.step, isRunning] using consistent
    | some machine =>
      cases isRefreshing : (cluster.replicas number).refresh with
      | none => simpa only [Cluster.step, isRunning, isRefreshing] using consistent
      | some pending =>
        obtain ⟨sequence, points⟩ := pending
        cases finishes : machine.finishRefresh sequence points with
        | ok after =>
          simpa only [Cluster.step, isRunning, isRefreshing, finishes] using
            consistent.finishRefresh isRunning isRefreshing finishes
        | error error =>
          obtain ⟨position, operates, -⟩ := consistent.operates isRunning
          simpa only [Cluster.step, isRunning, isRefreshing, finishes] using
            consistent.set number (.running operates .none)

variable (arith json indexes) in
/-- Every cluster that a run reaches is consistent. -/
theorem consistent_run (deliverable : Deliverable config log) (commands : List ClusterCommand) :
    (run arith json config log commands : Cluster indexes).Consistent arith json indexes config
      log := by
  have along : ∀ cluster : Cluster indexes, cluster.Consistent arith json indexes config log →
      (commands.foldl (Cluster.step arith json config log) cluster).Consistent arith json indexes
        config log := by
    induction commands with
    | nil => exact fun _ consistent => consistent
    | cons command rest ih =>
      exact fun _ consistent => ih _ (consistent.step deliverable command)
  exact along _ consistent_initial

variable (arith config) in
theorem replayLog_stateAt (increasing : Increasing log) (position : Nat) :
    replayLog arith (.initial config)
        (throughApplied (stateAt arith config log position).lastApplied log) =
      .ok (stateAt arith config log position) := by
  rw [appliedAt_stateAt, increasing.throughApplied_eq, replayLog_eq]
  rfl

variable (arith json indexes) in
/-- Whatever a cluster went through, the state of a running replica is the plain
fold of the log up to its last applied entry, every directory opens to such a
state, and that of a running replica to its very own. -/
theorem replicas_replay_log (deliverable : Deliverable config log)
    (commands : List ClusterCommand) (number : Nat) :
    (∀ machine, ((run arith json config log commands : Cluster indexes).replicas number).machine =
        some machine →
      replayLog arith (.initial config) (throughApplied machine.state.lastApplied log) =
        .ok machine.state) ∧
    ∃ next machine, (openMachine arith json indexes config).run
        ((run arith json config log commands : Cluster indexes).replicas number).disk =
          (next, .ok machine) ∧
      replayLog arith (.initial config) (throughApplied machine.state.lastApplied log) =
        .ok machine.state ∧
      ∀ before, ((run arith json config log commands : Cluster indexes).replicas number).machine =
        some before → machine.state = before.state := by
  have consistent := consistent_run arith json indexes deliverable commands
  have folds := replayLog_stateAt arith config deliverable.increasing
  generalize (run arith json config log commands : Cluster indexes) = cluster at consistent
  obtain ⟨position, at_⟩ := consistent.replicas number
  generalize cluster.replicas number = replica at at_
  cases at_ with
  | running operates refreshing =>
    obtain ⟨next, machine, opens, reopened⟩ := operates.survives.opens deliverable
    refine ⟨?_, next, machine, opens, reopened.running.state ▸ folds position, ?_⟩
    · intro before isRunning
      cases isRunning
      exact operates.running.state ▸ folds position
    · intro before isRunning
      cases isRunning
      rw [operates.running.state, reopened.running.state]
  | stopped survives =>
    obtain ⟨next, machine, opens, operates⟩ := survives.opens deliverable
    refine ⟨fun before isRunning => ?_, next, machine, opens,
      operates.running.state ▸ folds position, fun before isRunning => ?_⟩
    · cases isRunning
    · cases isRunning

/-- Two replicas: one builds a snapshot, applies another entry and dies between
writing a snapshot and emptying its journal; the other installs the snapshot. -/
theorem snapshot_travels_between_replicas :
    let config : CollectionConfig := ⟨1, .dotProduct, by decide⟩
    let command := ShardCommand.upsert "c" 1 [⟨"p", [⟨0x3f800000⟩], ∅⟩]
    let log : List Entry := [⟨⟨⟨1, 1⟩, 1⟩, .blank⟩, ⟨⟨⟨1, 1⟩, 2⟩, .normal command⟩,
      ⟨⟨⟨1, 1⟩, 3⟩, .normal command⟩]
    let indexes : ShardIndexes := ⟨Unit, fun _ _ _ => .ok (), Unit, fun _ => ()⟩
    let commands : List ClusterCommand := [.restart 0, .restart 1, .perform 0 (.apply 2),
      .perform 0 (.buildSnapshot 7 1), .perform 0 (.apply 1),
      .crash 1 (.installSnapshot 8 0) 3, .restart 1, .perform 1 (.apply 3)]
    Deliverable config log ∧
      ∃ next machine, (openMachine .normalised .spelled indexes config).run
          ((run .normalised .spelled config log commands : Cluster indexes).replicas 1).disk =
            (next, .ok machine) ∧
        replayLog .normalised (.initial config)
          (throughApplied machine.state.lastApplied log) = .ok machine.state := by
  intro config command log indexes commands
  have deliverable : Deliverable config log := ⟨by decide, by unfold Increasing; decide, by decide⟩
  obtain ⟨next, machine, opens, folds, -⟩ :=
    (replicas_replay_log .normalised .spelled indexes deliverable commands 1).2
  exact ⟨deliverable, next, machine, opens, folds⟩

end Cluster

end FocalVector.Raft
