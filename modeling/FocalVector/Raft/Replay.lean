import FocalVector.Raft.StateMachine

/-!
Contract: the state of a shard as a function of the log.

Every entry is prepared against the state before it and replayed on that same
state, so the response that was decided is the one that is carried out and no
replay fails. Replaying the journal of some entries repeats exactly the steps
that wrote it, and records at or below the applied index are passed over.

Owns: `deliver`, `replayLog`, `advance`, the records that entries leave in the
journal, the facts that hold of every state along a log, and the state a
snapshot restores.

Does not own: files and crashes.
-/

namespace FocalVector.Raft

open FocalVector.Foundation FocalVector.Engine FocalVector.Persistence LittleEndian

variable (arith : FloatArithmetic)

/-! ## One entry -/

def recordOf (state : ShardState) (entry : Entry) : AppliedRecord :=
  ⟨entry.logId, (preparePayload arith state entry).1⟩

/-- `prepare_payload` followed by `replay_record`. -/
def deliver (state : ShardState) (entry : Entry) : Result ShardState := do
  let (next, _) ← replayRecord arith state ∅ (recordOf arith state entry)
  return next

def replayLog (initial : ShardState) (log : List Entry) : Result ShardState :=
  log.foldlM (deliver arith) initial

def commit (collection : Collection) (command : ShardCommand) : Collection :=
  match decideResponse arith collection command with
  | .applied sequence => ((applyCommand arith collection command sequence).toOption).getD collection
  | .rejected _ => collection

def advance (state : ShardState) (entry : Entry) : ShardState :=
  match entry.payload with
  | .blank => { state with lastApplied := some entry.logId }
  | .membership membership =>
    { state with
      membership := ⟨some entry.logId, membership⟩
      lastApplied := some entry.logId }
  | .normal command =>
    if (state.dedup.response (commandIdentity command)).isSome then
      { state with lastApplied := some entry.logId }
    else
      { state with
        collection := commit arith state.collection command
        dedup := state.dedup.record (commandIdentity command)
          (decideResponse arith state.collection command)
        lastApplied := some entry.logId }

def changedIds (state : ShardState) (entry : Entry) : List String :=
  match entry.payload with
  | .normal command =>
    if (state.dedup.response (commandIdentity command)).isSome then []
    else
      match decideResponse arith state.collection command with
      | .applied _ => commandIds command
      | .rejected _ => []
  | _ => []

variable {arith}

/-- What the decision about a command says: it is carried out as a batch at the
next sequence, or it is rejected. -/
inductive Decided (arith : FloatArithmetic) (collection : Collection) (command : ShardCommand) :
    Prop where
  | applied (sequence : UInt64) (write : Write)
      (granted : collection.nextSequence = .ok sequence)
      (response : decideResponse arith collection command = .applied sequence)
      (applies : applyCommand arith collection command sequence =
        .ok (collection.applyWrite write sequence))
      (named : ∀ id ∈ write.ids, id ∈ commandIds command)
      (prepared : ∀ points, write = .upsert points → ∀ stored ∈ points,
        ∃ clientId requestId batch, command = .upsert clientId requestId batch ∧
          ∃ point ∈ batch,
            Collection.PreparedPoint arith collection.config sequence point stored)
  | rejected (message : String)
      (response : decideResponse arith collection command = .rejected message)

variable (arith) in
theorem decided (collection : Collection) (command : ShardCommand) :
    Decided arith collection command := by
  cases granted : collection.nextSequence with
  | error error =>
    refine .rejected "collection sequence overflow" ?_
    cases command <;> simp only [decideResponse, granted]
  | ok sequence =>
    cases command with
    | upsert clientId requestId points =>
      cases accepted : collection.prepareUpsert arith points sequence with
      | error error =>
        refine .rejected error.toText ?_
        simp only [decideResponse, granted, accepted]
      | ok stored =>
        have each := (Collection.prepareUpsert_eq_ok accepted).2
        refine .applied sequence (.upsert stored) granted ?_ ?_ ?_ ?_
        · simp only [decideResponse, granted, accepted]
        · simp only [applyCommand, accepted]
          rfl
        · intro id member
          obtain ⟨kept, isStored, rfl⟩ := List.mem_map.mp member
          obtain ⟨point, isPoint, fields⟩ := each kept isStored
          exact fields.sameId ▸ List.mem_map_of_mem isPoint
        · intro points' same kept isStored
          cases same
          exact ⟨clientId, requestId, points, rfl, each kept isStored⟩
    | delete clientId requestId ids =>
      cases bad : ids.isEmpty || ids.any String.isEmpty with
      | true =>
        refine .rejected "delete IDs must be non-empty" ?_
        simp only [decideResponse, granted, bad, if_true]
      | false =>
        refine .applied sequence (.delete ids) granted ?_ rfl (fun _ member => member) nofun
        simp only [decideResponse, granted, bad, Bool.false_eq_true, if_false]

variable (arith) in
theorem commit_cases (collection : Collection) (command : ShardCommand) :
    (∃ sequence write, collection.nextSequence = .ok sequence ∧
      decideResponse arith collection command = .applied sequence ∧
      commit arith collection command = collection.applyWrite write sequence ∧
      (∀ id ∈ write.ids, id ∈ commandIds command) ∧
      ∀ points, write = .upsert points → ∀ stored ∈ points,
        ∃ clientId requestId batch, command = .upsert clientId requestId batch ∧
          ∃ point ∈ batch,
            Collection.PreparedPoint arith collection.config sequence point stored) ∨
    ∃ message, decideResponse arith collection command = .rejected message ∧
      commit arith collection command = collection := by
  cases decided arith collection command with
  | applied sequence write granted response applies named prepared =>
    refine .inl ⟨sequence, write, granted, response, ?_, named, prepared⟩
    simp only [commit, response, applies]
    rfl
  | rejected message response =>
    exact .inr ⟨message, response, by simp only [commit, response]⟩

theorem replayRecord_recordOf (state : ShardState) (dirtyIds : IdSet) (entry : Entry) :
    replayRecord arith state dirtyIds (recordOf arith state entry) =
      .ok (advance arith state entry, dirtyIds.insertMany (changedIds arith state entry)) := by
  obtain ⟨logId, payload⟩ := entry
  cases payload with
  | blank => simp [replayRecord, recordOf, preparePayload, advance, changedIds]
  | membership membership =>
    simp [replayRecord, recordOf, preparePayload, advance, changedIds]
  | normal command =>
    cases seen : state.dedup.response (commandIdentity command) with
    | some response =>
      simp [replayRecord, recordOf, preparePayload, advance, changedIds, seen]
    | none =>
      cases decided arith state.collection command with
      | applied sequence write granted response applies named prepared =>
        simp [replayRecord, recordOf, preparePayload, advance, changedIds, seen, commit,
          response, applies, Except.toOption, bind, Except.bind, pure, Except.pure]
      | rejected message response =>
        simp [replayRecord, recordOf, preparePayload, advance, changedIds, seen, commit,
          response]

theorem deliver_eq (state : ShardState) (entry : Entry) :
    deliver arith state entry = .ok (advance arith state entry) := by
  unfold deliver
  rw [replayRecord_recordOf]
  rfl

theorem replayLog_eq (initial : ShardState) (log : List Entry) :
    replayLog arith initial log = .ok (log.foldl (advance arith) initial) := by
  induction log generalizing initial with
  | nil => rfl
  | cons entry rest ih =>
    unfold replayLog
    rw [List.foldlM_cons, deliver_eq]
    exact ih _

@[simp] theorem lastApplied_advance (state : ShardState) (entry : Entry) :
    (advance arith state entry).lastApplied = some entry.logId := by
  unfold advance
  split
  · rfl
  · rfl
  · split <;> rfl

theorem lastApplied_foldl (state : ShardState) (log : List Entry) :
    (log.foldl (advance arith) state).lastApplied =
      (log.getLast?.map Entry.logId).or state.lastApplied := by
  induction log generalizing state with
  | nil => rfl
  | cons entry rest ih =>
    rw [List.foldl_cons, ih, lastApplied_advance, List.getLast?_cons]
    cases rest.getLast? <;> rfl

/-! ## What holds along a log -/

/-- What every state along a log of finite entries satisfies. -/
structure ShardState.Sound (config : CollectionConfig) (state : ShardState) : Prop where
  sameConfig : state.collection.config = config
  sequenced : ∀ id point, state.collection.points.get id = some point →
    point.sequence ≤ state.collection.sequence
  dimension : ∀ id point, state.collection.points.get id = some point →
    point.vector.length = config.dimension
  named : ∀ id point, state.collection.points.get id = some point → point.id.isEmpty = false
  finite : ∀ id point, state.collection.points.get id = some point →
    MetadataFinite point.metadata

def ShardState.initial (config : CollectionConfig) : ShardState :=
  ⟨⟨config, .empty, 0⟩, none, .initial, ∅⟩

theorem ShardState.sound_initial (config : CollectionConfig) :
    (ShardState.initial config).Sound config := by
  constructor <;> simp [ShardState.initial]

/-- A batch of prepared points that holds what its points hold. -/
theorem get_applyWrite_cases {collection : Collection} {write : Write} {sequence : UInt64}
    {id : String} {point : StoredPoint}
    (found : (collection.applyWrite write sequence).points.get id = some point) :
    collection.points.get id = some point ∨ ∃ points, write = .upsert points ∧ point ∈ points := by
  rw [Collection.get_applyWrite] at found
  cases write with
  | upsert points =>
    cases last : PointMap.lastWith points id with
    | none => exact .inl (by simpa [Overwrite.apply, Write.effect, last] using found)
    | some stored =>
      have same : stored = point := by
        simpa [Overwrite.apply, Write.effect, last] using found
      exact .inr ⟨points, rfl, same ▸ List.mem_reverse.mp (List.mem_of_find?_eq_some last)⟩
  | delete ids =>
    by_cases member : id ∈ ids
    · simp [Overwrite.apply, Write.effect, member] at found
    · exact .inl (by simpa [Overwrite.apply, Write.effect, member] using found)

variable {state : ShardState}

theorem ShardState.Sound.advance {config : CollectionConfig}
    (sound : state.Sound config) {entry : Entry} (finite : EntryFinite entry) :
    (Raft.advance arith state entry).Sound config := by
  obtain ⟨logId, payload⟩ := entry
  cases payload with
  | blank => exact ⟨sound.sameConfig, sound.sequenced, sound.dimension, sound.named, sound.finite⟩
  | membership membership =>
    exact ⟨sound.sameConfig, sound.sequenced, sound.dimension, sound.named, sound.finite⟩
  | normal command =>
    unfold Raft.advance
    simp only
    split
    · exact ⟨sound.sameConfig, sound.sequenced, sound.dimension, sound.named, sound.finite⟩
    rcases commit_cases arith state.collection command with
      ⟨sequence, write, granted, -, commits, -, prepared⟩ | ⟨message, -, commits⟩
    · have step := Collection.nextSequence_eq_ok granted
      -- A point that was there before, or one that the batch prepared.
      have origin : ∀ id point,
          (commit arith state.collection command).points.get id = some point →
          state.collection.points.get id = some point ∨
            ∃ clientId requestId batch, command = .upsert clientId requestId batch ∧
              ∃ source ∈ batch,
                Collection.PreparedPoint arith state.collection.config sequence source point := by
        intro id point found
        rw [commits] at found
        refine (get_applyWrite_cases found).imp_right ?_
        rintro ⟨points, isUpsert, member⟩
        exact prepared points isUpsert point member
      refine ⟨?_, fun id point found => ?_, fun id point found => ?_, fun id point found => ?_,
        fun id point found => ?_⟩
      · simp only [commits, Collection.applyWrite_config, sound.sameConfig]
      · simp only [commits, Collection.applyWrite_sequence]
        rcases origin id point found with before | ⟨_, _, _, _, _, _, fields⟩
        · have older := sound.sequenced id point before
          rw [UInt64.le_iff_toNat_le] at older ⊢
          omega
        · exact fields.sequenced ▸ UInt64.le_refl _
      · rcases origin id point found with before | ⟨_, _, _, _, _, _, fields⟩
        · exact sound.dimension id point before
        · rw [fields.dimension, sound.sameConfig]
      · rcases origin id point found with before | ⟨_, _, _, _, _, _, fields⟩
        · exact sound.named id point before
        · exact fields.nonempty
      · rcases origin id point found with before | ⟨_, _, batch, rfl, source, member, fields⟩
        · exact sound.finite id point before
        · rw [fields.sameMetadata]
          exact (finite source member).2
    · rw [commits]
      exact ⟨sound.sameConfig, sound.sequenced, sound.dimension, sound.named, sound.finite⟩

theorem ShardState.Sound.foldl {config : CollectionConfig}
    (sound : state.Sound config) {log : List Entry} (finite : ∀ entry ∈ log, EntryFinite entry) :
    (log.foldl (Raft.advance arith) state).Sound config := by
  induction log generalizing state with
  | nil => exact sound
  | cons entry rest ih =>
    exact ih (sound.advance (finite entry List.mem_cons_self))
      fun later member => finite later (List.mem_cons_of_mem _ member)

/-- The sequence counts the batches: an entry leaves the collection alone, or
raises the sequence by one. -/
theorem advance_collection (arith : FloatArithmetic) (state : ShardState) (entry : Entry) :
    (advance arith state entry).collection = state.collection ∨
      (advance arith state entry).collection.sequence.toNat =
        state.collection.sequence.toNat + 1 := by
  obtain ⟨logId, payload⟩ := entry
  cases payload with
  | blank => exact .inl rfl
  | membership membership => exact .inl rfl
  | normal command =>
    unfold advance
    simp only
    split
    · exact .inl rfl
    rcases commit_cases arith state.collection command with
      ⟨sequence, write, granted, -, commits, -⟩ | ⟨-, -, commits⟩
    · right
      simp only [commits, Collection.applyWrite_sequence]
      exact Collection.nextSequence_eq_ok granted
    · exact .inl commits

theorem foldl_collection (arith : FloatArithmetic) (state : ShardState) (log : List Entry) :
    state.collection.sequence.toNat ≤
        (log.foldl (advance arith) state).collection.sequence.toNat ∧
      ((log.foldl (advance arith) state).collection.sequence = state.collection.sequence →
        (log.foldl (advance arith) state).collection = state.collection) := by
  induction log generalizing state with
  | nil => exact ⟨le_rfl, fun _ => rfl⟩
  | cons entry rest ih =>
    rw [List.foldl_cons]
    obtain ⟨grows, same⟩ := ih (advance arith state entry)
    rcases advance_collection arith state entry with kept | raised
    · rw [← kept]
      exact ⟨grows, same⟩
    · refine ⟨by omega, fun unchanged => ?_⟩
      rw [unchanged] at grows
      omega

/-! ## Logs and positions -/

def Increasing (log : List Entry) : Prop :=
  log.Pairwise fun left right => left.logId.index < right.logId.index

def throughApplied (applied : Option LogId) (log : List Entry) : List Entry :=
  log.filter fun entry => applied.any fun last => entry.logId.index ≤ last.index

def pending (applied : Option LogId) (log : List Entry) : List Entry :=
  log.filter fun entry => !applied.any fun last => entry.logId.index ≤ last.index

def appliedAt (log : List Entry) (position : Nat) : Option LogId :=
  (log.take position).getLast?.map Entry.logId

variable {log : List Entry} (position : Nat)

theorem Increasing.take_covered (increasing : Increasing log) :
    ∀ entry ∈ log.take position,
      (appliedAt log position).any (fun last => entry.logId.index ≤ last.index) = true := by
  intro entry member
  unfold appliedAt
  have sorted : Increasing (log.take position) := increasing.sublist (List.take_sublist _ _)
  generalize log.take position = front at member sorted
  rcases List.eq_nil_or_concat front with rfl | ⟨rest, last, rfl⟩
  · cases member
  · rw [List.concat_eq_append] at member sorted ⊢
    simp only [List.getLast?_append, List.getLast?_singleton, Option.some_or, Option.map_some,
      Option.any_some, decide_eq_true_eq]
    rcases List.mem_append.mp member with earlier | isLast
    · exact UInt64.le_of_lt ((List.pairwise_append.mp sorted).2.2 entry earlier last
        List.mem_cons_self)
    · rw [List.mem_singleton.mp isLast]
      exact UInt64.le_refl _

theorem Increasing.drop_uncovered (increasing : Increasing log) :
    ∀ entry ∈ log.drop position,
      (appliedAt log position).any (fun last => entry.logId.index ≤ last.index) = false := by
  intro entry member
  unfold appliedAt
  have apart := (List.pairwise_append.mp (by
    rw [List.take_append_drop position log]
    exact increasing : Increasing (log.take position ++ log.drop position))).2.2
  cases last : (log.take position).getLast? with
  | none => rfl
  | some covered =>
    have before := apart covered (List.mem_of_getLast? last) entry member
    simpa using before

/-- The part of a log that passes a test on its entries. -/
private theorem filter_split (test : Entry → Bool) :
    log.filter test = (log.take position).filter test ++ (log.drop position).filter test := by
  rw [← List.filter_append, List.take_append_drop]

theorem Increasing.throughApplied_eq (increasing : Increasing log) :
    throughApplied (appliedAt log position) log = log.take position := by
  have none_later := List.filter_eq_nil_iff.mpr fun entry member =>
    Bool.eq_false_iff.mp (increasing.drop_uncovered position entry member)
  unfold throughApplied
  rw [filter_split position,
    List.filter_eq_self.mpr (increasing.take_covered position), none_later, List.append_nil]

theorem Increasing.pending_eq (increasing : Increasing log) :
    pending (appliedAt log position) log = log.drop position := by
  have none_earlier : (log.take position).filter (fun entry => !(appliedAt log position).any
      fun last => entry.logId.index ≤ last.index) = [] := by
    refine List.filter_eq_nil_iff.mpr fun entry member => ?_
    rw [increasing.take_covered position entry member]
    exact Bool.false_ne_true
  have all_later : (log.drop position).filter (fun entry => !(appliedAt log position).any
      fun last => entry.logId.index ≤ last.index) = log.drop position := by
    refine List.filter_eq_self.mpr fun entry member => ?_
    rw [increasing.drop_uncovered position entry member]
    rfl
  unfold pending
  rw [filter_split position, none_earlier, all_later, List.nil_append]

/-! ## The journal of some entries -/

variable (arith) in
def recordsOf (state : ShardState) : List Entry → List AppliedRecord
  | [] => []
  | entry :: rest => recordOf arith state entry :: recordsOf (advance arith state entry) rest

variable (arith) in
def changedBy (state : ShardState) : List Entry → List String
  | [] => []
  | entry :: rest => changedIds arith state entry ++ changedBy (advance arith state entry) rest

variable (arith) in
def answersOf (state : ShardState) : List Entry → List ShardResponse
  | [] => []
  | entry :: rest =>
    (preparePayload arith state entry).2 :: answersOf (advance arith state entry) rest

theorem changedBy_append (state : ShardState) (first second : List Entry) :
    changedBy arith state (first ++ second) =
      changedBy arith state first ++ changedBy arith (first.foldl (advance arith) state) second := by
  induction first generalizing state with
  | nil => rfl
  | cons entry rest ih =>
    simp only [List.cons_append, changedBy, List.foldl_cons, ih,
      List.append_assoc]

theorem recordsOf_append (state : ShardState) (first second : List Entry) :
    recordsOf arith state (first ++ second) =
      recordsOf arith state first ++ recordsOf arith (first.foldl (advance arith) state) second := by
  induction first generalizing state with
  | nil => rfl
  | cons entry rest ih =>
    simp only [List.cons_append, recordsOf, List.foldl_cons, ih]

theorem logId_of_mem_recordsOf {entries : List Entry} {record : AppliedRecord}
    (member : record ∈ recordsOf arith state entries) :
    ∃ entry ∈ entries, record.logId = entry.logId := by
  induction entries generalizing state with
  | nil => cases member
  | cons entry rest ih =>
    rcases List.mem_cons.mp member with rfl | later
    · exact ⟨entry, List.mem_cons_self, rfl⟩
    · obtain ⟨found, isLater, same⟩ := ih later
      exact ⟨found, List.mem_cons_of_mem _ isLater, same⟩

theorem foldlM_openStep_stale {records : List AppliedRecord}
    {dirtyIds : IdSet}
    (stale : ∀ record ∈ records,
      state.lastApplied.any (fun applied => record.logId.index ≤ applied.index) = true) :
    records.foldlM (openStep arith) (state, dirtyIds) = .ok (state, dirtyIds) := by
  induction records with
  | nil => rfl
  | cons record rest ih =>
    have skipped : openStep arith (state, dirtyIds) record = .ok (state, dirtyIds) :=
      if_pos (stale record List.mem_cons_self)
    rw [List.foldlM_cons, skipped]
    exact ih fun later member => stale later (List.mem_cons_of_mem _ member)

/-- Replaying the journal of some entries repeats what wrote it. -/
theorem foldlM_openStep_recordsOf {entries : List Entry} {dirtyIds : IdSet}
    (increasing : Increasing entries)
    (ahead : ∀ entry ∈ entries,
      state.lastApplied.any (fun applied => entry.logId.index ≤ applied.index) = false) :
    ∃ changed : IdSet,
      (recordsOf arith state entries).foldlM (openStep arith) (state, dirtyIds) =
        .ok (entries.foldl (advance arith) state, changed) ∧
      ∀ id, id ∈ changed ↔ id ∈ dirtyIds ∨ id ∈ changedBy arith state entries := by
  induction entries generalizing state dirtyIds with
  | nil => exact ⟨dirtyIds, rfl, by simp [changedBy]⟩
  | cons entry rest ih =>
    have opens : openStep arith (state, dirtyIds) (recordOf arith state entry) =
        .ok (advance arith state entry, dirtyIds.insertMany (changedIds arith state entry)) := by
      unfold openStep
      rw [if_neg (by rw [show (recordOf arith state entry).logId = entry.logId from rfl,
        ahead entry List.mem_cons_self]; exact Bool.false_ne_true)]
      exact replayRecord_recordOf state dirtyIds entry
    have later : ∀ follower ∈ rest, (advance arith state entry).lastApplied.any
        (fun applied => follower.logId.index ≤ applied.index) = false := by
      intro follower member
      have before := (List.pairwise_cons.mp increasing).1 follower member
      simpa using before
    obtain ⟨changed, folds, members⟩ := ih (List.Pairwise.of_cons increasing) later
    refine ⟨changed, ?_, fun id => ?_⟩
    · rw [recordsOf, List.foldlM_cons, opens]
      exact folds
    · rw [members, changedBy, List.mem_append, Std.ExtTreeSet.mem_insertMany_list]
      simp [or_assoc]

/-! ## Reading back what was written -/

section Documents

variable {json : SerdeJson} {indexes : ShardIndexes} {config : CollectionConfig}
  {state : ShardState}

theorem appliedFinite_recordOf {entry : Entry} :
    AppliedFinite (recordOf arith state entry) ↔ EntryFinite entry := by
  obtain ⟨logId, payload⟩ := entry
  cases payload with
  | blank => exact Iff.rfl
  | membership membership => exact Iff.rfl
  | normal command =>
    unfold recordOf preparePayload AppliedFinite
    simp only
    cases state.dedup.response (commandIdentity command) <;> exact Iff.rfl

theorem ShardState.Sound.storedFinite {built : indexes.Graph × indexes.MetadataIndex}
    (sound : state.Sound config)
    (builds : buildIndexes indexes config state.collection.snapshotStoredPoints = .ok built) :
    ∀ point ∈ state.collection.snapshotStoredPoints, StoredFinite point := by
  intro point member
  exact ⟨buildIndexes_finite builds point member,
    sound.finite point.id point (PointMap.mem_values.mp member)⟩

theorem encodeStateSnapshot_of_lt {snapshot : StateSnapshot}
    (small : 17 + (json.stateSnapshot.toVec snapshot).length < 2 ^ 63) :
    encodeStateSnapshot json snapshot =
      .ok (sealed snapshotMagic snapshotVersion (json.stateSnapshot.toVec snapshot)) :=
  if_pos small

theorem decodeStateSnapshot_sealed {snapshot : StateSnapshot} {data : Bytes}
    (finite : ∀ point ∈ snapshot.points, StoredFinite point)
    (encodes : encodeStateSnapshot json snapshot = .ok data) :
    decodeStateSnapshot json data = .ok snapshot := by
  unfold encodeStateSnapshot at encodes
  simp only at encodes
  split at encodes
  next small =>
    have fourBytes : snapshotMagic.length = 4 := rfl
    have reads := json.stateSnapshot.fromSlice_toVec snapshot finite
    have word : (json.stateSnapshot.toVec snapshot).length < 2 ^ 64 := by omega
    rw [← Except.ok.inj encodes]
    unfold decodeStateSnapshot
    rw [sealed_magic fourBytes, sealed_version fourBytes, sealed_length fourBytes,
      if_neg (by simp), if_neg (by simp)]
    simp only [sealed_lengthField fourBytes word, sealed_payload fourBytes,
      sealed_checksum fourBytes, reads]
    rw [if_neg (by omega), if_neg (by simp), if_neg (by simp)]
    rfl
  next => contradiction

theorem decodeStoredSnapshot_toVec {stored : StoredSnapshot}
    (checksummed : stored.checksum =
      some (storedSnapshotChecksum json stored.snapshotMeta stored.data)) :
    decodeStoredSnapshot json (json.storedSnapshot.toVec stored) = .ok stored := by
  have reads := json.storedSnapshot.fromSlice_toVec stored trivial
  unfold decodeStoredSnapshot
  simp [reads, checksummed]

theorem restoreSnapshot_snapshot {built : indexes.Graph × indexes.MetadataIndex}
    (sound : state.Sound config) (positive : config.dimension ≠ 0)
    (builds : buildIndexes indexes config state.collection.snapshotStoredPoints = .ok built) :
    restoreSnapshot indexes (state.snapshot config) = .ok (state, built) := by
  have restores : (⟨config, .empty, 0⟩ : Collection).restoreStoredSnapshot
      state.collection.snapshotStoredPoints state.collection.latestSequence =
      .ok state.collection := by
    rw [Collection.snapshotStoredPoints, Collection.latestSequence,
      Collection.restoreStoredSnapshot_ok
        (fun point member => sound.sequenced point.id point (PointMap.mem_values.mp member))
        state.collection.points.values_ids_nodup, PointMap.insertAll_values]
    obtain ⟨⟨config', points, sequence⟩, lastApplied, membership, dedup⟩ := state
    have same := sound.sameConfig
    simp only at same
    rw [same]
  have created : Collection.new config = .ok ⟨config, .empty, 0⟩ := if_neg positive
  unfold restoreSnapshot
  simp only [ShardState.snapshot, builds, created, restores, bind, Except.bind, pure, Except.pure]

end Documents

end FocalVector.Raft
