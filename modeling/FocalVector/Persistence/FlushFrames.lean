import FocalVector.Persistence.IndexedRuns

/-!
Contract: publishing a flush is invisible to the readers of the collection.

A flush is taken from the collection, built while the collection is written to, and
published later. Publishing it swaps in the points of the segment where the sequences agree
and clears the dirty ids where nothing was written since. In every run the points and the
sequence stay what they were, and what was written since the flush was taken stays dirty.

Owns: what a publication leaves as it was.

Does not own: what it does to the files.
-/

namespace FocalVector.Persistence

open FocalVector.Foundation FocalVector.Engine

def Request.ids : Request → List String
  | .upsert points => points.map UpsertPoint.id
  | .delete ids => ids

namespace SharedState

variable (arith : FloatArithmetic) (config : CollectionConfig) (process : Nat)
  {backend : IndexBackend}

def written (state : SharedState backend) : SharedCommand → List String
  | .write request =>
    match (state.store.perform arith request).run state.disk with
    | (_, .ok _) => request.ids
    | (_, .error _) => []
  | _ => []

def writtenIds (state : SharedState backend) : List SharedCommand → List String
  | [] => []
  | command :: rest =>
    state.written arith command ++ (state.step arith config process command).writtenIds rest

end SharedState

def SharedCommand.Between (client : Nat) : SharedCommand → Prop
  | .write _ => True
  | .flushSnapshot other _ => other ≠ client
  | .buildFlush _ _ => True
  | .publishFlush _ => False
  | .reopen _ => False

section

variable {arith : FloatArithmetic} {backend : IndexBackend} {config : CollectionConfig}
  {process : Nat} {state : SharedState backend}

/-! ## The points stay -/

/-- A publication in a run leaves the points and the sequence. -/
theorem Indexed.inner_publishFlush (indexed : Indexed config process state) (client : Nat) :
    (state.step arith config process (.publishFlush client)).store.inner = state.store.inner := by
  cases flying : state.flights client with
  | none => simp only [SharedState.step, flying]
  | some flight =>
    cases indexed.carries client flight flying with
    | taken => simp only [SharedState.step, flying]
    | @built prepared base items bytes past index file built sequenced members =>
      simp only [SharedState.step, flying, SharedState.publish]
      have temporary := indexed.names.leading_temporary flying
      cases runs : (state.store.publishFlush process prepared).run state.disk with
      | mk next outcome =>
        cases outcome with
        | error error => rfl
        | ok result =>
          rcases publishFlush_eq_ok temporary file runs with
            same | ⟨previous, decoded, -, -, claims, isPublished, -⟩
          · simp only [same]
          · simp only [isPublished]
            exact past.replaced built members claims

/-! ## What was written stays dirty -/

theorem mapM_preparePoint_ids {sequence : UInt64} {points : List UpsertPoint}
    {prepared : List StoredPoint}
    (accepted : points.mapM (Collection.preparePoint arith config sequence) = .ok prepared) :
    prepared.map StoredPoint.id = points.map UpsertPoint.id := by
  have all := Checked.of_mapM accepted
  clear accepted
  induction all with
  | nil => rfl
  | cons first _ ih =>
    rw [List.map_cons, List.map_cons, ih, (Collection.preparePoint_eq_ok first).sameId]

theorem ids_of_batch {store : PersistentCollection backend} {request : Request} {write : Write}
    (isBatch : store.batch arith request = .ok write) : write.ids = request.ids := by
  cases request with
  | delete ids =>
    cases isBatch
    rfl
  | upsert points =>
    obtain ⟨sequence, -, isBatch⟩ := Result.of_bind_ok isBatch
    obtain ⟨prepared, prepares, returns⟩ := Result.of_bind_ok isBatch
    cases returns
    unfold Collection.prepareUpsert at prepares
    split at prepares
    · cases prepares
    · exact mapM_preparePoint_ids prepares

/-- The flush of a client is at a sequence, and what was written since is dirty. -/
structure Awaits (client : Nat) (sequence : UInt64) (state : SharedState backend)
    (written : List String) : Prop where
  taken : ∀ snapshot, state.flights client = some (.taken snapshot) → snapshot.sequence = sequence
  built : ∀ prepared, state.flights client = some (.built prepared) → prepared.sequence = sequence
  before : sequence ≤ state.store.inner.sequence
  newer : written ≠ [] → sequence < state.store.inner.sequence
  dirty : ∀ id ∈ written, id ∈ state.store.dirtyIds

variable {client : Nat} {sequence : UInt64} {written : List String}

section

variable (awaits : Awaits client sequence state written)

include awaits

theorem Awaits.step_write (request : Request) :
    Awaits client sequence (state.step arith config process (.write request))
      (written ++ state.written arith (.write request)) := by
  cases runs : (state.store.perform arith request).run state.disk with
  | mk next outcome =>
    simp only [SharedState.step, SharedState.written, runs]
    cases outcome with
    | error error =>
      rw [List.append_nil]
      exact ⟨awaits.taken, awaits.built, awaits.before, awaits.newer, awaits.dirty⟩
    | ok result =>
      obtain ⟨after, given⟩ := result
      obtain ⟨write, isBatch, appended, rfl⟩ := perform_eq_ok runs
      have later := appended.newer.1
      exact {
        taken := awaits.taken
        built := awaits.built
        before := UInt64.le_of_lt (UInt64.lt_of_le_of_lt awaits.before later)
        newer := fun _ => UInt64.lt_of_le_of_lt awaits.before later
        dirty := fun id member => by
          by_contra clean
          obtain ⟨notBefore, notNow⟩ := not_mem_changedIds clean
          rw [ids_of_batch isBatch] at notNow
          exact (List.mem_append.mp member).elim (fun old => notBefore (awaits.dirty id old))
            notNow }

/-- A client keeps waiting while the collection is kept and its flush is at the sequence. -/
theorem Awaits.keep {next : SharedState backend}
    (same : next.store = state.store)
    (taken : ∀ snapshot, next.flights client = some (.taken snapshot) →
      snapshot.sequence = sequence)
    (built : ∀ prepared, next.flights client = some (.built prepared) →
      prepared.sequence = sequence) : Awaits client sequence next written where
  taken := taken
  built := built
  before := same ▸ awaits.before
  newer := same ▸ awaits.newer
  dirty := same ▸ awaits.dirty

theorem Awaits.step_flushSnapshot {other : Nat}
    (isOther : other ≠ client) (order : IterationOrder) :
    Awaits client sequence (state.step arith config process (.flushSnapshot other order))
      written := by
  simp only [SharedState.step]
  cases state.flights other with
  | some flight => exact awaits
  | none =>
    refine awaits.keep rfl (fun snapshot flying => ?_) fun prepared flying => ?_
    · simp only [SharedState.setFlight, if_neg isOther.symm] at flying
      exact awaits.taken snapshot flying
    · simp only [SharedState.setFlight, if_neg isOther.symm] at flying
      exact awaits.built prepared flying

theorem Awaits.step_buildFlush (other timestamp : Nat) :
    Awaits client sequence (state.step arith config process (.buildFlush other timestamp))
      written := by
  cases flying : state.flights other with
  | none =>
    simp only [SharedState.step, flying]
    exact awaits
  | some flight =>
    cases flight with
    | built prepared =>
      simp only [SharedState.step, flying]
      exact awaits
    | taken snapshot =>
      simp only [SharedState.step, flying, SharedState.build]
      cases runs : (buildFlush backend snapshot ⟨process, timestamp, state.nonce⟩).run
          state.disk with
      | mk next outcome =>
        cases outcome with
        | error error =>
          refine awaits.keep rfl (fun old isOld => ?_) fun old isOld => ?_
          · exact awaits.taken old (flights_of_landed isOld).2
          · exact awaits.built old (flights_of_landed isOld).2
        | ok prepared =>
          refine awaits.keep rfl (fun old isOld => ?_) fun old isOld => ?_
          · rcases flights_of_set isOld with ⟨-, isBuilt⟩ | ⟨-, before⟩
            · cases isBuilt
            · exact awaits.taken old before
          · rcases flights_of_set isOld with ⟨sameClient, isBuilt⟩ | ⟨-, before⟩
            · cases isBuilt
              rw [buildFlush_eq_ok runs]
              exact awaits.taken snapshot (sameClient ▸ flying)
            · exact awaits.built old before

theorem Awaits.run
    {commands : List SharedCommand} (between : ∀ command ∈ commands, command.Between client) :
    Awaits client sequence (state.run arith config process commands)
      (written ++ state.writtenIds arith config process commands) := by
  induction commands generalizing state written with
  | nil =>
    rw [SharedState.writtenIds, List.append_nil]
    exact awaits
  | cons command rest ih =>
    have restBetween : ∀ command ∈ rest, command.Between client :=
      fun later member => between later (List.mem_cons_of_mem _ member)
    have isBetween := between command List.mem_cons_self
    rw [SharedState.writtenIds, ← List.append_assoc]
    refine ih ?_ restBetween
    cases command with
    | write request => exact awaits.step_write request
    | publishFlush other => exact isBetween.elim
    | reopen durability => exact isBetween.elim
    | flushSnapshot other order =>
      show Awaits client sequence _ (written ++ [])
      rw [List.append_nil]
      exact awaits.step_flushSnapshot isBetween order
    | buildFlush other timestamp =>
      show Awaits client sequence _ (written ++ [])
      rw [List.append_nil]
      exact awaits.step_buildFlush other timestamp

theorem Awaits.publish (indexed : Indexed config process state) :
    ∀ id ∈ written, id ∈ (state.step arith config process (.publishFlush client)).store.dirtyIds := by
  intro id member
  have stays := awaits.dirty id member
  have later := awaits.newer (List.ne_nil_of_mem member)
  cases flying : state.flights client with
  | none =>
    simp only [SharedState.step, flying]
    exact stays
  | some flight =>
    cases indexed.carries client flight flying with
    | taken =>
      simp only [SharedState.step, flying]
      exact stays
    | @built prepared base items bytes past index file built sequenced members =>
      simp only [SharedState.step, flying, SharedState.publish]
      have temporary := indexed.names.leading_temporary flying
      cases runs : (state.store.publishFlush process prepared).run state.disk with
      | mk next outcome =>
        cases outcome with
        | error error => exact stays
        | ok result =>
          rcases publishFlush_eq_ok temporary file runs with
            same | ⟨previous, decoded, -, -, claims, isPublished, -⟩
          · simp only [same]
            exact stays
          · simp only [isPublished, publishedStore]
            rw [if_neg]
            · exact stays
            · intro same
              rw [awaits.built prepared flying] at same
              exact absurd later (same ▸ UInt64.lt_irrefl _)

end

end

/-! ## Runs -/

/-- In every run, publishing a flush leaves the points and the sequence of the collection as
they are, and the ids that were written since the flush was taken are dirty after it. -/
theorem publish_flush_invisible (arith : FloatArithmetic) (backend : IndexBackend)
    (config : CollectionConfig) (process : Nat) (durability : Durability)
    (commands : List SharedCommand) (client : Nat) :
    let state := (SharedState.opened backend config durability).run arith config process commands
    (state.step arith config process (.publishFlush client)).store.inner = state.store.inner ∧
    ∀ order between, state.flights client = none →
      (∀ command ∈ between, SharedCommand.Between client command) →
      let taken := state.step arith config process (.flushSnapshot client order)
      let before := taken.run arith config process between
      let published := before.step arith config process (.publishFlush client)
      published.store.inner = before.store.inner ∧
        ∀ id ∈ taken.writtenIds arith config process between, id ∈ published.store.dirtyIds := by
  intro state
  have indexed : Indexed config process state :=
    (Indexed.opened backend config process durability).run commands
  refine ⟨indexed.inner_publishFlush client, fun order between idle areBetween => ?_⟩
  intro taken before published
  have indexedBefore : Indexed config process before := (indexed.step _).run between
  refine ⟨indexedBefore.inner_publishFlush client, ?_⟩
  have awaits : Awaits client state.store.inner.sequence taken [] := by
    have isTaken : taken = state.setFlight client (some (.taken (state.store.flushSnapshot order))) := by
      simp only [taken, SharedState.step, idle]
    rw [isTaken]
    exact {
      taken := fun snapshot flying => by
        simp only [SharedState.setFlight, if_true] at flying
        cases flying
        rfl
      built := fun prepared flying => by
        simp only [SharedState.setFlight, if_true] at flying
        cases flying
      before := UInt64.le_refl _
      newer := by simp
      dirty := by simp }
  exact (awaits.run areBetween).publish indexedBefore

def takenFlush : SharedState .flat :=
  ((SharedState.opened .flat lineConfig .sync).run .normalised
    lineConfig 7 [.write (.upsert [⟨"a", [⟨0x3f800000⟩], ∅⟩])]).step .normalised
      lineConfig 7 (.flushSnapshot 0 .sorted)

/-- The flush is built and the point is written again, with another. -/
def lateWrites : List SharedCommand :=
  [.buildFlush 0 0, .write (.upsert [⟨"a", [⟨0x40000000⟩], ∅⟩, ⟨"b", [⟨0x3f800000⟩], ∅⟩])]

/-- A point that is written while a flush is built is still there, and dirty, when the flush is
published. -/
theorem late_write_stays_dirty :
    ((takenFlush.run .normalised lineConfig 7 lateWrites).step .normalised
        lineConfig 7 (.publishFlush 0)).store.inner =
      (takenFlush.run .normalised lineConfig 7 lateWrites).store.inner ∧
    "b" ∈ ((takenFlush.run .normalised lineConfig 7 lateWrites).step .normalised
        lineConfig 7 (.publishFlush 0)).store.dirtyIds := by
  have idle : ((SharedState.opened .flat lineConfig .sync).run .normalised
      lineConfig 7 [.write (.upsert [⟨"a", [⟨0x3f800000⟩], ∅⟩])]).flights 0 =
        none := by
    simp only [SharedState.run, List.foldl_cons, List.foldl_nil, SharedState.step]
    split <;> rfl
  have invisible := (publish_flush_invisible .normalised .flat lineConfig 7 .sync
    [.write (.upsert [⟨"a", [⟨0x3f800000⟩], ∅⟩])] 0).2 .sorted lateWrites idle
    (by simp [lateWrites, SharedCommand.Between])
  rw [takenFlush]
  exact And.imp_right (fun dirty => dirty "b" (by decide +kernel)) invisible

end FocalVector.Persistence
