import FocalVector.Foundation.Faults
import FocalVector.Persistence.Live

/-!
Contract: writes whose file operations fail.

A write that could not be appended is cut off the log again. When cutting it off fails
too, a part of its frame stays, up to all of it. Nothing is wrong with such a log yet.
But the next write is appended behind the remains under the same sequence: behind a
whole frame it counts as applied already, and behind a part of one nothing is read any
more.

Owns: calls with faults, and when what was acknowledged survives them.

Does not own: faults while a collection is opened or flushed.
-/

namespace FocalVector.Persistence

open FocalVector.Foundation FocalVector.Engine LittleEndian

/-! ## One append -/

section Appending

variable {arith : FloatArithmetic} {backend : IndexBackend} {disk : Directory} {wal : Bytes}
  {durability : Durability} {payload : Bytes}

/-- How an append ends. Its operations find the end of the log, write the frame, sync it
where the durability asks for that, and cut the frame off when one of them failed. -/
inductive AppendEnd where
  | appended
  | cutOff
  | left

def appendEnd : Durability → List Fate → AppendEnd
  | _, .fails _ :: _ => .cutOff
  | _, .works :: .fails _ :: .fails _ :: _ => .left
  | _, .works :: .fails _ :: _ => .cutOff
  | .sync, .works :: .works :: .fails _ :: .fails _ :: _ => .left
  | .sync, .works :: .works :: .fails _ :: _ => .cutOff
  | _, _ => .appended

theorem runFated_appendFrame (found : disk walName = some wal) (small : payload.length < 2 ^ 32)
    (durability : Durability) (fates : List Fate) :
    let runs := (appendFrame durability payload).runFated fates disk
    match appendEnd durability fates with
    | .appended => ∃ rest, runs =
        (disk.write walName (wal ++ walFormat.frame payload), .ok (), rest)
    | .cutOff => ∃ error rest, runs = (disk, .error error, rest)
    | .left => ∃ kept error rest, runs =
        (disk.write walName (wal ++ (walFormat.frame payload).take kept), .error error, rest) := by
  unfold appendFrame readFile appendFile
  rw [if_pos small]
  -- One case for each fate of an operation; an operation without a fate works.
  rcases fates with _ | ⟨_ | _, _ | ⟨_ | kept, _ | ⟨_ | _, _ | ⟨_ | _, rest⟩⟩⟩⟩ <;>
    cases durability <;>
    simp [appendEnd, settleLog, io, Program.demand, Program.rescue, Program.settle,
      Program.onFailure, Program.attempt, Program.runFated, Bind.bind, Program.bind, Pure.pure,
      FileOp.answer, FileOp.after, FileOp.broken, found, Disk.write_write, Disk.write_self found]
  all_goals first
    | exact ⟨kept, rfl⟩
    -- The frame was written and not synced.
    | exact ⟨(walFormat.frame payload).length, by rw [List.take_length]⟩

/-- A call fails without a trace in the log, commits its batch, or fails with a part of its
frame in the log. -/
theorem runFated_perform (arith : FloatArithmetic) (store : PersistentCollection backend)
    (found : disk walName = some wal) (request : Request) (fates : List Fate) :
    let runs := (store.perform arith request).runFated fates disk
    (∃ error rest, runs = (disk, .error error, rest)) ∨
    ∃ write, store.batch arith request = .ok write ∧
      Appended arith store.inner.config (store.inner.sequence.toNat + 1) [write] ∧
      (appendEnd store.durability fates = .appended ∧ (∃ sequence rest, runs =
        (disk.write walName (wal ++ walBytes (store.inner.sequence.toNat + 1) [write]),
          .ok (store.committed write, sequence), rest)) ∨
      appendEnd store.durability fates = .left ∧ ∃ kept error rest, runs =
        (disk.write walName (wal ++ (walBytes (store.inner.sequence.toNat + 1) [write]).take kept),
          .error error, rest)) := by
  intro runs
  rcases perform_cases arith store request with ⟨error, isRaise⟩ |
    ⟨write, sequence, payload, isBatch, granted, accepted, encoded, isAppend⟩
  · exact .inl ⟨error, fates, by simp only [runs, isRaise]; rfl⟩
  simp only [runs, isAppend]
  by_cases small : payload.length < 2 ^ 32
  · obtain ⟨-, -, isRecord⟩ := encodeWrite_eq_ok encoded
    have ends := runFated_appendFrame found small store.durability fates
    have frame : walFormat.frame payload =
        walBytes (store.inner.sequence.toNat + 1) [write] := by
      rw [walBytes_singleton, ← ofNat_nextSequence granted, ← isRecord]
    rw [frame] at ends
    have appended := appended_singleton granted accepted encoded small
    cases isEnd : appendEnd store.durability fates with
    | appended =>
      rw [isEnd] at ends
      obtain ⟨rest, works⟩ := ends
      exact .inr ⟨write, isBatch, appended, .inl ⟨rfl, sequence, rest,
        Program.runFated_bind_ok works⟩⟩
    | cutOff =>
      rw [isEnd] at ends
      obtain ⟨error, rest, fails⟩ := ends
      exact .inl ⟨error, rest, Program.runFated_bind_error fails⟩
    | left =>
      rw [isEnd] at ends
      obtain ⟨kept, error, rest, fails⟩ := ends
      exact .inr ⟨write, isBatch, appended, .inr ⟨rfl, kept, error, rest,
        Program.runFated_bind_error fails⟩⟩
  · refine .inl ⟨.invalidQuery "WAL record is too large", fates, ?_⟩
    unfold appendFrame
    rw [if_neg small]
    rfl

end Appending

/-! ## Sequences of calls -/

structure FatedCall where
  request : Request
  fates : List Fate

structure CallState (backend : IndexBackend) where
  disk : Directory
  store : PersistentCollection backend

namespace CallState

variable {backend : IndexBackend} (arith : FloatArithmetic) (state : CallState backend)

/-- `PersistentCollection::upsert` and `PersistentCollection::delete` with faults. -/
def call (call : FatedCall) : CallState backend × Result UInt64 :=
  match (state.store.perform arith call.request).runFated call.fates state.disk with
  | (disk, .ok (store, sequence), _) => (⟨disk, store⟩, .ok sequence)
  | (disk, .error error, _) => (⟨disk, state.store⟩, .error error)

def run (calls : List FatedCall) : CallState backend :=
  calls.foldl (fun current call => (current.call arith call).1) state

def acknowledged (state : CallState backend) : List FatedCall → List Write
  | [] => []
  | call :: calls =>
    match (state.call arith call).2, state.store.batch arith call.request with
    | .ok _, .ok write => write :: (state.call arith call).1.acknowledged calls
    | _, _ => (state.call arith call).1.acknowledged calls

/-- Recovery would take the batch of the call as it is. -/
def Replays (call : FatedCall) : Prop :=
  ∀ write, state.store.batch arith call.request = .ok write →
    Faithful arith state.store.inner.config write

/-- The operations of the call work, and recovery would take its batch as it is; or one of
them fails, and the one that cuts off the frame works. -/
def Meets (call : FatedCall) : Prop :=
  match appendEnd state.store.durability call.fates with
  | .appended => state.Replays arith call
  | .cutOff => True
  | .left => False

def MeetsAll (state : CallState backend) : List FatedCall → Prop
  | [] => True
  | call :: calls => state.Meets arith call ∧ (state.call arith call).1.MeetsAll calls

theorem acknowledged_cons (call : FatedCall) (calls : List FatedCall) :
    state.acknowledged arith (call :: calls) =
      state.acknowledged arith [call] ++ (state.call arith call).1.acknowledged arith calls := by
  simp only [acknowledged]
  split <;> rfl

theorem store_of_error {call : FatedCall} {error : Error}
    (fails : (state.call arith call).2 = .error error) :
    (state.call arith call).1.store = state.store := by
  unfold CallState.call at fails ⊢
  split at fails
  · cases fails
  · rfl

end CallState

section Survival

variable {arith : FloatArithmetic} {backend : IndexBackend} {config : CollectionConfig}
  {process : Nat} {state : CallState backend} {log : List Write}
  {chain : List (DecodedSegment backend)} {count start : Nat} {write : Write}

/-- The collection is live, and its log is read to its end. -/
structure Reopenable (arith : FloatArithmetic) (config : CollectionConfig) (process : Nat)
    (state : CallState backend) (log : List Write) (chain : List (DecodedSegment backend))
    (count start : Nat) : Prop where
  live : Live arith backend config process state.disk state.store log chain count start
  readable : Readable arith config count (1 + start) (log.drop start)

namespace Reopenable

theorem opens (reopenable : Reopenable arith config process state log chain count start)
    (positive : config.dimension ≠ 0) (durability : Durability) :
    ∃ reopened, (openCollection arith backend config durability).run state.disk =
      (state.disk, .ok reopened) ∧ reopened.inner = state.store.inner := by
  obtain ⟨reopened, opens, sameInner, -⟩ :=
    reopenable.live.opens durability positive reopenable.readable
  exact ⟨reopened, opens, sameInner⟩

theorem append (reopenable : Reopenable arith config process state log chain count start)
    (appended : Appended arith state.store.inner.config (state.store.inner.sequence.toNat + 1)
      [write])
    (faithful : Faithful arith state.store.inner.config write) :
    Reopenable arith config process
      ⟨state.disk.write walName (walBytes (1 + start) (log.drop start) ++
        walBytes (state.store.inner.sequence.toNat + 1) [write]), state.store.committed write⟩
      (log ++ [write]) chain count start := by
  have live := reopenable.live
  have within := live.onDisk.base.within
  have overlap := live.onDisk.overlap
  rw [live.sameConfig] at faithful
  rw [live.log_next]
  refine ⟨live.append appended faithful.2, ?_⟩
  rw [List.drop_append_of_le_length (by omega)]
  exact reopenable.readable.append faithful

theorem call (reopenable : Reopenable arith config process state log chain count start)
    {call : FatedCall} (meets : state.Meets arith call) :
    Reopenable arith config process (state.call arith call).1
      (log ++ state.acknowledged arith [call]) chain count start := by
  have logged := reopenable.live.onDisk.logged
  unfold CallState.Meets at meets
  simp only [CallState.acknowledged]
  rcases runFated_perform arith state.store logged call.request call.fates with
    ⟨error, rest, refused⟩ | ⟨write, isBatch, appended, ⟨isEnd, sequence, rest, commits⟩ |
      ⟨isEnd, -⟩⟩
  · simp only [CallState.call, refused, List.append_nil]
    exact reopenable
  · rw [isEnd] at meets
    simp only [CallState.call, commits, isBatch]
    exact reopenable.append appended (meets write isBatch)
  · rw [isEnd] at meets
    exact meets.elim

theorem run (reopenable : Reopenable arith config process state log chain count start)
    {calls : List FatedCall} (meets : state.MeetsAll arith calls) :
    Reopenable arith config process (state.run arith calls)
      (log ++ state.acknowledged arith calls) chain count start := by
  induction calls generalizing state log with
  | nil =>
    rw [CallState.acknowledged, List.append_nil]
    exact reopenable
  | cons call calls ih =>
    rw [CallState.acknowledged_cons, ← List.append_assoc]
    exact ih (reopenable.call meets.1) meets.2

/-- Whatever the last call leaves in the log, the directory opens to what the collection
holds, or to that and the batch of the failed call. -/
theorem opens_after (reopenable : Reopenable arith config process state log chain count start)
    (positive : config.dimension ≠ 0) (durability : Durability) {last : FatedCall}
    (replays : state.Replays arith last) :
    ∃ disk reopened, (openCollection arith backend config durability).run
        (state.call arith last).1.disk = (disk, .ok reopened) ∧
      (reopened.inner = (state.call arith last).1.store.inner ∨
        ∃ error write, (state.call arith last).2 = .error error ∧
          state.store.batch arith last.request = .ok write ∧
          reopened.inner = commit state.store.inner write) := by
  have live := reopenable.live
  rcases runFated_perform arith state.store live.onDisk.logged last.request last.fates with
    ⟨error, rest, refused⟩ | ⟨write, isBatch, appended, ⟨-, sequence, rest, commits⟩ |
      ⟨-, kept, error, rest, fails⟩⟩
  · obtain ⟨reopened, opens, sameInner⟩ := reopenable.opens positive durability
    simp only [CallState.call, refused]
    exact ⟨_, reopened, opens, .inl sameInner⟩
  · obtain ⟨reopened, opens, sameInner⟩ :=
      (reopenable.append appended (replays write isBatch)).opens positive durability
    simp only [CallState.call, commits]
    exact ⟨_, reopened, opens, .inl sameInner⟩
  · simp only [CallState.call, fails]
    -- All of the frame is left, or recovery cuts off what is left of it.
    by_cases whole : (walBytes (state.store.inner.sequence.toNat + 1) [write]).length ≤ kept
    · obtain ⟨reopened, opens, sameInner⟩ :=
        (reopenable.append appended (replays write isBatch)).opens positive durability
      rw [List.take_of_length_le whole]
      exact ⟨_, reopened, opens, .inr ⟨error, write, rfl, isBatch, sameInner⟩⟩
    · have torn := torn_walBytes (replays write isBatch).1.2 (state.store.inner.sequence.toNat + 1)
        (not_le.mp whole)
      exact ⟨_, _, live.onDisk.opens_torn positive live.recorded live.replays reopenable.readable
        torn, .inl live.inner.symm⟩

end Reopenable

/-- After calls in which the frame of a failed append is cut off, and one more call with any
faults, opening the directory brings back what was acknowledged, with at most the batch of
that last call on top. -/
theorem acknowledged_writes_survive (positive : config.dimension ≠ 0)
    (reopenable : Reopenable arith config process state log chain count start)
    (calls : List FatedCall) (meets : state.MeetsAll arith calls) (last : FatedCall)
    (replays : (state.run arith calls).Replays arith last) (durability : Durability) :
    let reached := state.run arith calls
    let after := reached.call arith last
    reached.store.inner = commitAll state.store.inner (state.acknowledged arith calls) ∧
      (∀ error, after.2 = .error error → after.1.store = reached.store) ∧
      (∃ reopened, (openCollection arith backend config durability).run reached.disk =
        (reached.disk, .ok reopened) ∧ reopened.inner = reached.store.inner) ∧
      ∃ disk reopened, (openCollection arith backend config durability).run after.1.disk =
          (disk, .ok reopened) ∧
        (reopened.inner = after.1.store.inner ∨
          ∃ error write, after.2 = .error error ∧
            reached.store.batch arith last.request = .ok write ∧
            reopened.inner = commit reached.store.inner write) := by
  intro reached after
  have kept := reopenable.run meets
  refine ⟨?_, fun error fails => CallState.store_of_error arith reached fails,
    kept.opens positive durability, kept.opens_after positive durability replays⟩
  rw [kept.live.inner, reopenable.live.inner, history, history, List.take_length, List.take_length,
    commitAll_append]

def CallState.opened (backend : IndexBackend) (config : CollectionConfig)
    (durability : Durability) : CallState backend where
  disk := newDirectory config
  store := newStore backend config durability

theorem Reopenable.opened (arith : FloatArithmetic) (backend : IndexBackend)
    (config : CollectionConfig) (process : Nat) (durability : Durability) :
    Reopenable arith config process (CallState.opened backend config durability) [] [] 0 0 where
  live := .opened arith backend config process durability
  readable := ⟨by simp, by simp⟩

/-- The first delete succeeds, the second is cut off the log again, and of the third a
part stays: the directory opens with what the first did. -/
theorem delete_survives_faults :
    let config : CollectionConfig := ⟨1, .euclidean, by decide⟩
    let opened := CallState.opened .flat config .sync
    let calls : List FatedCall := [⟨.delete ["a"], []⟩, ⟨.delete ["b"], [.works, .fails 3]⟩]
    let last : FatedCall := ⟨.delete ["c"], [.works, .fails 3, .fails 0]⟩
    (opened.acknowledged .normalised calls).map Write.ids = [["a"]] ∧
      (opened.run .normalised calls).store.inner =
        commitAll opened.store.inner (opened.acknowledged .normalised calls) ∧
      ∃ disk reopened, (openCollection .normalised .flat config .sync).run
        ((opened.run .normalised calls).call .normalised last).1.disk = (disk, .ok reopened) := by
  intro config opened calls last
  have faithful (id : String) (short : Recoverable (.delete [id]))
      (state : CallState .flat) (fates : List Fate) :
      state.Replays .normalised ⟨.delete [id], fates⟩ := by
    intro write isBatch
    rw [PersistentCollection.batch_delete, Except.ok.injEq] at isBatch
    rw [← isBatch]
    exact ⟨short, rfl⟩
  have meets : opened.MeetsAll .normalised calls :=
    ⟨faithful "a" (by decide) _ _, trivial, trivial⟩
  have reopenable : Reopenable .normalised config 7 opened [] [] 0 0 :=
    .opened .normalised .flat config 7 .sync
  obtain ⟨acknowledged, -, -, disk, reopened, opens, -⟩ := acknowledged_writes_survive (by decide)
    reopenable calls meets last (faithful "c" (by decide) _ _) .sync
  exact ⟨by decide +kernel, acknowledged, disk, reopened, opens⟩

/-- An upsert whose frame is written but not synced, and then not cut off, leaves its
frame behind. The next upsert is acknowledged, and opening the directory loses it. -/
theorem retained_frame_hides_acknowledged_write :
    let config : CollectionConfig := ⟨1, .euclidean, by decide⟩
    let point (id : String) : Request := .upsert [⟨id, [⟨0x3f800000⟩], ∅⟩]
    let first := (CallState.opened .flat config .sync).call .normalised
      ⟨point "a", [.works, .works, .fails 0, .fails 0]⟩
    let second := first.1.call .normalised ⟨point "b", []⟩
    first.2.isOk = false ∧ second.2 = .ok 1 ∧
      (second.1.store.inner.points.get "b").isSome = true ∧
      ∃ reopened, ((openCollection .normalised .flat config .sync).run second.1.disk).2 =
          .ok reopened ∧
        (reopened.inner.points.get "b").isSome = false ∧
        (reopened.inner.points.get "a").isSome = true := by
  intro config point first second
  have opens : ((openCollection .normalised .flat config .sync).run second.1.disk).2.toOption.map
      (fun reopened => ((reopened.inner.points.get "b").isSome,
        (reopened.inner.points.get "a").isSome)) = some (false, true) := by
    decide +kernel
  obtain ⟨reopened, isOpen, found⟩ := Option.map_eq_some_iff.mp opens
  rw [Prod.mk.injEq] at found
  exact ⟨by decide +kernel, by decide +kernel, by decide +kernel, reopened,
    eq_ok_of_toOption isOpen, found⟩

end Survival

end FocalVector.Persistence
