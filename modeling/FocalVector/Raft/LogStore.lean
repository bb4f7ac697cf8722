import FocalVector.Foundation.Overwrite
import FocalVector.Raft.Journal

/-!
Contract: the durable Raft log store.

The state is the vote, the committed id, the last purged id and the entries by
index. Every change is a record: appended to the journal, then applied. A purge
also writes the whole state as a checkpoint and empties the journal.

A record overwrites what it touches without looking at it. That is why a
journal may be replayed over a checkpoint that already contains its effects,
which is what a crash between checkpoint and truncation leaves to the next open.

Owns: `JournalState.apply` and its algebra, `writeRecord` and `openLog`.

Does not own: the reads of the log, which only look at the state, and the
kinds of storage errors OpenRaft tells apart.
-/

namespace FocalVector.Raft

open FocalVector.Foundation FocalVector.Engine FocalVector.Persistence LittleEndian

namespace JournalState

/-- `JournalState::default`. -/
def initial : JournalState := ⟨none, none, none, ∅⟩

def insertEntry (entries : Std.ExtTreeMap UInt64 Entry) (entry : Entry) :
    Std.ExtTreeMap UInt64 Entry :=
  entries.insert entry.logId.index entry

def apply (state : JournalState) : JournalRecord → JournalState
  | .saveVote vote => { state with vote := some vote }
  | .saveCommitted committed => { state with committed }
  | .append entries => { state with entries := entries.foldl insertEntry state.entries }
  | .truncate logId =>
    -- `split_off` leaves the entries below the index.
    { state with entries := state.entries.filter fun index _ => decide (index < logId.index) }
  | .purge logId =>
    { state with
      lastPurged := some logId
      entries := state.entries.filter fun index _ => decide (logId.index + 1 ≤ index) }

end JournalState

/-! ## Records overwrite -/

/-- The cells of a state that a record can set. -/
inductive JournalKey where
  | vote
  | committed
  | lastPurged
  | entry (index : UInt64)

inductive JournalCell where
  | vote (vote : Vote)
  | logId (logId : LogId)
  | entry (entry : Entry)

namespace JournalState

def lookup (state : JournalState) : JournalKey → Option JournalCell
  | .vote => state.vote.map .vote
  | .committed => state.committed.map .logId
  | .lastPurged => state.lastPurged.map .logId
  | .entry index => state.entries[index]?.map .entry

theorem ext_lookup {left right : JournalState} (same : left.lookup = right.lookup) :
    left = right := by
  have vote := congrFun same .vote
  have committed := congrFun same .committed
  have lastPurged := congrFun same .lastPurged
  have entries : left.entries = right.entries := by
    refine Std.ExtTreeMap.ext_getElem? fun index => ?_
    exact Option.map_injective (fun _ _ => JournalCell.entry.inj) (congrFun same (.entry index))
  have sameVote := Option.map_injective (fun _ _ => JournalCell.vote.inj) vote
  have sameCommitted := Option.map_injective (fun _ _ => JournalCell.logId.inj) committed
  have samePurged := Option.map_injective (fun _ _ => JournalCell.logId.inj) lastPurged
  cases left
  cases right
  simp_all

end JournalState

def JournalRecord.effect : JournalRecord → Overwrite JournalKey JournalCell
  | .saveVote vote => fun
      | .vote => some (some (.vote vote))
      | _ => none
  | .saveCommitted committed => fun
      | .committed => some (committed.map .logId)
      | _ => none
  | .append entries => fun
      | .entry index =>
        (entries.reverse.find? (·.logId.index = index)).map fun entry => some (.entry entry)
      | _ => none
  | .truncate logId => fun
      | .entry index => if index < logId.index then none else some none
      | _ => none
  | .purge logId => fun
      | .lastPurged => some (some (.logId logId))
      | .entry index => if logId.index + 1 ≤ index then none else some none
      | _ => none

namespace JournalState

theorem getElem?_foldl_insertEntry (entries : List Entry)
    (map : Std.ExtTreeMap UInt64 Entry) (index : UInt64) :
    (entries.foldl insertEntry map)[index]? =
      (entries.reverse.find? (·.logId.index = index)).or map[index]? := by
  induction entries generalizing map with
  | nil => rfl
  | cons entry rest ih =>
    rw [List.foldl_cons, ih, List.reverse_cons, List.find?_append,
      Option.or_assoc]
    congr 1
    by_cases same : entry.logId.index = index <;>
      simp [insertEntry, Std.ExtTreeMap.getElem?_insert, same]

/-- Applying a record overwrites the cells it touches. -/
theorem lookup_apply (state : JournalState) (record : JournalRecord) :
    (state.apply record).lookup = record.effect.apply state.lookup := by
  funext key
  cases record with
  | saveVote vote => cases key <;> rfl
  | saveCommitted committed => cases key <;> rfl
  | append entries =>
    cases key with
    | vote => rfl
    | committed => rfl
    | lastPurged => rfl
    | entry index =>
      simp only [lookup, apply, getElem?_foldl_insertEntry, JournalRecord.effect,
        Overwrite.apply]
      cases entries.reverse.find? (·.logId.index = index) <;> rfl
  | truncate logId =>
    cases key with
    | vote => rfl
    | committed => rfl
    | lastPurged => rfl
    | entry index =>
      simp only [lookup, apply, Std.ExtTreeMap.getElem?_filter', JournalRecord.effect,
        Overwrite.apply]
      by_cases below : index < logId.index
      · cases state.entries[index]? <;> simp [below]
      · cases state.entries[index]? <;> simp [below]
  | purge logId =>
    cases key with
    | vote => rfl
    | committed => rfl
    | lastPurged => rfl
    | entry index =>
      simp only [lookup, apply, Std.ExtTreeMap.getElem?_filter', JournalRecord.effect,
        Overwrite.apply]
      by_cases above : logId.index + 1 ≤ index
      · cases state.entries[index]? <;> simp [above]
      · cases state.entries[index]? <;> simp [above]

theorem lookup_foldl_apply (records : List JournalRecord) (state : JournalState) :
    (records.foldl apply state).lookup =
      Overwrite.applyAll (records.map JournalRecord.effect) state.lookup := by
  induction records generalizing state with
  | nil => rfl
  | cons record rest ih =>
    rw [List.foldl_cons, ih, lookup_apply]
    rfl

theorem foldl_apply_replay (records : List JournalRecord) (state : JournalState) :
    records.foldl apply (records.foldl apply state) = records.foldl apply state := by
  apply ext_lookup
  rw [lookup_foldl_apply, lookup_foldl_apply, Overwrite.applyAll_replay]

end JournalState

/-! ## Durable forms -/

def raftJournal : Journal where
  file := "raft.journal"
  format := {
    header := [0x46, 0x56, 0x52, 0x4a, 1]
    maxPayload := 64 * 1024 * 1024
    checksum := crc32c
    maxPayload_lt := by decide
    detects := fun left right _ _ differ => crc32c_single_byte left right differ }
  tooLarge := "Raft journal record exceeds size limit"
  fault
    | .badHeader => "invalid Raft journal header"
    | .tooLong => "Raft journal record exceeds size limit"
    | .badChecksum => "Raft journal checksum mismatch"

def checkpointName : String := "raft.checkpoint"

def checkpointTemporaryName (process : Nat) : String :=
  ".raft.checkpoint.tmp-" ++ toString process

def checkpointMagic : Bytes := [0x46, 0x56, 0x52, 0x43]

def journalVersion : UInt8 := 1

def maxCheckpointBytes : Nat := 512 * 1024 * 1024

/-! ## Programs -/

section Programs

variable (json : SerdeJson)

def checkpointBytes (state : JournalState) : Bytes :=
  sealed checkpointMagic journalVersion (json.journalState.toVec state)

/-- `read_checkpoint` on the bytes of the file. -/
def decodeCheckpoint (bytes : Bytes) : Result JournalState :=
  if bytes.length < 17 ∨ bytes.take 4 ≠ checkpointMagic ∨ bytes[4]? ≠ some journalVersion then
    .error (.io "invalid Raft checkpoint header")
  else
    let length := (u64OfBytes ((bytes.drop 5).take 8)).toNat
    if maxCheckpointBytes < length ∨ bytes.length ≠ 13 + length + 4 then
      .error (.io "invalid Raft checkpoint length")
    else
      let payload := (bytes.drop 13).take length
      if crc32c payload ≠ u32OfBytes (bytes.drop (13 + length)) then
        .error (.io "Raft checkpoint checksum mismatch")
      else
        (json.journalState.fromSlice payload).mapError .io

def readCheckpoint : Fs (Option JournalState) := do
  if ← fileExists checkpointName then
    let bytes ← readFile checkpointName
    let state ← Program.ofExcept (decodeCheckpoint json bytes)
    return some state
  else
    return none

/-- `DurableRaftLog::open`. -/
def openLog : Fs JournalState := do
  openOrCreate raftJournal.file
  let checkpoint ← readCheckpoint json
  raftJournal.recoverFile json.journalRecord JournalState.apply
    (checkpoint.getD JournalState.initial)

def writeCheckpoint (process : Nat) (state : JournalState) : Fs Unit :=
  if maxCheckpointBytes < (json.journalState.toVec state).length then
    Program.raise (.io "Raft checkpoint exceeds size limit")
  else
    replaceFile (checkpointTemporaryName process) checkpointName (checkpointBytes json state)

/-- `should_checkpoint`. -/
def JournalRecord.isPurge : JournalRecord → Bool
  | .purge _ => true
  | _ => false

/-- The second half of `write_record` for a purge. -/
def compactLog (process : Nat) (state : JournalState) : Fs Unit := do
  writeCheckpoint json process state
  setFileLength raftJournal.file 0
  io .sync

/-- `write_record`: the state the store goes on with, and how the call ended. -/
def writeRecord (process : Nat) (state : JournalState) (record : JournalRecord) :
    Fs (JournalState × Result Unit) := do
  match ← (raftJournal.append json.journalRecord record).capture with
  | .error error => return (state, .error error)
  | .ok () =>
    let applied := state.apply record
    if record.isPurge then
      let ended ← (compactLog json process applied).capture
      return (applied, ended)
    else
      return (applied, .ok ())

end Programs

end FocalVector.Raft
