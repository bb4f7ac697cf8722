import FocalVector.Foundation.FramedLog
import FocalVector.Persistence.Files
import FocalVector.Raft.Types

/-!
Contract: the journals of a Raft node.

The log store and the state machine each keep one append-only file of framed
JSON records. They differ in the magic, the size limit, the record type and the
texts of their errors, and in what a recovered record is folded into; the code
that appends and recovers is the same.

Checkpoints and snapshots are sealed documents, with a length and a checksum
around them, that replace a file as a whole.

Owns: `Journal`, appending and recovering records, sealed documents and the
replacement of a file, and what each leaves behind when it runs or dies.

Does not own: the meaning of a record. The seek positions of the open file are
left out: every append starts at the end of the file.
-/

namespace FocalVector.Raft

open FocalVector.Foundation FocalVector.Engine FocalVector.Persistence LittleEndian

/-- What tells one journal from the other. -/
structure Journal where
  file : String
  format : FrameFormat
  /-- The refusal of a record that exceeds the size limit. -/
  tooLarge : String
  fault : FrameFault → String

namespace Journal

variable {α σ : Type} {finite : α → Prop}

/-- `append_record`: a record that could not be appended is cut off again. -/
def append (journal : Journal) (form : JsonForm α finite) (record : α) : Fs Unit :=
  if journal.format.maxPayload < (form.toVec record).length then
    Program.raise (.io journal.tooLarge)
  else do
    let start ← readFile journal.file
    Program.rescue
      (do
        appendFile journal.file (journal.format.frame (form.toVec record))
        io .sync)
      (Program.attempt (.setLen journal.file start.length))

/-- The loop body of recovery, on a whole frame. -/
def recoverStep (form : JsonForm α finite) (step : σ → α → σ) (state : σ) (payload : Bytes) : Result σ :=
  match form.fromSlice payload with
  | .ok record => .ok (step state record)
  | .error message => .error (.io message)

/-- The state after the records of a journal, and the length of the part that is kept. -/
def recover (journal : Journal) (form : JsonForm α finite) (step : σ → α → σ) (bytes : Bytes) (state : σ) :
    Result (σ × Nat) :=
  journal.format.recover (fun fault _ => .io (journal.fault fault)) (recoverStep form step) bytes 0
    state

/-- Recovers the file and cuts it behind the last whole frame. -/
def recoverFile (journal : Journal) (form : JsonForm α finite) (step : σ → α → σ) (state : σ) : Fs σ := do
  let bytes ← readFile journal.file
  let (state, validLength) ← Program.ofExcept (journal.recover form step bytes state)
  setFileLength journal.file validLength
  io .sync
  return state

/-! ## What a journal holds -/

def bytes (journal : Journal) (form : JsonForm α finite) (records : List α) : Bytes :=
  journal.format.frames (records.map form.toVec)

/-- A record that recovery returns as it was written. -/
def Readable (journal : Journal) (form : JsonForm α finite) (record : α) : Prop :=
  (form.toVec record).length ≤ journal.format.maxPayload ∧
    form.fromSlice (form.toVec record) = .ok record

variable {journal : Journal} {form : JsonForm α finite} {step : σ → α → σ} {records : List α}
  {record : α}

theorem readable_iff : journal.Readable form record ↔
    (form.toVec record).length ≤ journal.format.maxPayload ∧ finite record := by
  unfold Readable
  rw [form.fromSlice_eq_ok_iff]

/-- `recover_records` collects the records as they are. -/
theorem foldl_concat (records : List α) :
    records.foldl (fun kept record => kept ++ [record]) [] = records := by
  rw [List.foldl_append_eq_append, List.nil_append, ← List.flatMap_def, List.flatMap_singleton']

theorem bytes_concat (record : α) :
    journal.bytes form (records ++ [record]) =
      journal.bytes form records ++ journal.format.frame (form.toVec record) := by
  simp [bytes, FrameFormat.frames]

private theorem fit (readable : ∀ record ∈ records, journal.Readable form record) :
    ∀ payload ∈ records.map form.toVec, payload.length ≤ journal.format.maxPayload := by
  intro payload member
  obtain ⟨record, isRecord, rfl⟩ := List.mem_map.mp member
  exact (readable record isRecord).1

theorem recoverStep_toVec (readable : journal.Readable form record) (state : σ) :
    recoverStep form step state (form.toVec record) = .ok (step state record) := by
  simp only [recoverStep, readable.2]

private theorem foldlM_recoverStep (readable : ∀ record ∈ records, journal.Readable form record)
    (state : σ) :
    (records.map form.toVec).foldlM (recoverStep form step) state =
      .ok (records.foldl step state) := by
  induction records generalizing state with
  | nil => rfl
  | cons head tail ih =>
    rw [List.map_cons, List.foldlM_cons,
      recoverStep_toVec (readable head List.mem_cons_self)]
    exact ih (fun record member =>
      readable record (List.mem_cons_of_mem _ member)) _

/-- Recovery folds the records and goes on behind them. -/
theorem recover_bytes_append (readable : ∀ record ∈ records, journal.Readable form record)
    (rest : Bytes) (state : σ) :
    journal.recover form step (journal.bytes form records ++ rest) state =
      journal.format.recover (fun fault _ => .io (journal.fault fault)) (recoverStep form step)
        rest (journal.bytes form records).length (records.foldl step state) := by
  unfold recover bytes
  rw [FrameFormat.recover_frames_append _ (fit readable), foldlM_recoverStep readable,
    Nat.zero_add]
  rfl

/-- The end of a journal that recovery drops: nothing, or part of one frame. -/
def TornEnd (journal : Journal) (rest : Bytes) : Prop :=
  rest = [] ∨ journal.format.scan rest = .torn

variable {rest : Bytes}

theorem recover_torn (readable : ∀ record ∈ records, journal.Readable form record)
    (torn : journal.TornEnd rest) (state : σ) :
    journal.recover form step (journal.bytes form records ++ rest) state =
      .ok (records.foldl step state, (journal.bytes form records).length) := by
  rw [recover_bytes_append readable]
  rcases torn with empty | torn
  · rw [empty, FrameFormat.recover_nil]
  · rw [FrameFormat.recover_torn torn]

theorem tornEnd_take
    (small : (form.toVec record).length ≤ journal.format.maxPayload) {length : Nat}
    (partly : length < (journal.format.frame (form.toVec record)).length) :
    journal.TornEnd ((journal.format.frame (form.toVec record)).take length) := by
  rcases Nat.eq_zero_or_pos length with none | some
  · exact .inl (by simp [none])
  · exact .inr (FrameFormat.scan_torn small some partly)

/-! ## Running -/

variable {disk : Directory} {old : Bytes}

private theorem run_writeFrame (found : disk journal.file = some old) :
    (do
      appendFile journal.file (journal.format.frame (form.toVec record))
      io .sync : Fs Unit).run disk =
      (disk.write journal.file (old ++ journal.format.frame (form.toVec record)), .ok ()) := by
  rw [Program.run_bind_ok (run_appendFile found)]
  rfl

theorem run_append (found : disk journal.file = some old)
    (small : (form.toVec record).length ≤ journal.format.maxPayload) :
    (journal.append form record).run disk =
      (disk.write journal.file (old ++ journal.format.frame (form.toVec record)), .ok ()) := by
  unfold append
  rw [if_neg (not_lt.mpr small), Program.run_bind_ok (run_readFile found),
    Program.run_rescue fun _ => rfl, run_writeFrame found]
  rfl

theorem run_append_large (large : journal.format.maxPayload < (form.toVec record).length) :
    (journal.append form record).run disk = (disk, .error (.io journal.tooLarge)) := by
  unfold append
  rw [if_pos large]
  rfl

variable {state : σ}

theorem run_recoverFile {final : σ} {validLength : Nat}
    (found : disk journal.file = some old)
    (recovers : journal.recover form step old state = .ok (final, validLength)) :
    (journal.recoverFile form step state).run disk =
      (disk.write journal.file (old.take validLength), .ok final) := by
  have within : validLength ≤ old.length := by
    have bound := FrameFormat.recover_le recovers
    omega
  unfold recoverFile
  rw [Program.run_bind_ok (run_readFile found), recovers]
  show (setFileLength journal.file validLength >>= fun _ => io .sync >>= fun _ => pure final).run
    disk = _
  rw [Program.run_bind_ok (run_setFileLength found within)]
  rfl

theorem run_recoverFile_error {error : Error} (found : disk journal.file = some old)
    (fails : journal.recover form step old state = .error error) :
    (journal.recoverFile form step state).run disk = (disk, .error error) := by
  unfold recoverFile
  rw [Program.run_bind_ok (run_readFile found), fails]
  exact Program.run_bind_error rfl

theorem run_recoverFile_torn
    (readable : ∀ record ∈ records, journal.Readable form record) (torn : journal.TornEnd rest)
    (found : disk journal.file = some (journal.bytes form records ++ rest)) :
    (journal.recoverFile form step state).run disk =
      (disk.write journal.file (journal.bytes form records), .ok (records.foldl step state)) := by
  rw [run_recoverFile found (recover_torn readable torn state), List.take_left]

/-! ## Crashes -/

/-- A crash of an append leaves some leading bytes of the frame. -/
theorem append_crash {state : Directory} (found : disk journal.file = some old)
    (crashed : state ∈ (journal.append form record).crashStates disk) :
    ∃ length, state = disk.write journal.file
        (old ++ (journal.format.frame (form.toVec record)).take length) ∧
      (journal.format.maxPayload < (form.toVec record).length → length = 0) := by
  have untouched : disk = disk.write journal.file
      (old ++ (journal.format.frame (form.toVec record)).take 0) := by
    rw [List.take_zero, List.append_nil, Disk.write_self found]
  unfold append at crashed
  split at crashed
  next large =>
    rw [Program.crashStates_raise, List.mem_singleton] at crashed
    exact ⟨0, crashed ▸ untouched, fun _ => rfl⟩
  next small =>
    rcases Program.mem_crashStates_bind.mp crashed with early | ⟨next, start, reads, later⟩
    · exact ⟨0, readFile_crash early ▸ untouched, fun large => absurd large small⟩
    rw [run_readFile found] at reads
    obtain ⟨rfl, -⟩ := Prod.mk.inj reads
    have frame := List.take_length (l := journal.format.frame (form.toVec record))
    rcases Program.mem_crashStates_settle later with within | behind
    · rcases Program.mem_crashStates_bind.mp within with writing | ⟨next, _, writes, syncing⟩
      · obtain ⟨length, torn⟩ := appendFile_crash found writing
        exact ⟨length, torn, fun large => absurd large small⟩
      · rw [run_appendFile found] at writes
        obtain ⟨rfl, -⟩ := Prod.mk.inj writes
        exact ⟨_, by rw [frame]; exact syncDirectory_crash syncing, fun large => absurd large small⟩
    · rw [run_writeFrame found] at behind
      exact ⟨_, by rw [frame]; exact List.mem_singleton.mp behind, fun large => absurd large small⟩

/-- A crash of recovery leaves the file as it was, or with its torn end cut off. -/
theorem recoverFile_crash {state : Directory} {initial : σ}
    (readable : ∀ record ∈ records, journal.Readable form record) (torn : journal.TornEnd rest)
    (found : disk journal.file = some (journal.bytes form records ++ rest))
    (crashed : state ∈ (journal.recoverFile form step initial).crashStates disk) :
    state = disk ∨ state = disk.write journal.file (journal.bytes form records) := by
  have within : (journal.bytes form records).length ≤
      (journal.bytes form records ++ rest).length := by
    rw [List.length_append]
    exact Nat.le_add_right _ _
  unfold recoverFile at crashed
  rcases Program.mem_crashStates_bind.mp crashed with reading | ⟨_, _, reads, recovering⟩
  · exact .inl (readFile_crash reading)
  rw [run_readFile found] at reads
  cases reads
  rw [recover_torn readable torn] at recovering
  rcases Program.mem_crashStates_bind.mp recovering with folding | ⟨_, _, folds, cutting⟩
  · exact .inl (List.mem_singleton.mp folding)
  cases folds
  rcases Program.mem_crashStates_bind.mp cutting with shortening | ⟨_, _, cuts, syncing⟩
  · have left := setFileLength_crash found within shortening
    rwa [List.take_left] at left
  rw [run_setFileLength found within, List.take_left] at cuts
  obtain ⟨rfl, -⟩ := Prod.mk.inj cuts
  rcases Program.mem_crashStates_bind.mp syncing with waiting | ⟨_, _, waits, finished⟩
  · exact .inr (syncDirectory_crash waiting)
  · cases waits
    exact .inr (List.mem_singleton.mp finished)

end Journal

/-! ## Sealed documents -/

/-- A document behind a magic, a version and its length, with its checksum. -/
def sealed (magic : Bytes) (version : UInt8) (payload : Bytes) : Bytes :=
  magic ++ [version] ++ u64Bytes (UInt64.ofNat payload.length) ++ payload ++
    u32Bytes (crc32c payload)

section Sealed

variable {magic payload : Bytes} {version : UInt8}

section

variable (fourBytes : magic.length = 4)

include fourBytes

theorem sealed_length : (sealed magic version payload).length = 17 + payload.length := by
  simp [sealed, fourBytes]
  omega

theorem sealed_magic : (sealed magic version payload).take 4 = magic := by
  simp only [sealed, List.append_assoc]
  exact List.take_left' fourBytes

theorem sealed_version : (sealed magic version payload)[4]? = some version := by
  simp only [sealed, List.append_assoc]
  rw [List.getElem?_append_right (by omega), fourBytes]
  rfl

theorem sealed_lengthField (small : payload.length < 2 ^ 64) :
    (u64OfBytes (((sealed magic version payload).drop 5).take 8)).toNat = payload.length := by
  have front : (magic ++ [version]).length = 5 := by simp [fourBytes]
  have field : ((sealed magic version payload).drop 5).take 8 =
      u64Bytes (UInt64.ofNat payload.length) := by
    rw [sealed, List.append_assoc, List.append_assoc, List.drop_left' front]
    exact List.take_left' (u64Bytes_length _)
  rw [field, u64OfBytes_u64Bytes, UInt64.toNat_ofNat', Nat.mod_eq_of_lt small]

private theorem drop_sealed :
    (sealed magic version payload).drop 13 = payload ++ u32Bytes (crc32c payload) := by
  have front : (magic ++ [version] ++ u64Bytes (UInt64.ofNat payload.length)).length = 13 := by
    simp [fourBytes]
  rw [sealed, List.append_assoc]
  exact List.drop_left' front

theorem sealed_payload :
    ((sealed magic version payload).drop 13).take payload.length = payload := by
  rw [drop_sealed fourBytes, List.take_left]

theorem sealed_checksum :
    u32OfBytes ((sealed magic version payload).drop (13 + payload.length)) = crc32c payload := by
  rw [← List.drop_drop, drop_sealed fourBytes, List.drop_left, u32OfBytes_u32Bytes]

end

end Sealed

/-! ## Replacing a file -/

def openTruncated (name : String) : Fs Unit := do
  io (.touch name)
  setFileLength name 0

def writeTruncated (name : String) (bytes : Bytes) : Fs Unit := do
  openTruncated name
  appendFile name bytes
  io .sync

/-- Writes a file under a temporary name and moves it to its place. -/
def replaceFile (temporary target : String) (bytes : Bytes) : Fs Unit := do
  writeTruncated temporary bytes
  renameFile temporary target
  syncDirectory

section Replacing

private theorem run_openTruncated (disk : Directory) (name : String) :
    ∃ next : Directory, (openTruncated name).run disk = (next, .ok ()) ∧
      next name = some [] ∧ ∀ file ≠ name, next file = disk file := by
  cases found : disk name with
  | some old =>
    refine ⟨disk.write name (old.take 0), ?_, by simp, fun file differ =>
      Disk.write_other _ _ differ⟩
    have touched : (io (.touch name)).run disk = (disk, .ok ()) := run_openOrCreate found
    rw [openTruncated, Program.run_bind_ok touched]
    exact run_setFileLength found (Nat.zero_le _)
  | none =>
    refine ⟨(disk.write name []).write name [], ?_, by simp, fun file differ => ?_⟩
    · have touched : (io (.touch name)).run disk = (disk.write name [], .ok ()) :=
        run_openOrCreate_missing found
      rw [openTruncated, Program.run_bind_ok touched]
      exact run_setFileLength (Disk.write_same _ _ _) (Nat.zero_le _)
    · rw [Disk.write_other _ _ differ, Disk.write_other _ _ differ]

theorem run_writeTruncated (disk : Directory) (name : String) (bytes : Bytes) :
    ∃ next : Directory, (writeTruncated name bytes).run disk = (next, .ok ()) ∧
      next name = some bytes ∧ ∀ file ≠ name, next file = disk file := by
  obtain ⟨opened, opens, empty, others⟩ := run_openTruncated disk name
  refine ⟨opened.write name ([] ++ bytes), ?_, by simp, fun file differ => ?_⟩
  · rw [writeTruncated, Program.run_bind_ok opens, Program.run_bind_ok (run_appendFile empty)]
    rfl
  · rw [Disk.write_other _ _ differ, others file differ]

theorem writeTruncated_avoids {name file : String} (differ : file ≠ name) (bytes : Bytes) :
    (writeTruncated name bytes).Avoids file := by
  have other : file ∉ [name] := by simpa using differ
  refine Program.Avoids.bind (Program.Avoids.bind (avoids_io other) fun _ => avoids_io other)
    fun _ => Program.Avoids.bind (avoids_io other) fun _ => avoids_io ?_
  exact List.not_mem_nil

theorem run_replaceFile (disk : Directory) (temporary target : String) (bytes : Bytes) :
    ∃ next : Directory, (replaceFile temporary target bytes).run disk = (next, .ok ()) ∧
      next target = some bytes ∧ ∀ file, file ≠ temporary → file ≠ target →
        next file = disk file := by
  obtain ⟨written, writes, holds, others⟩ := run_writeTruncated disk temporary bytes
  refine ⟨(written.erase temporary).write target bytes, ?_, by simp, fun file left right => ?_⟩
  · rw [replaceFile, Program.run_bind_ok writes, Program.run_bind_ok (run_renameFile holds)]
    rfl
  · rw [Disk.write_other _ _ right, Disk.erase_other _ left, others file left]

/-- A crash leaves the target as it was or replaced. -/
theorem replaceFile_crash {disk state : Directory} {temporary target : String} {bytes : Bytes}
    (apart : target ≠ temporary)
    (crashed : state ∈ (replaceFile temporary target bytes).crashStates disk) :
    (state target = disk target ∨ state target = some bytes) ∧
      ∀ file, file ≠ temporary → file ≠ target → state file = disk file := by
  rcases Program.mem_crashStates_bind.mp crashed with writing | ⟨written, _, writes, later⟩
  · have kept : ∀ file ≠ temporary, state file = disk file := fun file differ =>
      (writeTruncated_avoids differ bytes).crash writing
    exact ⟨.inl (kept target apart), fun file left _ => kept file left⟩
  obtain ⟨next, runs, holds, others⟩ := run_writeTruncated disk temporary bytes
  rw [runs] at writes
  obtain ⟨rfl, -⟩ := Prod.mk.inj writes
  have renamed : state = next ∨ state = (next.erase temporary).write target bytes := by
    rcases Program.mem_crashStates_bind.mp later with moving | ⟨final, _, renames, syncing⟩
    · rw [renameFile, io, Program.crashStates_demand] at moving
      simpa [FileOp.during, FileOp.after, holds] using moving
    · rw [run_renameFile holds] at renames
      obtain ⟨rfl, -⟩ := Prod.mk.inj renames
      exact .inr (syncDirectory_crash syncing)
  rcases renamed with rfl | rfl
  · exact ⟨.inl (others target apart), fun file left _ => others file left⟩
  · refine ⟨.inr (Disk.write_same _ _ _), fun file left right => ?_⟩
    rw [Disk.write_other _ _ right, Disk.erase_other _ left, others file left]

end Replacing

end FocalVector.Raft
