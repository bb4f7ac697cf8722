import FocalVector.Engine.Values
import FocalVector.Foundation.Storage

/-!
Contract: the names of the files of a collection directory.

Owns: the file programs of the storage engine, the fixed names, the names
derived from a sequence, and that no two of them collide.

Does not own: the lock file, which no other file depends on, or the contents of
any file.
-/

namespace FocalVector.Persistence

open FocalVector.Foundation FocalVector.Engine

abbrev Directory := Disk String

/-- A file program of the storage engine. -/
abbrev Fs (α : Type) := Program String Error α

/-- Perform a file operation and pass on its failure. -/
def io (op : FileOp String) : Fs op.Answer := Program.demand Error.io op

def fileExists (name : String) : Fs Bool := io (.probe name)

def readFile (name : String) : Fs Bytes := io (.read name)

def openOrCreate (name : String) : Fs Unit := io (.touch name)

/-- `write_new_file`: create a file that must not exist yet. -/
def writeNewFile (name : String) (bytes : Bytes) : Fs Unit := do
  io (.createNew name bytes)
  io .sync

def appendFile (name : String) (bytes : Bytes) : Fs Unit := io (.append name bytes)

def setFileLength (name : String) (length : Nat) : Fs Unit := io (.setLen name length)

def renameFile (source target : String) : Fs Unit := io (.rename source target)

/-- Remove a file and ignore whether that worked. -/
def removeQuietly (name : String) : Fs Unit := Program.attempt (.remove name)

/-- `sync_directory`. -/
def syncDirectory : Fs Unit := io .sync

section Running

variable {disk : Directory} {name : String} {bytes : Bytes}

@[simp] theorem run_fileExists : (fileExists name).run disk = (disk, .ok (disk name).isSome) :=
  Program.run_demand _ _

theorem run_readFile (found : disk name = some bytes) :
    (readFile name).run disk = (disk, .ok bytes) := by
  rw [readFile, io, Program.run_demand]
  simp [FileOp.after, FileOp.answer, found, Except.mapError]

theorem run_readFile_missing (missing : disk name = none) :
    (readFile name).run disk = (disk, .error (.io "no such file")) := by
  rw [readFile, io, Program.run_demand]
  simp [FileOp.after, FileOp.answer, missing, Except.mapError]

theorem run_openOrCreate (found : disk name = some bytes) :
    (openOrCreate name).run disk = (disk, .ok ()) := by
  rw [openOrCreate, io, Program.run_demand]
  simp [FileOp.after, FileOp.answer, found, Except.mapError]

theorem run_openOrCreate_missing (missing : disk name = none) :
    (openOrCreate name).run disk = (disk.write name [], .ok ()) := by
  rw [openOrCreate, io, Program.run_demand]
  simp [FileOp.after, FileOp.answer, missing, Except.mapError]

/-- Opening a file leaves it with the bytes it had, or none. -/
theorem run_openOrCreate_getD :
    (openOrCreate name).run disk = (disk.write name ((disk name).getD []), .ok ()) := by
  cases found : disk name with
  | none => rw [run_openOrCreate_missing found, Option.getD_none]
  | some bytes => rw [run_openOrCreate found, Option.getD_some, Disk.write_self found]

theorem run_writeNewFile (missing : disk name = none) :
    (writeNewFile name bytes).run disk = (disk.write name bytes, .ok ()) := by
  have created : (io (.createNew name bytes)).run disk = (disk.write name bytes, .ok ()) := by
    rw [io, Program.run_demand]
    simp [FileOp.after, FileOp.answer, missing, Except.mapError]
  rw [writeNewFile, Program.run_bind_ok created]
  rfl

theorem run_appendFile {old : Bytes} (found : disk name = some old) :
    (appendFile name bytes).run disk = (disk.write name (old ++ bytes), .ok ()) := by
  rw [appendFile, io, Program.run_demand]
  simp [FileOp.after, FileOp.answer, found, Except.mapError]

theorem run_setFileLength {length : Nat} (found : disk name = some bytes)
    (within : length ≤ bytes.length) :
    (setFileLength name length).run disk = (disk.write name (bytes.take length), .ok ()) := by
  rw [setFileLength, io, Program.run_demand]
  have noPadding : length - bytes.length = 0 := by omega
  simp [FileOp.after, FileOp.answer, found, Except.mapError, noPadding]

theorem run_renameFile {target : String} (found : disk name = some bytes) :
    (renameFile name target).run disk = ((disk.erase name).write target bytes, .ok ()) := by
  rw [renameFile, io, Program.run_demand]
  simp [FileOp.after, FileOp.answer, found, Except.mapError]

@[simp] theorem run_removeQuietly : (removeQuietly name).run disk = (disk.erase name, .ok ()) :=
  rfl

@[simp] theorem run_syncDirectory : syncDirectory.run disk = (disk, .ok ()) := rfl

variable {state : Directory}

theorem appendFile_crash {old : Bytes} (found : disk name = some old)
    (crashed : state ∈ (appendFile name bytes).crashStates disk) :
    ∃ length, state = disk.write name (old ++ bytes.take length) := by
  rw [appendFile, io, Program.crashStates_demand] at crashed
  simp only [FileOp.during, FileOp.after, found, List.cons_append, List.mem_cons, List.mem_append,
    List.mem_map, List.not_mem_nil, or_false] at crashed
  rcases crashed with rfl | ⟨length, -, rfl⟩ | rfl
  · exact ⟨0, by rw [List.take_zero, List.append_nil, Disk.write_self found]⟩
  · exact ⟨length, rfl⟩
  · exact ⟨bytes.length, by rw [List.take_length]⟩

theorem setFileLength_crash {length : Nat} (found : disk name = some bytes)
    (within : length ≤ bytes.length)
    (crashed : state ∈ (setFileLength name length).crashStates disk) :
    state = disk ∨ state = disk.write name (bytes.take length) := by
  rw [setFileLength, io, Program.crashStates_demand] at crashed
  have noPadding : length - bytes.length = 0 := by omega
  simpa [FileOp.during, FileOp.after, found, noPadding] using crashed

theorem openOrCreate_crash (crashed : state ∈ (openOrCreate name).crashStates disk) :
    state = disk ∨ state = disk.write name ((disk name).getD []) := by
  rw [openOrCreate, io, Program.crashStates_demand] at crashed
  cases found : disk name with
  | none => simpa [FileOp.during, FileOp.after, found] using crashed
  | some bytes => exact .inl (by simpa [FileOp.during, FileOp.after, found] using crashed)

theorem syncDirectory_crash (crashed : state ∈ syncDirectory.crashStates disk) :
    state = disk := by
  rw [syncDirectory, io, Program.crashStates_demand] at crashed
  simpa [FileOp.during, FileOp.after] using crashed

theorem readFile_crash (crashed : state ∈ (readFile name).crashStates disk) :
    state = disk := by
  rw [readFile, io, Program.crashStates_demand] at crashed
  simpa [FileOp.during, FileOp.after] using crashed

end Running

variable {file : String}

/-- A file operation leaves the files it does not name alone. -/
theorem avoids_io {op : FileOp String} (other : file ∉ op.targets) :
    (io op).Avoids file :=
  Program.Avoids.demand other

variable {name : String}

theorem avoids_removeQuietly (differ : file ≠ name) :
    (removeQuietly name).Avoids file :=
  Program.Avoids.attempt (by simpa [FileOp.targets] using differ)

/-! ## Names -/

def metaName : String := "collection.meta"

def metaTemporaryName : String := "collection.meta.tmp"

def walName : String := "write.wal"

def manifestName : String := "MANIFEST"

def manifestTemporaryName (process : Nat) : String := ".MANIFEST.tmp-" ++ toString process

/-- The `width` low-order decimal digits of a number, most significant first. -/
def paddedDecimal : Nat → Nat → List Char
  | 0, _ => []
  | width + 1, value => paddedDecimal width (value / 10) ++ [Nat.digitChar (value % 10)]

def segmentName (sequence : UInt64) : String :=
  "segment-" ++ String.ofList (paddedDecimal 20 sequence.toNat) ++ ".fvs"

/-- What sets one temporary segment apart from every other. -/
structure Stamp where
  process : Nat
  timestamp : Nat
  nonce : Nat
deriving DecidableEq, Repr

def temporarySegmentName (sequence : UInt64) (stamp : Stamp) : String :=
  ".segment-" ++ String.ofList (paddedDecimal 20 sequence.toNat) ++ ".tmp-" ++
    toString stamp.process ++ "-" ++ toString stamp.timestamp ++ "-" ++ toString stamp.nonce

/-! ## Padded numbers -/

theorem paddedDecimal_length (width value : Nat) : (paddedDecimal width value).length = width := by
  induction width generalizing value with
  | zero => rfl
  | succ width ih =>
    simp [paddedDecimal, ih]

private theorem digitChar_injective {left right : Nat} (leftDigit : left < 10)
    (rightDigit : right < 10) (same : Nat.digitChar left = Nat.digitChar right) :
    left = right := by
  have decided : ∀ a < 10, ∀ b < 10, Nat.digitChar a = Nat.digitChar b → a = b := by decide
  exact decided left leftDigit right rightDigit same

theorem paddedDecimal_injective {width left right : Nat} (leftFits : left < 10 ^ width)
    (rightFits : right < 10 ^ width)
    (same : paddedDecimal width left = paddedDecimal width right) : left = right := by
  induction width generalizing left right with
  | zero =>
    rw [pow_zero] at leftFits rightFits
    omega
  | succ width ih =>
    simp only [paddedDecimal] at same
    obtain ⟨sameHigh, sameLow⟩ := List.append_inj' same rfl
    have high := ih (by omega) (by omega) sameHigh
    have low := digitChar_injective (Nat.mod_lt _ (by decide)) (Nat.mod_lt _ (by decide))
      (List.singleton_inj.mp sameLow)
    omega

theorem paddedDecimal_isDigit {width value : Nat} {char : Char}
    (member : char ∈ paddedDecimal width value) : char.isDigit = true := by
  induction width generalizing value with
  | zero => simp [paddedDecimal] at member
  | succ width ih =>
    simp only [paddedDecimal, List.mem_append, List.mem_singleton] at member
    rcases member with high | rfl
    · exact ih high
    · have decided : ∀ digit < 10, (Nat.digitChar digit).isDigit = true := by decide
      exact decided _ (Nat.mod_lt _ (by decide))

/-! ## Names do not collide -/

theorem segmentName_toList (sequence : UInt64) :
    (segmentName sequence).toList =
      "segment-".toList ++ paddedDecimal 20 sequence.toNat ++ ".fvs".toList := by
  have digits : (String.ofList (paddedDecimal 20 sequence.toNat)).toList =
      paddedDecimal 20 sequence.toNat := String.toList_ofList
  rw [segmentName, String.toList_append, String.toList_append, digits]

theorem segmentName_injective : Function.Injective segmentName := by
  intro left right same
  have lists := congrArg String.toList same
  rw [segmentName_toList, segmentName_toList, List.append_assoc, List.append_assoc,
    List.append_cancel_left_eq, List.append_cancel_right_eq] at lists
  have bound : ∀ sequence : UInt64, sequence.toNat < 10 ^ 20 := fun sequence =>
    lt_of_lt_of_le sequence.toNat_lt (by decide)
  exact UInt64.toNat_inj.mp (paddedDecimal_injective (bound left) (bound right) lists)

def lastField (name : String) : List Char := (name.toList.reverse.takeWhile (· ≠ '-')).reverse

theorem toString_toList (value : Nat) : (toString value).toList = Nat.toDigits 10 value :=
  String.toList_ofList

theorem toString_no_dash (value : Nat) : ∀ char ∈ (toString value).toList, char ≠ '-' := by
  intro char member isDash
  rw [toString_toList] at member
  have isDigit := Nat.isDigit_of_mem_toDigits (by decide) (by decide) member
  rw [isDash] at isDigit
  exact absurd isDigit (by decide)

theorem lastField_temporarySegmentName (sequence : UInt64) (stamp : Stamp) :
    lastField (temporarySegmentName sequence stamp) = (toString stamp.nonce).toList := by
  have noDash : ∀ char ∈ (toString stamp.nonce).toList.reverse, decide (char ≠ '-') = true :=
    fun char member => by
      simpa using toString_no_dash stamp.nonce char (List.mem_reverse.mp member)
  unfold lastField temporarySegmentName
  rw [String.toList_append, String.toList_append, List.reverse_append, List.reverse_append,
    List.takeWhile_append_of_pos noDash, show "-".toList = ['-'] by decide]
  simp

theorem nonce_of_temporarySegmentName {sequence other : UInt64} {stamp otherStamp : Stamp}
    (same : temporarySegmentName sequence stamp = temporarySegmentName other otherStamp) :
    stamp.nonce = otherStamp.nonce := by
  have fields := congrArg lastField same
  rw [lastField_temporarySegmentName, lastField_temporarySegmentName, toString_toList,
    toString_toList] at fields
  have numbers := congrArg (Nat.ofDigitChars 10 · 0) fields
  simpa only [Nat.ofDigitChars_ten_toDigits] using numbers

/-- The first two characters of a name, which tell the kinds of files apart. -/
def leading (name : String) : List Char := name.toList.take 2

theorem ne_of_leading {left right : String} (differ : leading left ≠ leading right) :
    left ≠ right :=
  fun same => differ (congrArg leading same)

theorem ne_of_visible {hidden : String} (visible : (leading file).head? ≠ some '.')
    (isHidden : (leading hidden).head? = some '.') : file ≠ hidden :=
  fun same => visible (same ▸ isHidden)

theorem leading_append {text : String} {first second : Char}
    (starts : leading text = [first, second]) (rest : String) :
    leading (text ++ rest) = [first, second] := by
  unfold leading at starts ⊢
  have long : 2 ≤ text.toList.length := by
    have size := congrArg List.length starts
    rw [List.length_take] at size
    change min 2 text.toList.length = 2 at size
    omega
  rw [String.toList_append, List.take_append_of_le_length long, starts]

@[simp] theorem leading_segmentName (sequence : UInt64) :
    leading (segmentName sequence) = ['s', 'e'] :=
  leading_append (leading_append (by decide) _) _

@[simp] theorem leading_temporarySegmentName (sequence : UInt64) (stamp : Stamp) :
    leading (temporarySegmentName sequence stamp) = ['.', 's'] :=
  leading_append (leading_append (leading_append (leading_append (leading_append
    (leading_append (leading_append (by decide) _) _) _) _) _) _) _

@[simp] theorem leading_manifestTemporaryName (process : Nat) :
    leading (manifestTemporaryName process) = ['.', 'M'] :=
  leading_append (by decide) _

@[simp] theorem leading_manifestName : leading manifestName = ['M', 'A'] := by decide

@[simp] theorem leading_walName : leading walName = ['w', 'r'] := by decide

@[simp] theorem leading_metaName : leading metaName = ['c', 'o'] := by decide

@[simp] theorem leading_metaTemporaryName : leading metaTemporaryName = ['c', 'o'] := by decide

theorem write_apart (disk : Directory) (bytes : Bytes)
    (apart : leading file ≠ leading name) : disk.write name bytes file = disk file :=
  Disk.write_other disk bytes (ne_of_leading apart)

theorem erase_apart (disk : Directory) (apart : leading file ≠ leading name) :
    disk.erase name file = disk file :=
  Disk.erase_other disk (ne_of_leading apart)

end FocalVector.Persistence
