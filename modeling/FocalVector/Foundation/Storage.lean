import FocalVector.Foundation.LittleEndian
import Mathlib.Logic.Function.Basic

/-!
Contract: programs that work on the files of one directory, what they leave
behind when they run, and what they can leave behind when they die.

A program is a tree of file operations, each followed by a continuation on its
answer. Running it performs the operations one by one; its crash states are the
directories between them, and, where an operation writes bytes, with any part
of those bytes written. Renames, truncations and removals are atomic, and what
an operation did is durable when it is done.

Owns: directories, file operations, programs, `run`, `crashStates` and their
laws for sequencing.

Does not own: file names, formats, or error values.
-/

namespace FocalVector.Foundation

/-- The files of a directory by name. -/
abbrev Disk (κ : Type) := κ → Option Bytes

namespace Disk

variable {κ : Type} [DecidableEq κ]

def write (disk : Disk κ) (name : κ) (bytes : Bytes) : Disk κ :=
  fun file => if file = name then some bytes else disk file

def erase (disk : Disk κ) (name : κ) : Disk κ :=
  fun file => if file = name then none else disk file

@[simp] theorem write_same (disk : Disk κ) (name : κ) (bytes : Bytes) :
    disk.write name bytes name = some bytes := if_pos rfl

variable {name : κ}

theorem write_other (disk : Disk κ) {file : κ} (bytes : Bytes) (differ : file ≠ name) :
    disk.write name bytes file = disk file := if_neg differ

theorem write_self {disk : Disk κ} {bytes : Bytes} (found : disk name = some bytes) :
    disk.write name bytes = disk := by
  funext file
  by_cases same : file = name
  · rw [same, write_same, found]
  · rw [write_other _ _ same]

theorem write_write (disk : Disk κ) (name : κ) (first second : Bytes) :
    (disk.write name first).write name second = disk.write name second := by
  funext file
  by_cases same : file = name
  · rw [same, write_same, write_same]
  · rw [write_other _ _ same, write_other _ _ same, write_other _ _ same]

@[simp] theorem erase_same (disk : Disk κ) (name : κ) : disk.erase name name = none := if_pos rfl

theorem erase_other (disk : Disk κ) {file : κ} (differ : file ≠ name) :
    disk.erase name file = disk file := if_neg differ

/-- Removing a file that was just created leaves no trace. -/
theorem erase_write {disk : Disk κ} (missing : disk name = none) (bytes : Bytes) :
    (disk.write name bytes).erase name = disk := by
  funext file
  by_cases same : file = name
  · rw [same, erase_same, missing]
  · rw [erase_other _ same, write_other _ _ same]

end Disk

/-- One operation on the files of a directory. -/
inductive FileOp (κ : Type) where
  | probe (name : κ)
  | read (name : κ)
  | touch (name : κ)
  | createNew (name : κ) (bytes : Bytes)
  | append (name : κ) (bytes : Bytes)
  | setLen (name : κ) (length : Nat)
  | rename (source target : κ)
  | remove (name : κ)
  | sync

namespace FileOp

variable {κ : Type} [DecidableEq κ]

/-- What an operation that succeeds returns. -/
abbrev Answer : FileOp κ → Type
  | .probe _ => Bool
  | .read _ => Bytes
  | _ => Unit

def answer (disk : Disk κ) : (op : FileOp κ) → Except String op.Answer
  | .probe name => .ok (disk name).isSome
  | .read name =>
    match disk name with
    | some bytes => .ok bytes
    | none => .error "no such file"
  | .touch _ => .ok ()
  | .createNew name _ => if (disk name).isSome then .error "file exists" else .ok ()
  | .append name _ => if (disk name).isSome then .ok () else .error "no such file"
  | .setLen name _ => if (disk name).isSome then .ok () else .error "no such file"
  | .rename source _ => if (disk source).isSome then .ok () else .error "no such file"
  | .remove name => if (disk name).isSome then .ok () else .error "no such file"
  | .sync => .ok ()

/-- The directory after an operation. -/
def after (disk : Disk κ) : FileOp κ → Disk κ
  | .probe _ => disk
  | .read _ => disk
  | .touch name =>
    match disk name with
    | some _ => disk
    | none => disk.write name []
  | .createNew name bytes =>
    match disk name with
    | some _ => disk
    | none => disk.write name bytes
  | .append name bytes =>
    match disk name with
    | some old => disk.write name (old ++ bytes)
    | none => disk
  | .setLen name length =>
    match disk name with
    | some old => disk.write name (old.take length ++ List.replicate (length - old.length) 0)
    | none => disk
  | .rename source target =>
    match disk source with
    | some bytes => (disk.erase source).write target bytes
    | none => disk
  | .remove name => disk.erase name
  | .sync => disk

/-- The files an operation may change. -/
def targets : FileOp κ → List κ
  | .touch name => [name]
  | .createNew name _ => [name]
  | .append name _ => [name]
  | .setLen name _ => [name]
  | .rename source target => [source, target]
  | .remove name => [name]
  | _ => []

/-- The directories while the bytes of an operation are being written. -/
def during (disk : Disk κ) : FileOp κ → List (Disk κ)
  | .createNew name bytes =>
    match disk name with
    | some _ => []
    | none => (List.range bytes.length).map fun length => disk.write name (bytes.take length)
  | .append name bytes =>
    match disk name with
    | some old =>
      (List.range bytes.length).map fun length => disk.write name (old ++ bytes.take length)
    | none => []
  | _ => []

theorem after_of_not_mem {disk : Disk κ} {op : FileOp κ} {file : κ} (other : file ∉ op.targets) :
    op.after disk file = disk file := by
  cases op with
  | probe name => rfl
  | read name => rfl
  | touch name =>
    have differ : file ≠ name := by simpa [targets] using other
    cases found : disk name <;> simp [after, found, Disk.write_other _ _ differ]
  | createNew name bytes =>
    have differ : file ≠ name := by simpa [targets] using other
    cases found : disk name <;> simp [after, found, Disk.write_other _ _ differ]
  | append name bytes =>
    have differ : file ≠ name := by simpa [targets] using other
    cases found : disk name <;> simp [after, found, Disk.write_other _ _ differ]
  | setLen name length =>
    have differ : file ≠ name := by simpa [targets] using other
    cases found : disk name <;> simp [after, found, Disk.write_other _ _ differ]
  | rename source target =>
    have differ : file ≠ source ∧ file ≠ target := by simpa [targets] using other
    cases found : disk source <;>
      simp [after, found, Disk.write_other _ _ differ.2, Disk.erase_other _ differ.1]
  | remove name =>
    have differ : file ≠ name := by simpa [targets] using other
    exact Disk.erase_other _ differ
  | sync => rfl

theorem during_of_not_mem {disk state : Disk κ} {op : FileOp κ} {file : κ}
    (other : file ∉ op.targets) (torn : state ∈ op.during disk) : state file = disk file := by
  cases op with
  | createNew name bytes =>
    have differ : file ≠ name := by simpa [targets] using other
    cases found : disk name with
    | some old => simp [during, found] at torn
    | none =>
      simp only [during, found, List.mem_map] at torn
      obtain ⟨length, -, rfl⟩ := torn
      exact Disk.write_other _ _ differ
  | append name bytes =>
    have differ : file ≠ name := by simpa [targets] using other
    cases found : disk name with
    | some old =>
      simp only [during, found, List.mem_map] at torn
      obtain ⟨length, -, rfl⟩ := torn
      exact Disk.write_other _ _ differ
    | none => simp [during, found] at torn
  | probe name => cases torn
  | read name => cases torn
  | touch name => cases torn
  | setLen name length => cases torn
  | rename source target => cases torn
  | remove name => cases torn
  | sync => cases torn

end FileOp

/-- A computation over the files of a directory that may fail. -/
inductive Program (κ ε α : Type) where
  | done (value : α)
  | raise (error : ε)
  | perform (op : FileOp κ) (next : Except String op.Answer → Program κ ε α)

namespace Program

variable {κ ε α β : Type}

def bind (program : Program κ ε α) (f : α → Program κ ε β) : Program κ ε β :=
  match program with
  | .done value => f value
  | .raise error => .raise error
  | .perform op next => .perform op fun answer => (next answer).bind f

instance : Monad (Program κ ε) where
  pure := .done
  bind := .bind

def ofExcept : Except ε α → Program κ ε α
  | .ok value => .done value
  | .error error => .raise error

theorem ofExcept_ok_bind (value : α) (f : α → Program κ ε β) :
    (ofExcept (.ok value) : Program κ ε α) >>= f = f value := rfl

def demand (refused : String → ε) (op : FileOp κ) : Program κ ε op.Answer :=
  .perform op fun answer =>
    match answer with
    | .ok value => .done value
    | .error message => .raise (refused message)

/-- Perform an operation and ignore how it went. -/
def attempt (op : FileOp κ) : Program κ ε Unit := .perform op fun _ => .done ()

/-- Go on with `last` after a program that succeeded or failed, and keep its
result. -/
def settle (program : Program κ ε α) (last : Except ε α → Program κ ε Unit) : Program κ ε α :=
  match program with
  | .done value => (last (.ok value)).bind fun _ => .done value
  | .raise error => (last (.error error)).bind fun _ => .raise error
  | .perform op next => .perform op fun answer => (next answer).settle last

def cleanup (program : Program κ ε α) (last : Program κ ε Unit) : Program κ ε α :=
  program.settle fun _ => last

def onFailure (last : Program κ ε Unit) : Except ε α → Program κ ε Unit
  | .ok _ => .done ()
  | .error _ => last

/-- Run a cleanup after a program that failed. -/
def rescue (program : Program κ ε α) (last : Program κ ε Unit) : Program κ ε α :=
  program.settle (onFailure last)

/-- Carry a failure as a value, so that the caller goes on. -/
def capture : Program κ ε α → Program κ ε (Except ε α)
  | .done value => .done (.ok value)
  | .raise error => .done (.error error)
  | .perform op next => .perform op fun answer => (next answer).capture

/-! ## What a program leaves alone -/

def Avoids (file : κ) : Program κ ε α → Prop
  | .done _ => True
  | .raise _ => True
  | .perform op next => file ∉ op.targets ∧ ∀ answer, (next answer).Avoids file

variable {program : Program κ ε α} {file : κ}

theorem Avoids.pure (value : α) : (Pure.pure value : Program κ ε α).Avoids file := trivial

theorem Avoids.raise (error : ε) : (Program.raise error : Program κ ε α).Avoids file := trivial

theorem Avoids.ofExcept (result : Except ε α) :
    (Program.ofExcept result : Program κ ε α).Avoids file := by
  cases result <;> trivial

theorem Avoids.demand {refused : String → ε} {op : FileOp κ} (other : file ∉ op.targets) :
    (Program.demand refused op).Avoids file := by
  refine ⟨other, fun answer => ?_⟩
  cases answer <;> trivial

theorem Avoids.attempt {op : FileOp κ} (other : file ∉ op.targets) :
    (Program.attempt op : Program κ ε Unit).Avoids file :=
  ⟨other, fun _ => trivial⟩

theorem Avoids.bind {f : α → Program κ ε β} (first : program.Avoids file)
    (second : ∀ value, (f value).Avoids file) : (program >>= f).Avoids file := by
  induction program with
  | done value => exact second value
  | raise error => trivial
  | perform op next ih =>
    exact ⟨first.1, fun answer => ih answer (first.2 answer)⟩

theorem Avoids.settle {last : Except ε α → Program κ ε Unit} (first : program.Avoids file)
    (second : ∀ result, (last result).Avoids file) : (program.settle last).Avoids file := by
  induction program with
  | done value => exact Avoids.bind (second _) fun _ => trivial
  | raise error => exact Avoids.bind (second _) fun _ => trivial
  | perform op next ih =>
    exact ⟨first.1, fun answer => ih answer (first.2 answer)⟩

variable {last : Program κ ε Unit}

theorem Avoids.rescue (first : program.Avoids file)
    (second : last.Avoids file) : (program.rescue last).Avoids file := by
  refine first.settle fun result => ?_
  cases result with
  | ok value => trivial
  | error error => exact second

/-! ## Running -/

variable [DecidableEq κ]

/-- The directory a program leaves and its result. -/
def run : Program κ ε α → Disk κ → Disk κ × Except ε α
  | .done value, disk => (disk, .ok value)
  | .raise error, disk => (disk, .error error)
  | .perform op next, disk => (next (op.answer disk)).run (op.after disk)

def crashStates : Program κ ε α → Disk κ → List (Disk κ)
  | .done _, disk => [disk]
  | .raise _, disk => [disk]
  | .perform op next, disk =>
    disk :: op.during disk ++ (next (op.answer disk)).crashStates (op.after disk)

variable {disk : Disk κ}

@[simp] theorem run_pure (value : α) :
    (pure value : Program κ ε α).run disk = (disk, .ok value) := rfl

@[simp] theorem run_ofExcept (result : Except ε α) :
    (ofExcept result : Program κ ε α).run disk = (disk, result) := by
  cases result <;> rfl

theorem run_bind (f : α → Program κ ε β) :
    (program >>= f).run disk =
      match program.run disk with
      | (next, .ok value) => (f value).run next
      | (next, .error error) => (next, .error error) := by
  induction program generalizing disk with
  | done value => rfl
  | raise error => rfl
  | perform op next ih =>
    exact ih (op.answer disk)

variable {f : α → Program κ ε β} {next : Disk κ}

theorem run_bind_ok {value : α}
    (runs : program.run disk = (next, .ok value)) :
    (program >>= f).run disk = (f value).run next := by
  rw [run_bind, runs]

theorem run_bind_error {error : ε}
    (runs : program.run disk = (next, .error error)) :
    (program >>= f).run disk = (next, .error error) := by
  rw [run_bind, runs]

/-- A sequence that succeeds has both its parts succeed. -/
theorem of_run_bind_ok {final : Disk κ} {result : β}
    (runs : (program >>= f).run disk = (final, .ok result)) :
    ∃ next value, program.run disk = (next, .ok value) ∧
      (f value).run next = (final, .ok result) := by
  rw [run_bind] at runs
  cases first : program.run disk with
  | mk next outcome =>
    rw [first] at runs
    cases outcome with
    | ok value => exact ⟨next, value, rfl, runs⟩
    | error error => cases runs

theorem of_run_ofExcept {outcome : Except ε α} {value : α}
    (runs : (ofExcept outcome : Program κ ε α).run disk = (next, .ok value)) :
    next = disk ∧ outcome = .ok value := by
  rw [run_ofExcept, Prod.mk.injEq] at runs
  exact ⟨runs.1.symm, runs.2⟩

theorem run_demand (refused : String → ε) (op : FileOp κ) :
    (demand refused op : Program κ ε op.Answer).run disk =
      (op.after disk, (op.answer disk).mapError refused) := by
  unfold demand
  simp only [run]
  cases op.answer disk <;> rfl

/-- A last step that cannot fail only changes the directory. -/
theorem run_settle {last : Except ε α → Program κ ε Unit}
    (harmless : ∀ result disk, (((last result).run disk).2 : Except ε Unit) = .ok ()) :
    (program.settle last).run disk =
      (((last (program.run disk).2).run (program.run disk).1).1, (program.run disk).2) := by
  induction program generalizing disk with
  | done value =>
    have after : (last (.ok value)).run disk = (_, .ok ()) := Prod.ext rfl (harmless _ disk)
    exact run_bind_ok after
  | raise error =>
    have after : (last (.error error)).run disk = (_, .ok ()) := Prod.ext rfl (harmless _ disk)
    exact run_bind_ok after
  | perform op next ih => exact ih (op.answer disk)

theorem run_cleanup (harmless : ∀ disk, ((last.run disk).2 : Except ε Unit) = .ok ()) :
    (program.cleanup last).run disk =
      ((last.run (program.run disk).1).1, (program.run disk).2) :=
  run_settle fun _ => harmless

theorem run_rescue (harmless : ∀ disk, ((last.run disk).2 : Except ε Unit) = .ok ()) :
    (program.rescue last).run disk =
      (((onFailure last (program.run disk).2).run (program.run disk).1).1,
        (program.run disk).2) := by
  refine run_settle fun result disk => ?_
  cases result with
  | ok value => rfl
  | error error => exact harmless disk

theorem run_capture :
    (program.capture : Program κ ε _).run disk = ((program.run disk).1, .ok (program.run disk).2) := by
  induction program generalizing disk with
  | done value => rfl
  | raise error => rfl
  | perform op next ih => exact ih (op.answer disk)

/-! ## Crashes -/

theorem start_mem_crashStates : disk ∈ program.crashStates disk := by
  cases program <;> simp [crashStates]

theorem final_mem_crashStates : (program.run disk).1 ∈ program.crashStates disk := by
  induction program generalizing disk with
  | done value => simp [run, crashStates]
  | raise error => simp [run, crashStates]
  | perform op next ih =>
    exact List.mem_append_right _ (ih (op.answer disk))

theorem mem_crashStates_of_run {result : Except ε α}
    (runs : program.run disk = (next, result)) : next ∈ program.crashStates disk := by
  have final : (program.run disk).1 ∈ program.crashStates disk := final_mem_crashStates
  rwa [runs] at final

@[simp] theorem crashStates_pure (value : α) :
    (pure value : Program κ ε α).crashStates disk = [disk] := rfl

@[simp] theorem crashStates_raise (error : ε) :
    (Program.raise error : Program κ ε α).crashStates disk = [disk] := rfl

@[simp] theorem crashStates_ofExcept (result : Except ε α) :
    (ofExcept result : Program κ ε α).crashStates disk = [disk] := by
  cases result <;> rfl

theorem crashStates_demand (refused : String → ε) (op : FileOp κ) :
    (demand refused op : Program κ ε op.Answer).crashStates disk =
      disk :: op.during disk ++ [op.after disk] := by
  unfold demand
  simp only [crashStates]
  cases op.answer disk <;> rfl

variable {state : Disk κ}

/-- A crash of a sequence is a crash of its first part, or of the second after
the first succeeded. -/
theorem mem_crashStates_bind : state ∈ (program >>= f).crashStates disk ↔
      state ∈ program.crashStates disk ∨
        ∃ next value, program.run disk = (next, .ok value) ∧
          state ∈ (f value).crashStates next := by
  induction program generalizing disk with
  | done value =>
    constructor
    · intro crashed
      exact .inr ⟨disk, value, rfl, crashed⟩
    · rintro (crashed | ⟨next, result, runs, crashed⟩)
      · rw [List.mem_singleton.mp crashed]
        exact start_mem_crashStates
      · cases runs
        exact crashed
  | raise error =>
    constructor
    · intro crashed
      exact .inl crashed
    · rintro (crashed | ⟨next, result, runs, _⟩)
      · exact crashed
      · cases runs
  | perform op next ih =>
    have rest : state ∈ (next (op.answer disk) >>= f).crashStates (op.after disk) ↔ _ :=
      ih (op.answer disk)
    constructor
    · intro crashed
      rcases List.mem_append.mp crashed with early | late
      · exact .inl (List.mem_append_left _ early)
      · rcases rest.mp late with first | second
        · exact .inl (List.mem_append_right _ first)
        · exact .inr second
    · rintro (crashed | second)
      · rcases List.mem_append.mp crashed with early | late
        · exact List.mem_append_left _ early
        · exact List.mem_append_right _ (rest.mpr (.inl late))
      · exact List.mem_append_right _ (rest.mpr (.inr second))

theorem crashStates_capture :
    (program.capture : Program κ ε _).crashStates disk = program.crashStates disk := by
  induction program generalizing disk with
  | done value => rfl
  | raise error => rfl
  | perform op next ih =>
    exact congrArg (disk :: op.during disk ++ ·) (ih (op.answer disk))

/-- Following a program by a step without file operations adds no crash. -/
private theorem crashStates_bind_quiet {result : Program κ ε α} (quiet : ∀ disk, result.crashStates disk = [disk])
    (crashed : state ∈ (last >>= fun _ => result).crashStates disk) :
    state ∈ last.crashStates disk := by
  rcases mem_crashStates_bind.mp crashed with first | ⟨next, _, runs, finished⟩
  · exact first
  · rw [quiet, List.mem_singleton] at finished
    have reached : (last.run disk).1 = state := by rw [runs, finished]
    exact reached ▸ final_mem_crashStates

theorem mem_crashStates_settle {last : Except ε α → Program κ ε Unit}
    (crashed : state ∈ (program.settle last).crashStates disk) :
    state ∈ program.crashStates disk ∨
      state ∈ (last (program.run disk).2).crashStates (program.run disk).1 := by
  induction program generalizing disk with
  | done value => exact .inr (crashStates_bind_quiet (fun _ => rfl) crashed)
  | raise error => exact .inr (crashStates_bind_quiet (fun _ => rfl) crashed)
  | perform op next ih =>
    rcases List.mem_append.mp crashed with early | late
    · exact .inl (List.mem_append_left _ early)
    · rcases ih (op.answer disk) late with first | second
      · exact .inl (List.mem_append_right _ first)
      · exact .inr second

theorem Avoids.crash (avoids : program.Avoids file)
    (crashed : state ∈ program.crashStates disk) : state file = disk file := by
  induction program generalizing disk with
  | done value => rw [List.mem_singleton.mp crashed]
  | raise error => rw [List.mem_singleton.mp crashed]
  | perform op next ih =>
    rcases List.mem_append.mp crashed with early | late
    · rcases List.mem_cons.mp early with rfl | torn
      · rfl
      · exact FileOp.during_of_not_mem avoids.1 torn
    · rw [ih _ (avoids.2 _) late, FileOp.after_of_not_mem avoids.1]

theorem Avoids.run (avoids : program.Avoids file) : (program.run disk).1 file = disk file :=
  avoids.crash final_mem_crashStates

theorem Avoids.of_run {result : Except ε α} (avoids : program.Avoids file)
    (runs : program.run disk = (next, result)) : next file = disk file := by
  have kept : (program.run disk).1 file = disk file := avoids.run
  rwa [runs] at kept

/-- A property of the directory that a program's runs keep. -/
def Keeps (program : Program κ ε α) (property : Disk κ → Prop) : Prop :=
  ∀ disk, property disk → property (program.run disk).1

theorem Keeps.pure (value : α) (property : Disk κ → Prop) :
    (Pure.pure value : Program κ ε α).Keeps property :=
  fun _ holds => holds

/-- A property that one part of a sequence brings about and the other keeps. -/
theorem Keeps.after {property : Disk κ → Prop}
    (first : property (program.run disk).1) (second : ∀ value, (f value).Keeps property) :
    property ((program >>= f).run disk).1 := by
  rw [run_bind]
  cases runs : program.run disk with
  | mk next outcome =>
    rw [runs] at first
    cases outcome with
    | ok value => exact second value next first
    | error error => exact first

theorem Keeps.bind {f : α → Program κ ε β} {property : Disk κ → Prop}
    (first : program.Keeps property) (second : ∀ value, (f value).Keeps property) :
    (program >>= f).Keeps property :=
  fun disk holds => Keeps.after (first disk holds) second

theorem Avoids.keeps (avoids : program.Avoids file) (property : Option Bytes → Prop) :
    program.Keeps fun disk => property (disk file) := by
  intro disk holds
  rw [avoids.run]
  exact holds

theorem crash_of_avoids_all (avoids : ∀ file, program.Avoids file)
    (crashed : state ∈ program.crashStates disk) : state = disk :=
  funext fun file => (avoids file).crash crashed

end Program

end FocalVector.Foundation
