import FocalVector.Foundation.Storage

/-!
Contract: programs whose file operations may fail.

Every operation that a program performs has a fate: it works, or it fails. One that
fails while it writes bytes has written a part of them; any other leaves the directory
as it was. The program goes on with the failure as its answer, so what it does to clean
up is run too, and may fail as well.

Owns: `Fate`, `runFated`, and its laws for sequencing.

Does not own: crashes, after which nothing is run.
-/

namespace FocalVector.Foundation

/-- How an operation goes: as it should, or failing when a part of its bytes was
written. -/
inductive Fate where
  | works
  | fails (kept : Nat)
deriving DecidableEq

def faultMessage : String := "input/output error"

/-- The directory after an operation that failed. -/
def FileOp.broken {κ : Type} [DecidableEq κ] (disk : Disk κ) (kept : Nat) : FileOp κ → Disk κ
  | .createNew name bytes =>
    match disk name with
    | some _ => disk
    | none => disk.write name (bytes.take kept)
  | .append name bytes =>
    match disk name with
    | some old => disk.write name (old ++ bytes.take kept)
    | none => disk
  | _ => disk

theorem FileOp.broken_of_not_mem {κ : Type} [DecidableEq κ] {disk : Disk κ} {op : FileOp κ}
    {file : κ} (other : file ∉ op.targets) (kept : Nat) : op.broken disk kept file = disk file := by
  cases op with
  | createNew name bytes =>
    have differ : file ≠ name := by simpa [targets] using other
    cases found : disk name <;> simp [broken, found, Disk.write_other _ _ differ]
  | append name bytes =>
    have differ : file ≠ name := by simpa [targets] using other
    cases found : disk name <;> simp [broken, found, Disk.write_other _ _ differ]
  | probe name => rfl
  | read name => rfl
  | touch name => rfl
  | setLen name length => rfl
  | rename source target => rfl
  | remove name => rfl
  | sync => rfl

namespace Program

variable {κ ε α β : Type} [DecidableEq κ]

/-- The directory a program leaves, its result, and the fates that it did not use. An
operation without a fate works. -/
def runFated : Program κ ε α → List Fate → Disk κ → Disk κ × Except ε α × List Fate
  | .done value, fates, disk => (disk, .ok value, fates)
  | .raise error, fates, disk => (disk, .error error, fates)
  | .perform op next, [], disk => (next (op.answer disk)).runFated [] (op.after disk)
  | .perform op next, .works :: fates, disk =>
    (next (op.answer disk)).runFated fates (op.after disk)
  | .perform op next, .fails kept :: fates, disk =>
    (next (.error faultMessage)).runFated fates (op.broken disk kept)

variable {program : Program κ ε α} {fates : List Fate} {disk : Disk κ}

theorem runFated_bind (f : α → Program κ ε β) :
    (program >>= f).runFated fates disk =
      match program.runFated fates disk with
      | (next, .ok value, rest) => (f value).runFated rest next
      | (next, .error error, rest) => (next, .error error, rest) := by
  induction program generalizing fates disk with
  | done value => rfl
  | raise error => rfl
  | perform op next ih =>
    cases fates with
    | nil => exact ih (op.answer disk)
    | cons fate fates =>
      cases fate with
      | works => exact ih (op.answer disk)
      | fails kept => exact ih (.error faultMessage)

theorem runFated_bind_ok {f : α → Program κ ε β} {next : Disk κ} {value : α} {rest : List Fate}
    (runs : program.runFated fates disk = (next, .ok value, rest)) :
    (program >>= f).runFated fates disk = (f value).runFated rest next := by
  rw [runFated_bind, runs]

theorem runFated_bind_error {f : α → Program κ ε β} {next : Disk κ} {error : ε} {rest : List Fate}
    (runs : program.runFated fates disk = (next, .error error, rest)) :
    (program >>= f).runFated fates disk = (next, .error error, rest) := by
  rw [runFated_bind, runs]

theorem of_runFated_bind_error {f : α → Program κ ε β} {next : Disk κ} {error : ε}
    {rest : List Fate} (fails : (program >>= f).runFated fates disk = (next, .error error, rest)) :
    program.runFated fates disk = (next, .error error, rest) ∨
      ∃ middle value left, program.runFated fates disk = (middle, .ok value, left) ∧
        (f value).runFated left middle = (next, .error error, rest) := by
  rw [runFated_bind] at fails
  rcases runs : program.runFated fates disk with ⟨middle, error | value, left⟩
  · rw [runs] at fails
    cases fails
    exact .inl rfl
  · rw [runs] at fails
    exact .inr ⟨middle, value, left, rfl, fails⟩

/-! ## Which operation fails -/

/-- The first operation that fails is one of `count` operations behind `start` others. -/
def FaultWithin (start count : Nat) (fates : List Fate) : Prop :=
  (∀ step < start, fates.getD step .works = .works) ∧
    ∃ step < start + count, fates.getD step .works ≠ .works

theorem FaultWithin.mono {start count first more : Nat} (fault : FaultWithin start count fates)
    (earlier : first ≤ start) (later : start + count ≤ first + more) :
    FaultWithin first more fates := by
  obtain ⟨works, step, inside, fails⟩ := fault
  exact ⟨fun step before => works step (by omega), step, by omega, fails⟩

theorem getD_drop (fates : List Fate) (spent step : Nat) :
    (fates.drop spent).getD step .works = fates.getD (spent + step) .works := by
  simp [List.getD_eq_getElem?_getD, List.getElem?_drop]

theorem works_add {spent more : Nat} (works : ∀ step < spent, fates.getD step .works = .works)
    (worksAfter : ∀ step < more, (fates.drop spent).getD step .works = .works) :
    ∀ step < spent + more, fates.getD step .works = .works := by
  intro step inside
  by_cases early : step < spent
  · exact works step early
  · have later := worksAfter (step - spent) (by omega)
    rwa [getD_drop, Nat.add_sub_cancel' (not_lt.mp early)] at later

theorem FaultWithin.after {start count spent : Nat}
    (works : ∀ step < spent, fates.getD step .works = .works)
    (fault : FaultWithin start count (fates.drop spent)) :
    FaultWithin (spent + start) count fates := by
  obtain ⟨worksAfter, step, inside, fails⟩ := fault
  exact ⟨works_add works worksAfter, spent + step, by omega, getD_drop fates spent step ▸ fails⟩

/-- A demanded operation that fails has a fault, or the directory refuses it. -/
theorem of_runFated_demand_error {refused : String → ε} {op : FileOp κ} {next : Disk κ} {error : ε}
    {rest : List Fate}
    (fails : (demand refused op).runFated fates disk = (next, .error error, rest)) :
    FaultWithin 0 1 fates ∧ (∃ kept, next = op.broken disk kept) ∨
      next = op.after disk ∧ ∃ message, op.answer disk = .error message := by
  rcases fates with _ | ⟨_ | kept, fates⟩
  all_goals
    unfold demand at fails
    simp only [runFated] at fails
  · cases isAnswer : op.answer disk <;> simp_all [runFated]
  · cases isAnswer : op.answer disk <;> simp_all [runFated]
  · cases fails
    exact .inl ⟨⟨by simp, 0, by simp⟩, kept, rfl⟩

/-- A program that succeeds performs the given number of operations, and all of them work. -/
def Spends (count : Nat) (program : Program κ ε α) : Prop :=
  ∀ fates disk final value rest, program.runFated fates disk = (final, .ok value, rest) →
    (∀ step < count, fates.getD step .works = .works) ∧ rest = fates.drop count

namespace Spends

variable {count : Nat}

theorem pure (value : α) : (Pure.pure value : Program κ ε α).Spends 0 := by
  intro fates disk final result rest runs
  cases runs
  exact ⟨by simp, rfl⟩

theorem raise (error : ε) : (Program.raise error : Program κ ε α).Spends count := by
  intro fates disk final value rest runs
  cases runs

theorem ofExcept (result : Except ε α) : (Program.ofExcept result : Program κ ε α).Spends 0 := by
  cases result with
  | ok value => exact pure value
  | error error => exact raise error

theorem demand (refused : String → ε) (op : FileOp κ) : (Program.demand refused op).Spends 1 := by
  intro fates disk final value rest runs
  unfold Program.demand at runs
  rcases fates with _ | ⟨_ | kept, fates⟩ <;> simp only [runFated] at runs
  · cases isAnswer : op.answer disk <;> simp_all [runFated]
  · cases isAnswer : op.answer disk <;> simp_all [runFated]
  · cases runs

theorem bind {f : α → Program κ ε β} {more : Nat} (first : program.Spends count)
    (second : ∀ value, (f value).Spends more) : (program >>= f).Spends (more + count) := by
  intro fates disk final value rest runs
  rw [runFated_bind] at runs
  rcases begins : program.runFated fates disk with ⟨middle, error | result, left⟩
  · rw [begins] at runs
    cases runs
  · rw [begins] at runs
    obtain ⟨works, rfl⟩ := first _ _ _ _ _ begins
    obtain ⟨worksAfter, rfl⟩ := second result _ _ _ _ _ runs
    rw [Nat.add_comm]
    exact ⟨works_add works worksAfter, List.drop_drop⟩

end Spends

/-! ## Programs that stop at a fault -/

def StopsAtFaults : Program κ ε α → Prop
  | .done _ => True
  | .raise _ => True
  | .perform _ next => (∀ message, ∃ error, next (.error message) = .raise error) ∧
      ∀ value, (next (.ok value)).StopsAtFaults

namespace StopsAtFaults

omit [DecidableEq κ] in
theorem pure (value : α) : (Pure.pure value : Program κ ε α).StopsAtFaults := trivial

omit [DecidableEq κ] in
theorem raise (error : ε) : (Program.raise error : Program κ ε α).StopsAtFaults := trivial

omit [DecidableEq κ] in
theorem ofExcept (result : Except ε α) :
    (Program.ofExcept result : Program κ ε α).StopsAtFaults := by
  cases result <;> trivial

omit [DecidableEq κ] in
theorem demand (refused : String → ε) (op : FileOp κ) :
    (Program.demand refused op).StopsAtFaults :=
  ⟨fun message => ⟨refused message, rfl⟩, fun _ => trivial⟩

omit [DecidableEq κ] in
theorem bind {f : α → Program κ ε β} (first : program.StopsAtFaults)
    (second : ∀ value, (f value).StopsAtFaults) : (program >>= f).StopsAtFaults := by
  induction program with
  | done value => exact second value
  | raise error => trivial
  | perform op next ih =>
    refine ⟨fun message => ?_, fun value => ih _ (first.2 value)⟩
    obtain ⟨error, raises⟩ := first.1 message
    exact ⟨error, congrArg (·.bind f) raises⟩

/-- Such a program succeeds only when every operation works. -/
theorem run_of_runFated (stops : program.StopsAtFaults) {final : Disk κ} {value : α}
    {rest : List Fate} (runs : program.runFated fates disk = (final, .ok value, rest)) :
    program.run disk = (final, .ok value) := by
  induction program generalizing fates disk with
  | done result =>
    cases runs
    rfl
  | raise error => cases runs
  | perform op next ih =>
    have goesOn {fates : List Fate}
        (runs : (next (op.answer disk)).runFated fates (op.after disk) = (final, .ok value, rest)) :
        (next (op.answer disk)).run (op.after disk) = (final, .ok value) := by
      cases isAnswer : op.answer disk with
      | ok answer =>
        rw [isAnswer] at runs
        exact ih _ (stops.2 answer) runs
      | error message =>
        obtain ⟨error, raises⟩ := stops.1 message
        rw [isAnswer, raises] at runs
        cases runs
    cases fates with
    | nil => exact goesOn runs
    | cons fate fates =>
      cases fate with
      | works => exact goesOn runs
      | fails kept =>
        obtain ⟨error, raises⟩ := stops.1 faultMessage
        simp only [runFated, raises] at runs
        cases runs

end StopsAtFaults

/-- A failed operation leaves what a crash can leave. -/
theorem broken_mem_crashStates (op : FileOp κ) (next : Except String op.Answer → Program κ ε α)
    (kept : Nat) : op.broken disk kept ∈ (Program.perform op next).crashStates disk := by
  have before : disk ∈ (Program.perform op next).crashStates disk := start_mem_crashStates
  have after : op.after disk ∈ (Program.perform op next).crashStates disk :=
    List.mem_append_right _ start_mem_crashStates
  have torn {state : Disk κ} (during : state ∈ op.during disk) :
      state ∈ (Program.perform op next).crashStates disk :=
    List.mem_append_left _ (List.mem_cons_of_mem _ during)
  cases op with
  | createNew name bytes =>
    cases found : disk name with
    | some old =>
      simp only [FileOp.broken, found]
      exact before
    | none =>
      simp only [FileOp.broken, FileOp.after, FileOp.during, found] at after torn ⊢
      rcases lt_or_ge kept bytes.length with short | whole
      · exact torn (List.mem_map.mpr ⟨kept, List.mem_range.mpr short, rfl⟩)
      · rwa [List.take_of_length_le whole]
  | append name bytes =>
    cases found : disk name with
    | none =>
      simp only [FileOp.broken, found]
      exact before
    | some old =>
      simp only [FileOp.broken, FileOp.after, FileOp.during, found] at after torn ⊢
      rcases lt_or_ge kept bytes.length with short | whole
      · exact torn (List.mem_map.mpr ⟨kept, List.mem_range.mpr short, rfl⟩)
      · rwa [List.take_of_length_le whole]
  | probe name => exact before
  | read name => exact before
  | touch name => exact before
  | setLen name length => exact before
  | rename source target => exact before
  | remove name => exact before
  | sync => exact before

theorem StopsAtFaults.runFated_mem_crashStates (stops : program.StopsAtFaults) :
    (program.runFated fates disk).1 ∈ program.crashStates disk := by
  induction program generalizing fates disk with
  | done value => exact List.mem_singleton_self _
  | raise error => exact List.mem_singleton_self _
  | perform op next ih =>
    have goesOn (fates : List Fate) :
        ((next (op.answer disk)).runFated fates (op.after disk)).1 ∈
          (Program.perform op next).crashStates disk := by
      refine List.mem_append_right _ ?_
      cases op.answer disk with
      | ok answer => exact ih _ (stops.2 answer)
      | error message =>
        obtain ⟨error, raises⟩ := stops.1 message
        rw [raises]
        exact List.mem_singleton_self _
    cases fates with
    | nil => exact goesOn []
    | cons fate fates =>
      cases fate with
      | works => exact goesOn fates
      | fails kept =>
        obtain ⟨error, raises⟩ := stops.1 faultMessage
        simp only [runFated, raises]
        exact broken_mem_crashStates op next kept

theorem Avoids.runFated {file : κ} (avoids : program.Avoids file) :
    (program.runFated fates disk).1 file = disk file := by
  induction program generalizing fates disk with
  | done value => rfl
  | raise error => rfl
  | perform op next ih =>
    have kept (answer : Except String op.Answer) (fates : List Fate) {middle : Disk κ}
        (same : middle file = disk file) :
        ((next answer).runFated fates middle).1 file = disk file :=
      (ih answer (avoids.2 answer)).trans same
    have worked : op.after disk file = disk file := FileOp.after_of_not_mem avoids.1
    cases fates with
    | nil => exact kept _ _ worked
    | cons fate fates =>
      cases fate with
      | works => exact kept _ _ worked
      | fails part => exact kept _ _ (FileOp.broken_of_not_mem avoids.1 part)

theorem Avoids.of_runFated {file : κ} (avoids : program.Avoids file) {next : Disk κ}
    {result : Except ε α} {rest : List Fate}
    (runs : program.runFated fates disk = (next, result, rest)) : next file = disk file := by
  have kept : (program.runFated fates disk).1 file = disk file := avoids.runFated
  rwa [runs] at kept

end Program

end FocalVector.Foundation
