import FocalVector.Foundation.Decoding

/-!
Contract: fallible encoders that append to an output, and the law that says
which bytes an encoder appends and when it refuses.

The bytes may depend on how much output there already is, because formats with
alignment padding look at the position. What was appended before a failure is
kept, as it is when the output is a file.

Owns: the encoder type, `Writes` and its composition rules.

Does not own: any concrete format, its limits or its error values.
-/

namespace FocalVector.Foundation

/-- A computation that appends bytes to an output and may fail. -/
abbrev Encoder (ε α : Type) := ExceptT ε (StateM Bytes) α

namespace Encoder

variable {ε α : Type}

def put (bytes : Bytes) : Encoder ε Unit := modify (· ++ bytes)

def atPosition (next : Nat → Encoder ε Unit) : Encoder ε Unit := do
  let output ← get
  next output.length

/-- The result of an encoder and all it appended to an empty output. -/
def run (encoder : Encoder ε Unit) : Except ε Unit × Bytes := (ExceptT.run encoder).run []

def bytes (encoder : Encoder ε Unit) : Except ε Bytes :=
  match encoder.run with
  | (.ok (), output) => .ok output
  | (.error error, _) => .error error

/-- An encoder ran to its end or failed with some bytes written. -/
theorem run_of_bytes (encoder : Encoder ε Unit) :
    (∀ output, encoder.bytes = .ok output → encoder.run = (.ok (), output)) ∧
    ∀ error, encoder.bytes = .error error → ∃ output, encoder.run = (.error error, output) := by
  unfold bytes
  cases encoder.run with
  | mk result output =>
    cases result with
    | ok => simp
    | error error => simp

/-- At any output, `encoder` appends `encoded` of the output's length when
`accepted` holds, and fails when it does not. -/
def Writes (encoder : Encoder ε Unit) (encoded : Nat → Bytes) (accepted : Prop) : Prop :=
  ∀ output : Bytes,
    (accepted → (ExceptT.run encoder).run output = (.ok (), output ++ encoded output.length)) ∧
    (¬ accepted → ∃ error partialOutput,
      (ExceptT.run encoder).run output = (.error error, partialOutput))

namespace Writes

variable {first second : Encoder ε Unit} {encoded : Nat → Bytes} {accepted : Prop}

theorem congr {other : Nat → Bytes} {otherAccepted : Prop}
    (writes : Writes first encoded accepted)
    (sameBytes : ∀ position, encoded position = other position)
    (same : accepted ↔ otherAccepted) : Writes first other otherAccepted := by
  rw [← propext same, ← funext sameBytes]
  exact writes

theorem pure : Writes (Pure.pure () : Encoder ε Unit) (fun _ => []) True := by
  intro output
  refine ⟨fun _ => ?_, fun rejected => absurd trivial rejected⟩
  simp only [List.append_nil]
  rfl

theorem put (bytes : Bytes) : Writes (Encoder.put bytes : Encoder ε Unit) (fun _ => bytes) True := by
  intro output
  exact ⟨fun _ => rfl, fun rejected => absurd trivial rejected⟩

theorem throw (error : ε) (encoded : Nat → Bytes) :
    Writes (MonadExcept.throw error : Encoder ε Unit) encoded False := by
  intro output
  exact ⟨False.elim, fun _ => ⟨error, output, rfl⟩⟩

private theorem run_bind (output : Bytes) :
    (ExceptT.run (first >>= fun _ => second)).run output =
      match (ExceptT.run first).run output with
      | (.ok (), middle) => (ExceptT.run second).run middle
      | (.error error, middle) => (.error error, middle) := by
  simp only [ExceptT.run_bind, StateT.run_bind]
  cases result : (ExceptT.run first).run output with
  | mk outcome middle => cases outcome <;> rfl

theorem seq {rest : Nat → Bytes} {acceptedRest : Prop} (writes : Writes first encoded accepted)
    (writesRest : Writes second rest acceptedRest) :
    Writes (first >>= fun _ => second)
      (fun position => encoded position ++ rest (position + (encoded position).length))
      (accepted ∧ acceptedRest) := by
  intro output
  rw [run_bind]
  constructor
  · rintro ⟨accepts, acceptsRest⟩
    rw [(writes output).1 accepts]
    simp only [(writesRest _).1 acceptsRest, List.length_append, List.append_assoc]
  · intro rejected
    by_cases accepts : accepted
    · rw [(writes output).1 accepts]
      exact (writesRest _).2 fun acceptsRest => rejected ⟨accepts, acceptsRest⟩
    · obtain ⟨error, middle, fails⟩ := (writes output).2 accepts
      exact ⟨error, middle, by rw [fails]⟩

theorem atPosition {next : Nat → Encoder ε Unit} {encodedNext : Nat → Nat → Bytes}
    (each : ∀ position, Writes (next position) (encodedNext position) accepted) :
    Writes (Encoder.atPosition next) (fun position => encodedNext position position) accepted := by
  intro output
  exact each output.length output

/-- Encoding a list element by element accepts exactly the lists all of whose
elements are accepted. -/
theorem forM {encoder : α → Encoder ε Unit} {encode : Nat → α → Bytes} {accepts : α → Prop}
    (values : List α)
    (each : ∀ value ∈ values, Writes (encoder value) (encode · value) (accepts value)) :
    Writes (values.forM encoder) (fun position => Decoder.encodeAll encode position values)
      (∀ value ∈ values, accepts value) := by
  induction values with
  | nil => exact pure.congr (fun _ => rfl) (by simp)
  | cons value values ih =>
    have head := each value List.mem_cons_self
    have tail := ih fun value member =>
      each value (List.mem_cons_of_mem _ member)
    exact (head.seq tail).congr (fun _ => rfl) (by simp)

/-- What an encoder that runs on an empty output returns. -/
theorem bytes_eq (writes : Writes first encoded accepted) :
    (accepted → first.bytes = .ok (encoded 0)) ∧
      (¬ accepted → ∃ error, first.bytes = .error error) := by
  have whole := writes []
  unfold Encoder.bytes Encoder.run
  constructor
  · intro accepts
    rw [whole.1 accepts]
    rfl
  · intro rejected
    obtain ⟨error, partialOutput, fails⟩ := whole.2 rejected
    exact ⟨error, by rw [fails]⟩

theorem of_bytes_ok {output : Bytes} (writes : Writes first encoded accepted)
    (succeeds : first.bytes = .ok output) : accepted ∧ output = encoded 0 := by
  by_cases accepts : accepted
  · rw [writes.bytes_eq.1 accepts] at succeeds
    exact ⟨accepts, (Except.ok.inj succeeds).symm⟩
  · obtain ⟨error, fails⟩ := writes.bytes_eq.2 accepts
    rw [fails] at succeeds
    contradiction

end Writes

end Encoder

end FocalVector.Foundation
