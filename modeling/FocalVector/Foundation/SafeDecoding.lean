import FocalVector.Foundation.Checked
import FocalVector.Foundation.Decoding

/-!
Contract: decoders that may panic, on input that nothing is known about.

A decoder is safe on a byte string when it comes to an end by itself wherever it starts, stays
inside the bytes, and returns only values that satisfy a condition. Sequences of safe decoders
are safe, where each may rely on what the ones before it ensure.

Owns: `iterate`, `checked`, `Ensures` and its rules.

Does not own: any format.
-/

namespace FocalVector.Foundation.Decoder

variable {ε α β : Type} {bytes : Bytes}

/-- Change a value so many times. -/
def iterate (step : α → Decoder ε α) : Nat → α → Decoder ε α
  | 0, value => pure value
  | count + 1, value => do
      let next ← step value
      iterate step count next

def checked (decoder : Decoder ε α) : Decoder (Stop ε) α := fun cursor =>
  Checked.ofResult (decoder cursor)

theorem of_checked_ok {decoder : Decoder ε α} {cursor next : Cursor} {value : α}
    (returns : decoder.checked cursor = .ok (value, next)) : decoder cursor = .ok (value, next) := by
  unfold checked at returns
  cases outcome : decoder cursor with
  | error error => rw [outcome] at returns; cases returns
  | ok read => rw [outcome] at returns; exact congrArg Except.ok (Except.ok.inj returns)

/-- Wherever it starts in the bytes, the decoder returns or fails, and what it returns
satisfies a condition. -/
def Ensures (bytes : Bytes) (decoder : Decoder (Stop ε) α) (post : α → Prop) : Prop :=
  ∀ position ≤ bytes.length, Checked.Settles (decoder ⟨bytes, position⟩) ∧
    ∀ value next, decoder ⟨bytes, position⟩ = .ok (value, next) →
      next.bytes = bytes ∧ next.position ≤ bytes.length ∧ post value

namespace Ensures

variable {decoder : Decoder (Stop ε) α} {post : α → Prop}

theorem pure {value : α} (holds : post value) :
    Ensures bytes (Pure.pure value : Decoder (Stop ε) α) post := by
  intro position inside
  refine ⟨trivial, fun result next returns => ?_⟩
  obtain ⟨rfl, rfl⟩ := Prod.mk.inj (Except.ok.inj returns)
  exact ⟨rfl, inside, holds⟩

theorem throw (error : ε) :
    Ensures bytes (MonadExcept.throw (Stop.error error) : Decoder (Stop ε) α) post :=
  fun _ _ => ⟨trivial, fun _ _ returns => by cases returns⟩

theorem bind {next : α → Decoder (Stop ε) β} {later : β → Prop}
    (first : Ensures bytes decoder post)
    (second : ∀ value, post value → Ensures bytes (next value) later) :
    Ensures bytes (decoder >>= next) later := by
  intro position inside
  obtain ⟨settles, returns⟩ := first position inside
  cases outcome : decoder ⟨bytes, position⟩ with
  | error stop =>
    rw [bind_error outcome]
    refine ⟨?_, fun _ _ returns => by cases returns⟩
    rw [outcome] at settles
    cases stop with
    | error => trivial
    | panic => exact settles
    | unfinished => exact settles
  | ok found =>
    obtain ⟨value, middle, position⟩ := found
    obtain ⟨rfl, middleInside, holds⟩ := returns value _ outcome
    rw [bind_ok outcome]
    exact second value holds position middleInside

theorem reject (bad : Prop) [Decidable bad] (error : ε) :
    Ensures bytes (Decoder.reject bad (Stop.error error)) fun _ => ¬ bad := by
  unfold Decoder.reject
  split
  · exact throw error
  next good => exact pure good

theorem ofExcept {result : Checked ε α} (settles : result.Settles)
    (holds : ∀ value, result = .ok value → post value) :
    Ensures bytes (Decoder.ofExcept result) post := by
  intro position inside
  cases result with
  | ok value =>
    refine ⟨trivial, fun other next returns => ?_⟩
    obtain ⟨rfl, rfl⟩ := Prod.mk.inj (Except.ok.inj returns)
    exact ⟨rfl, inside, holds value rfl⟩
  | error stop =>
    refine ⟨?_, fun _ _ returns => by cases returns⟩
    cases stop with
    | error => trivial
    | panic => exact settles
    | unfinished => exact settles

theorem checked {decoder : Decoder ε α} (stable : Stable decoder)
    (holds : ∀ cursor value next, decoder cursor = .ok (value, next) → post value) :
    Ensures bytes decoder.checked post := by
  refine fun position inside => ⟨Checked.settles_ofResult _, fun value next returns => ?_⟩
  have reads := of_checked_ok returns
  obtain ⟨sameBytes, within, -⟩ := stable reads
  exact ⟨sameBytes, within inside, holds _ _ _ reads⟩

theorem position_read : @Ensures ε _ bytes Decoder.position (· ≤ bytes.length) := by
  intro position inside
  refine ⟨trivial, fun value next returns => ?_⟩
  obtain ⟨rfl, rfl⟩ := Prod.mk.inj (Except.ok.inj returns)
  exact ⟨rfl, inside, inside⟩

theorem with_position {placed : Nat × α → Prop} (ensures : Ensures bytes decoder post)
    (reads : ∀ position value next, decoder ⟨bytes, position⟩ = .ok (value, next) →
      placed (position, value)) :
    Ensures bytes (do
      let position ← Decoder.position
      let value ← decoder
      Pure.pure (position, value)) placed := by
  have ends := position_read.bind fun (position : Nat) _ => ensures.bind fun value _ =>
    @pure ε _ bytes (fun _ => True) (position, value) trivial
  intro position inside
  refine ⟨(ends position inside).1, fun read next returns => ?_⟩
  obtain ⟨sameBytes, nextInside, -⟩ := (ends position inside).2 read next returns
  obtain ⟨_, _, started, returns⟩ := of_bind_ok returns
  cases started
  obtain ⟨value, _, found, returns⟩ := of_bind_ok returns
  cases returns
  exact ⟨sameBytes, nextInside, reads position value _ found⟩

theorem take (short : ε) (length : Nat) :
    Ensures bytes (Decoder.take (Stop.error short) length) fun taken => taken.length = length := by
  intro position inside
  simp only [Decoder.take]
  split
  next fits =>
    refine ⟨trivial, fun value next returns => ?_⟩
    obtain ⟨rfl, rfl⟩ := Prod.mk.inj (Except.ok.inj returns)
    refine ⟨rfl, fits, ?_⟩
    rw [List.length_take, List.length_drop]
    omega
  next => exact ⟨trivial, fun _ _ returns => by cases returns⟩

theorem finish (trailing : ε) :
    Ensures bytes (Decoder.finish (Stop.error trailing)) fun _ => True := by
  intro position inside
  unfold Decoder.finish
  split
  · refine ⟨trivial, fun value next returns => ?_⟩
    obtain ⟨rfl, rfl⟩ := Prod.mk.inj (Except.ok.inj returns)
    exact ⟨rfl, inside, trivial⟩
  · exact ⟨trivial, fun _ _ returns => by cases returns⟩

/-- A loop keeps what each of its rounds keeps. -/
theorem iterate {step : α → Decoder (Stop ε) α} {holds : Nat → α → Prop} {total : Nat}
    (each : ∀ count value, count < total → holds count value →
      Ensures bytes (step value) (holds (count + 1))) {rounds count : Nat} {value : α}
    (remaining : count + rounds = total) (start : holds count value) :
    Ensures bytes (Decoder.iterate step rounds value) (holds total) := by
  induction rounds generalizing count value with
  | zero => exact pure (remaining ▸ start)
  | succ rounds ih =>
    exact (each count value (by omega) start).bind fun _ next =>
      ih (by omega) next

theorem collect {each : α → Prop} (ensures : Ensures bytes decoder each) (count : Nat) :
    Ensures bytes (Decoder.collect decoder count) fun values =>
      values.length = count ∧ ∀ value ∈ values, each value := by
  induction count with
  | zero => exact pure ⟨rfl, nofun⟩
  | succ count ih =>
    refine ensures.bind fun value holds => ih.bind fun values all => ?_
    exact pure ⟨congrArg (· + 1) all.1, List.forall_mem_cons.mpr ⟨holds, all.2⟩⟩

/-- The value that is read, without the cursor behind it. -/
theorem map_fst (ensures : Ensures bytes decoder post) {position : Nat}
    (inside : position ≤ bytes.length) :
    Checked.Settles ((decoder ⟨bytes, position⟩).map Prod.fst) ∧
      ∀ value, (decoder ⟨bytes, position⟩).map Prod.fst = .ok value → post value := by
  obtain ⟨settles, returns⟩ := ensures position inside
  cases outcome : decoder ⟨bytes, position⟩ with
  | error stop =>
    rw [outcome] at settles
    refine ⟨?_, fun _ returns => by cases returns⟩
    cases stop with
    | error => trivial
    | panic => exact settles
    | unfinished => exact settles
  | ok found =>
    refine ⟨trivial, fun value same => ?_⟩
    cases same
    exact (returns found.1 found.2 outcome).2.2

end Ensures

end FocalVector.Foundation.Decoder
