import FocalVector.Foundation.LittleEndian
import Mathlib.Tactic.Basic

/-!
Contract: cursor decoders over byte strings and the laws that relate a decoder
to the bytes an encoder wrote.

A decoder is a state computation over a cursor: a byte string and a position
in it. `Reads` says, for a piece of input that stands at a known position, both
when the decoder accepts it and what it returns then, and that it fails
otherwise. `Stable` says that a decoder which succeeds does not look past the
bytes it consumed, so that more input behind them changes nothing.

Owns: the decoder type, its primitive operations, and the composition rules of
the two laws.

Does not own: any concrete format, its limits or its error values.
-/

namespace FocalVector.Foundation

/-- A byte string and the position of the next byte to read. -/
structure Cursor where
  bytes : Bytes
  position : Nat
deriving DecidableEq, Repr

/-- A fallible computation that consumes bytes from a cursor. -/
abbrev Decoder (ε α : Type) := StateT Cursor (Except ε) α

namespace Decoder

variable {ε α β : Type}

/-- The next `length` bytes, or `short` when the input ends before them. -/
def take (short : ε) (length : Nat) : Decoder ε Bytes := fun cursor =>
  let stop := cursor.position + length
  if stop ≤ cursor.bytes.length then
    .ok ((cursor.bytes.drop cursor.position).take length, { cursor with position := stop })
  else
    .error short

/-- Fail with `error` when `bad` holds. -/
def reject (bad : Prop) [Decidable bad] (error : ε) : Decoder ε Unit :=
  if bad then throw error else pure ()

def position : Decoder ε Nat := fun cursor => .ok (cursor.position, cursor)

/-- Succeed only at the end of the input. -/
def finish (trailing : ε) : Decoder ε Unit := fun cursor =>
  if cursor.position = cursor.bytes.length then .ok ((), cursor) else .error trailing

def ofExcept (result : Except ε α) : Decoder ε α := fun cursor => result.map (·, cursor)

/-- Run a decoder `count` times and keep the results in order. -/
def collect (decoder : Decoder ε α) : Nat → Decoder ε (List α)
  | 0 => pure []
  | count + 1 => do
      let value ← decoder
      let values ← collect decoder count
      pure (value :: values)

/-- Run a decoder on a whole byte string and drop the final cursor. -/
def run (decoder : Decoder ε α) (bytes : Bytes) : Except ε α :=
  (decoder ⟨bytes, 0⟩).map Prod.fst

variable {decoder : Decoder ε α} {f : α → Decoder ε β} {cursor : Cursor} {value : α}

theorem bind_ok {next : Cursor}
    (runs : decoder cursor = .ok (value, next)) : (decoder >>= f) cursor = f value next := by
  simp only [Bind.bind, StateT.bind, Except.bind, runs]

theorem bind_error {error : ε}
    (runs : decoder cursor = .error error) : (decoder >>= f) cursor = .error error := by
  simp only [Bind.bind, StateT.bind, Except.bind, runs]

/-- A sequence that succeeds has both its parts succeed. -/
theorem of_bind_ok {final : Cursor}
    {result : β} (runs : (decoder >>= f) cursor = .ok (result, final)) :
    ∃ value next, decoder cursor = .ok (value, next) ∧ f value next = .ok (result, final) := by
  cases first : decoder cursor with
  | error error =>
    rw [bind_error first] at runs
    cases runs
  | ok pair =>
    obtain ⟨value, next⟩ := pair
    rw [bind_ok first] at runs
    exact ⟨value, next, rfl, runs⟩

theorem of_run_ok {bytes : Bytes}
    (runs : decoder.run bytes = .ok value) :
    ∃ final, decoder ⟨bytes, 0⟩ = .ok (value, final) := by
  unfold run at runs
  cases read : decoder ⟨bytes, 0⟩ with
  | error error =>
    rw [read] at runs
    cases runs
  | ok pair =>
    rw [read] at runs
    exact ⟨pair.2, congrArg Except.ok (Prod.ext (Except.ok.inj runs) rfl)⟩

theorem of_ofExcept_ok {outcome : Except ε α} {final : Cursor}
    (runs : ofExcept outcome cursor = .ok (value, final)) : outcome = .ok value := by
  unfold ofExcept at runs
  cases outcome with
  | error error => cases runs
  | ok result => exact congrArg Except.ok (Prod.mk.inj (Except.ok.inj runs)).1

/-! ## Reading back what was written -/

/-- `decoder`, started at `position` on input that continues with `encoded`,
returns `value` and consumes exactly `encoded` when `accepted` holds, and fails
when it does not. -/
def Reads (decoder : Decoder ε α) (position : Nat) (encoded : Bytes) (value : α)
    (accepted : Prop) : Prop :=
  ∀ before after : Bytes, before.length = position →
    (accepted → decoder ⟨before ++ encoded ++ after, position⟩ =
      .ok (value, ⟨before ++ encoded ++ after, position + encoded.length⟩)) ∧
    (¬ accepted → ∃ error, decoder ⟨before ++ encoded ++ after, position⟩ = .error error)

namespace Reads

variable {decoder : Decoder ε α} {position : Nat} {encoded : Bytes} {value : α}
  {accepted : Prop}

theorem congr {other : Prop} (reads : Reads decoder position encoded value accepted)
    (same : accepted ↔ other) : Reads decoder position encoded value other := by
  rw [← propext same]
  exact reads

theorem pure (value : α) (position : Nat) :
    Reads (Pure.pure value : Decoder ε α) position [] value True := by
  intro before after atPosition
  exact ⟨fun _ => by rw [List.append_nil]; rfl, fun rejected => absurd trivial rejected⟩

theorem bind {f : α → Decoder ε β} {rest : Bytes} {result : β} {acceptedRest : Prop}
    (first : Reads decoder position encoded value accepted)
    (second : Reads (f value) (position + encoded.length) rest result acceptedRest) :
    Reads (decoder >>= f) position (encoded ++ rest) result (accepted ∧ acceptedRest) := by
  intro before after atPosition
  have left := first before (rest ++ after) atPosition
  have right := second (before ++ encoded) after (by simp [atPosition])
  simp only [List.append_assoc] at left right ⊢
  constructor
  · rintro ⟨acceptsFirst, acceptsSecond⟩
    simp only [Bind.bind, StateT.bind, Except.bind, left.1 acceptsFirst, right.1 acceptsSecond,
      List.length_append, Nat.add_assoc]
  · intro rejected
    by_cases acceptsFirst : accepted
    · obtain ⟨error, fails⟩ := right.2 (fun acceptsSecond => rejected ⟨acceptsFirst, acceptsSecond⟩)
      exact ⟨error, by
        simp only [Bind.bind, StateT.bind, Except.bind, left.1 acceptsFirst, fails]⟩
    · obtain ⟨error, fails⟩ := left.2 acceptsFirst
      exact ⟨error, by simp only [Bind.bind, StateT.bind, Except.bind, fails]⟩

theorem bind_pure {result : β} {f : α → β}
    (reads : Reads decoder position encoded value accepted) (shaped : f value = result) :
    Reads (decoder >>= fun value => Pure.pure (f value)) position encoded result accepted := by
  have composed := reads.bind (f := fun value => Pure.pure (f value))
    (Reads.pure (f value) (position + encoded.length))
  simpa only [List.append_nil, and_true, shaped] using composed

theorem take (short : ε) (position : Nat) (encoded : Bytes) :
    Reads (Decoder.take short encoded.length) position encoded encoded True := by
  intro before after atPosition
  subst atPosition
  refine ⟨fun _ => ?_, fun rejected => absurd trivial rejected⟩
  have fits : before.length + encoded.length ≤ (before ++ encoded ++ after).length := by
    simp only [List.length_append]
    omega
  simp only [Decoder.take]
  rw [if_pos fits]
  simp only [List.append_assoc, List.drop_left, List.take_left]

theorem take_of_length (short : ε) (position : Nat) {encoded : Bytes} {length : Nat}
    (sameLength : encoded.length = length) :
    Reads (Decoder.take short length) position encoded encoded True := by
  subst sameLength
  exact take short position encoded

theorem reject (bad : Prop) [Decidable bad] (error : ε) (position : Nat) :
    Reads (Decoder.reject bad error) position [] () (¬ bad) := by
  intro before after atPosition
  by_cases isBad : bad
  · refine ⟨fun accepted => absurd isBad accepted, fun _ => ⟨error, ?_⟩⟩
    simp only [Decoder.reject, if_pos isBad]
    rfl
  · refine ⟨fun _ => ?_, fun rejected => absurd isBad rejected⟩
    rw [Decoder.reject, if_neg isBad]
    rfl

theorem position_read (position : Nat) :
    Reads (Decoder.position : Decoder ε Nat) position [] position True := by
  intro before after atPosition
  refine ⟨fun _ => ?_, fun rejected => absurd trivial rejected⟩
  simp [Decoder.position]

theorem bind_reject {bad : α → Prop} [DecidablePred bad] {error : ε} {shape : α → β} {result : β}
    (reads : Reads decoder position encoded value accepted) (shaped : shape value = result) :
    Reads (decoder >>= fun value => Decoder.reject (bad value) error >>= fun _ =>
      Pure.pure (shape value)) position encoded result (accepted ∧ ¬ bad value) := by
  have composed := reads.bind
    (f := fun value => Decoder.reject (bad value) error >>= fun _ => Pure.pure (shape value))
    ((Reads.reject (bad value) error _).bind_pure (f := fun _ => shape value) shaped)
  simpa only [List.append_nil] using composed

/-- A decoder that follows a check made before any byte is consumed. -/
theorem check_bind {checked : Decoder ε Unit} {next : Decoder ε α} {acceptedNext : Prop}
    (first : Reads checked position [] () accepted)
    (second : Reads next position encoded value acceptedNext) :
    Reads (checked >>= fun _ => next) position encoded value (accepted ∧ acceptedNext) := by
  have shifted : Reads next (position + ([] : Bytes).length) encoded value acceptedNext := second
  exact first.bind (f := fun _ => next) shifted

end Reads

variable {encoded : Bytes} {accepted : Prop}

theorem Reads.eq_of_run {result : α} (reads : Reads decoder 0 encoded value accepted)
    (runs : decoder.run encoded = .ok result) : result = value := by
  obtain ⟨final, decodes⟩ := of_run_ok runs
  have whole := reads [] [] rfl
  rw [List.nil_append, List.append_nil] at whole
  by_cases accepts : accepted
  · rw [whole.1 accepts] at decodes
    exact (Prod.mk.inj (Except.ok.inj decodes)).1.symm
  · obtain ⟨error, fails⟩ := whole.2 accepts
    rw [fails] at decodes
    cases decodes

def encodeAll (encode : Nat → α → Bytes) : Nat → List α → Bytes
  | _, [] => []
  | position, value :: values =>
    encode position value ++
      encodeAll encode (position + (encode position value).length) values

@[simp] theorem encodeAll_const (encode : α → Bytes) (position : Nat) (values : List α) :
    encodeAll (fun _ => encode) position values = values.flatMap encode := by
  induction values generalizing position with
  | nil => rfl
  | cons value values ih =>
    simp only [encodeAll, List.flatMap_cons, ih]

theorem encodeAll_shift (encode : Nat → α → Bytes) (shift position : Nat) (values : List α) :
    encodeAll (fun position => encode (shift + position)) position values =
      encodeAll encode (shift + position) values := by
  induction values generalizing position with
  | nil => rfl
  | cons value values ih =>
    simp only [encodeAll, ih, Nat.add_assoc]

theorem Reads.collect_map {γ : Type} {encode : Nat → γ → Bytes}
    {f : γ → α} {accepts : γ → Prop} (values : List γ)
    (each : ∀ value ∈ values, ∀ position,
      Reads decoder position (encode position value) (f value) (accepts value))
    (position : Nat) :
    Reads (collect decoder values.length) position (encodeAll encode position values)
      (values.map f) (∀ value ∈ values, accepts value) := by
  induction values generalizing position with
  | nil => exact (Reads.pure [] position).congr (by simp)
  | cons value values ih =>
    have head := each value (by simp) position
    have tail := ih
      (fun value member => each value (by simp [member]))
      (position + (encode position value).length)
    have whole : Reads (collect decoder (value :: values).length) position
        (encodeAll encode position (value :: values)) (f value :: values.map f)
        (accepts value ∧ ∀ value ∈ values, accepts value) :=
      head.bind (tail.bind_pure rfl)
    exact whole.congr (by simp)

theorem Reads.collect_list {encode : Nat → α → Bytes} {accepts : α → Prop}
    (values : List α)
    (each : ∀ value ∈ values, ∀ position,
      Reads decoder position (encode position value) value (accepts value))
    (position : Nat) :
    Reads (collect decoder values.length) position (encodeAll encode position values) values
      (∀ value ∈ values, accepts value) := by
  have mapped := Reads.collect_map (f := id) values each position
  rwa [List.map_id] at mapped

variable {before : Bytes}

/-- A decoder that must end where the input ends: what it accepts is handed on,
and input with anything behind it is refused. -/
theorem Reads.finish {position : Nat} (reads : Reads decoder position encoded value accepted) (trailing : ε)
    (result : α → Except ε β) (atPosition : before.length = position)
    (after : Bytes) :
    (accepted ∧ after = [] →
      (decoder >>= fun value => Decoder.finish trailing >>= fun _ =>
        Decoder.ofExcept (result value)) ⟨before ++ encoded ++ after, position⟩ =
      (result value).map (·, ⟨before ++ encoded ++ after, position + encoded.length⟩)) ∧
    (¬ (accepted ∧ after = []) → ∃ error,
      (decoder >>= fun value => Decoder.finish trailing >>= fun _ =>
        Decoder.ofExcept (result value)) ⟨before ++ encoded ++ after, position⟩ =
      .error error) := by
  have whole := reads before after atPosition
  constructor
  · rintro ⟨accepts, rfl⟩
    have atEnd : position + encoded.length = (before ++ encoded ++ []).length := by
      simp [atPosition]
    simp only [Bind.bind, StateT.bind, Except.bind, whole.1 accepts, Decoder.finish]
    rw [if_pos atEnd]
    rfl
  · intro rejected
    by_cases accepts : accepted
    · have beyond : after ≠ [] := fun empty => rejected ⟨accepts, empty⟩
      have notAtEnd : position + encoded.length ≠ (before ++ encoded ++ after).length := by
        have positive := List.length_pos_iff.mpr beyond
        simp only [List.length_append]
        omega
      refine ⟨trailing, ?_⟩
      simp only [Bind.bind, StateT.bind, Except.bind, whole.1 accepts, Decoder.finish]
      rw [if_neg notAtEnd]
    · obtain ⟨error, fails⟩ := whole.2 accepts
      exact ⟨error, by simp only [Bind.bind, StateT.bind, Except.bind, fails]⟩

/-- A final field of a stated length is accepted only when it is all that is
left, and is then handed on as a whole. -/
theorem take_rest {short trailing : ε} {length : Nat} {result : Bytes → Except ε β}
    {rest : Bytes} {value : β} :
    (take short length >>= fun bytes => ofExcept (result bytes) >>= fun value =>
      finish trailing >>= fun _ => pure value) ⟨before ++ rest, before.length⟩ =
        .ok (value, cursor) ↔
      length = rest.length ∧ result rest = .ok value ∧
        cursor = ⟨before ++ rest, before.length + length⟩ := by
  simp only [Bind.bind, StateT.bind, Except.bind, take, List.length_append, List.drop_left,
    Nat.add_le_add_iff_left]
  by_cases inside : length ≤ rest.length
  · simp only [if_pos inside]
    cases found : result (rest.take length) with
    | error error =>
      simp only [ofExcept, Except.map, reduceCtorEq, false_iff, not_and]
      rintro rfl accepted
      simp [List.take_length, accepted] at found
    | ok other =>
      simp only [ofExcept, Except.map, finish, List.length_append, Nat.add_left_cancel_iff]
      by_cases whole : length = rest.length
      · subst whole
        rw [List.take_length] at found
        have returns : (Pure.pure other : Decoder ε β)
            ⟨before ++ rest, before.length + rest.length⟩ =
              .ok (other, ⟨before ++ rest, before.length + rest.length⟩) := rfl
        simp [found, returns, eq_comm]
      · simp [whole]
  · have differ : length ≠ rest.length := by omega
    simp [if_neg inside, differ]

/-! ## Success does not depend on what follows -/

/-- A successful run keeps the bytes, moves the position forward inside them,
and would have gone the same way with more bytes behind. -/
def Stable (decoder : Decoder ε α) : Prop :=
  ∀ ⦃bytes : Bytes⦄ ⦃position : Nat⦄ ⦃value : α⦄ ⦃cursor : Cursor⦄,
    decoder ⟨bytes, position⟩ = .ok (value, cursor) →
      cursor.bytes = bytes ∧
      (position ≤ bytes.length → cursor.position ≤ bytes.length) ∧
      ∀ more : Bytes, decoder ⟨bytes ++ more, position⟩ =
        .ok (value, ⟨bytes ++ more, cursor.position⟩)

namespace Stable

theorem pure (value : α) : Stable (Pure.pure value : Decoder ε α) := by
  intro bytes position result cursor succeeds
  obtain ⟨rfl, rfl⟩ := Prod.mk.inj (Except.ok.inj succeeds)
  exact ⟨rfl, fun inside => inside, fun more => rfl⟩

theorem throw (error : ε) : Stable (MonadExcept.throw error : Decoder ε α) := by
  intro bytes position value cursor succeeds
  exact absurd succeeds (by simp [MonadExcept.throw, throwThe, MonadExceptOf.throw, StateT.lift,
    Bind.bind, Except.bind])

theorem bind {decoder : Decoder ε α} {f : α → Decoder ε β} (first : Stable decoder)
    (second : ∀ value, Stable (f value)) : Stable (decoder >>= f) := by
  intro bytes position result cursor succeeds
  simp only [Bind.bind, StateT.bind, Except.bind] at succeeds ⊢
  cases outcome : decoder ⟨bytes, position⟩ with
  | error error => simp [outcome] at succeeds
  | ok pair =>
    obtain ⟨value, middle⟩ := pair
    simp only [outcome] at succeeds
    obtain ⟨sameBytes, inside, extends_⟩ := first outcome
    obtain ⟨middleBytes, middlePosition⟩ := middle
    simp only at sameBytes
    subst sameBytes
    obtain ⟨sameBytes, insideRest, extendsRest⟩ := second value succeeds
    refine ⟨sameBytes, fun start => insideRest (inside start), fun more => ?_⟩
    rw [extends_ more]
    exact extendsRest more

theorem take (short : ε) (length : Nat) : Stable (Decoder.take short length) := by
  intro bytes position value cursor succeeds
  simp only [Decoder.take] at succeeds ⊢
  split at succeeds
  next fits =>
      simp only [Except.ok.injEq, Prod.mk.injEq] at succeeds
      obtain ⟨rfl, rfl⟩ := succeeds
      refine ⟨rfl, fun _ => fits, fun more => ?_⟩
      have fitsMore : position + length ≤ (bytes ++ more).length := by
        rw [List.length_append]
        omega
      rw [if_pos fitsMore, List.drop_append_of_le_length (by omega),
        List.take_append_of_le_length (by rw [List.length_drop]; omega)]
  next short => simp at succeeds

theorem reject (bad : Prop) [Decidable bad] (error : ε) : Stable (Decoder.reject bad error) := by
  unfold Decoder.reject
  split
  · exact throw error
  · exact pure ()

theorem position_read : Stable (Decoder.position : Decoder ε Nat) := by
  intro bytes position value cursor succeeds
  simp only [Decoder.position, Except.ok.injEq, Prod.mk.injEq] at succeeds
  obtain ⟨rfl, rfl⟩ := succeeds
  exact ⟨rfl, fun inside => inside, fun more => rfl⟩

theorem collect {decoder : Decoder ε α} (each : Stable decoder) (count : Nat) :
    Stable (Decoder.collect decoder count) := by
  induction count with
  | zero => exact pure []
  | succ count ih =>
    exact each.bind fun value => ih.bind fun values => pure (value :: values)

end Stable

/-- A decoder that consumes exactly what was encoded cannot also succeed on a
strict part of it: nothing encoded is a proper beginning of another encoding. -/
theorem Reads.fails_of_strict {position : Nat} (reads : Reads decoder position encoded value accepted)
    (stable : Stable decoder) (atPosition : before.length = position)
    {length : Nat} (shorter : length < encoded.length) :
    ∃ error, decoder ⟨before ++ encoded.take length, position⟩ = .error error := by
  cases outcome : decoder ⟨before ++ encoded.take length, position⟩ with
  | error error => exact ⟨error, rfl⟩
  | ok pair =>
    obtain ⟨other, cursor⟩ := pair
    obtain ⟨-, inside, extends_⟩ := stable outcome
    have whole := extends_ (encoded.drop length)
    rw [List.append_assoc, List.take_append_drop] at whole
    have bound := inside (by simp [atPosition])
    have exact_ := reads before [] atPosition
    rw [List.append_nil] at exact_
    exfalso
    by_cases accepts : accepted
    · rw [exact_.1 accepts] at whole
      simp only [Except.ok.injEq, Prod.mk.injEq, Cursor.mk.injEq] at whole
      have consumed := whole.2.2
      rw [List.length_append, List.length_take] at bound
      omega
    · obtain ⟨error, fails⟩ := exact_.2 accepts
      rw [fails] at whole
      exact absurd whole (by simp)

end Decoder

end FocalVector.Foundation
