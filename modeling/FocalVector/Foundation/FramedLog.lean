import FocalVector.Foundation.LittleEndian
import Mathlib.Data.List.Basic
import Mathlib.Data.Nat.Find

/-!
Contract: append-only logs of checksummed, length-prefixed frames, and their
recovery.

A frame is a fixed header, the payload length in four bytes, the payload, and a
four-byte checksum of the payload. Recovery reads frames from the start: it
stops without error where the input ends or a frame is cut short, and fails on
a wrong header, an oversized length or a checksum mismatch. The state is folded
over the payloads with a fallible step.

Owns: the format, the scanner of one frame, the recovery loop, and what
recovery does on whole frames, on a cut log and on a log with one altered byte.

Does not own: what a payload means, or the checksum function.
-/

namespace FocalVector.Foundation

open LittleEndian

/-- A framed log format. The checksum tells any two payloads apart that differ
in a single byte. -/
structure FrameFormat where
  header : Bytes
  maxPayload : Nat
  checksum : Bytes → UInt32
  maxPayload_lt : maxPayload < 2 ^ 32
  detects : ∀ (left right : Bytes) (byte other : UInt8), byte ≠ other →
    checksum (left ++ byte :: right) ≠ checksum (left ++ other :: right)

/-- Why a log is corrupt. -/
inductive FrameFault where
  | badHeader
  | tooLong
  | badChecksum
deriving DecidableEq, Repr

/-- What stands at the front of a log. -/
inductive FrameScan where
  | done
  | torn
  | corrupt (fault : FrameFault)
  | frame (payload rest : Bytes)
deriving DecidableEq, Repr

namespace FrameFormat

variable (format : FrameFormat)

def frame (payload : Bytes) : Bytes :=
  format.header ++ u32Bytes (UInt32.ofNat payload.length) ++ payload ++
    u32Bytes (format.checksum payload)

def frames (payloads : List Bytes) : Bytes := payloads.flatMap format.frame

/-- Read the front of a log. -/
def scan (bytes : Bytes) : FrameScan :=
  if bytes = [] then .done
  else if bytes.length < format.header.length + 4 then .torn
  else if bytes.take format.header.length ≠ format.header then .corrupt .badHeader
  else
    let length := (u32OfBytes ((bytes.drop format.header.length).take 4)).toNat
    let body := bytes.drop (format.header.length + 4)
    if format.maxPayload < length then .corrupt .tooLong
    else if body.length < length + 4 then .torn
    else if format.checksum (body.take length) ≠ u32OfBytes ((body.drop length).take 4) then
      .corrupt .badChecksum
    else .frame (body.take length) (body.drop (length + 4))

section Loop

variable {σ ε : Type} (corrupt : FrameFault → Nat → ε) (step : σ → Bytes → Except ε σ)

def recoverLoop : Nat → Bytes → Nat → σ → Except ε (σ × Nat)
  | 0, _, position, state => .ok (state, position)
  | rounds + 1, bytes, position, state =>
    match format.scan bytes with
    | .done => .ok (state, position)
    | .torn => .ok (state, position)
    | .corrupt fault => .error (corrupt fault position)
    | .frame payload rest => do
        let state ← step state payload
        recoverLoop rounds rest (position + (format.frame payload).length) state

/-- Recover a log that continues at `position`: the state after the frames read,
and the end of the last whole frame. -/
def recover (bytes : Bytes) (position : Nat) (state : σ) : Except ε (σ × Nat) :=
  format.recoverLoop corrupt step (bytes.length + 1) bytes position state

end Loop

/-! ## Frames -/

@[simp] theorem frames_nil : format.frames [] = [] := rfl

@[simp] theorem frames_cons (payload : Bytes) (payloads : List Bytes) :
    format.frames (payload :: payloads) = format.frame payload ++ format.frames payloads := rfl

@[simp] theorem frames_append (left right : List Bytes) :
    format.frames (left ++ right) = format.frames left ++ format.frames right := by
  simp [frames]

theorem frame_length (payload : Bytes) :
    (format.frame payload).length = format.header.length + 8 + payload.length := by
  simp [frame]
  omega

variable {format}

theorem scan_header (lengthField body : Bytes) (fourBytes : lengthField.length = 4) :
    format.scan (format.header ++ lengthField ++ body) =
      if format.maxPayload < (u32OfBytes lengthField).toNat then .corrupt .tooLong
      else if body.length < (u32OfBytes lengthField).toNat + 4 then .torn
      else if format.checksum (body.take (u32OfBytes lengthField).toNat) ≠
          u32OfBytes ((body.drop (u32OfBytes lengthField).toNat).take 4) then
        .corrupt .badChecksum
      else .frame (body.take (u32OfBytes lengthField).toNat)
        (body.drop ((u32OfBytes lengthField).toNat + 4)) := by
  have nonempty : format.header ++ lengthField ++ body ≠ [] := by
    intro empty
    have lengths := congrArg List.length empty
    simp [fourBytes] at lengths
  have longEnough : ¬ (format.header ++ lengthField ++ body).length < format.header.length + 4 := by
    simp [fourBytes]
  have rightHeader : (format.header ++ lengthField ++ body).take format.header.length =
      format.header := by simp [List.append_assoc]
  have field : ((format.header ++ lengthField ++ body).drop format.header.length).take 4 =
      lengthField := by simp [List.append_assoc, ← fourBytes]
  have rest : (format.header ++ lengthField ++ body).drop (format.header.length + 4) = body := by
    rw [← fourBytes, ← List.length_append]
    exact List.drop_left
  unfold scan
  rw [if_neg nonempty, if_neg longEnough, if_neg (not_not_intro rightHeader), field, rest]

theorem u32_ofNat_toNat {length : Nat} (small : length < 2 ^ 32) :
    (UInt32.ofNat length).toNat = length := by
  rw [UInt32.toNat_ofNat', Nat.mod_eq_of_lt small]

variable {payload : Bytes}

/-- A whole frame is scanned as such. -/
theorem scan_frame (fits : payload.length ≤ format.maxPayload) (rest : Bytes) :
    format.scan (format.frame payload ++ rest) = .frame payload rest := by
  have small : payload.length < 2 ^ 32 := lt_of_le_of_lt fits format.maxPayload_lt
  have shape : format.frame payload ++ rest =
      format.header ++ u32Bytes (UInt32.ofNat payload.length) ++
        (payload ++ (u32Bytes (format.checksum payload) ++ rest)) := by
    simp [frame, List.append_assoc]
  have stored : (u32Bytes (format.checksum payload) ++ rest).take 4 =
      u32Bytes (format.checksum payload) :=
    List.take_left' (u32Bytes_length _)
  have beyond : (u32Bytes (format.checksum payload) ++ rest).drop 4 = rest :=
    List.drop_left' (u32Bytes_length _)
  rw [shape, scan_header _ _ (u32Bytes_length _), u32OfBytes_u32Bytes, u32_ofNat_toNat small,
    if_neg (by omega), if_neg (by simp), List.take_left, List.drop_left, stored,
    u32OfBytes_u32Bytes, if_neg (by simp), ← List.drop_drop, List.drop_left, beyond]

theorem scan_frame_tooLong (small : payload.length < 2 ^ 32)
    (tooLong : format.maxPayload < payload.length) (rest : Bytes) :
    format.scan (format.frame payload ++ rest) = .corrupt .tooLong := by
  have shape : format.frame payload ++ rest =
      format.header ++ u32Bytes (UInt32.ofNat payload.length) ++
        (payload ++ (u32Bytes (format.checksum payload) ++ rest)) := by
    simp [frame, List.append_assoc]
  rw [shape, scan_header _ _ (u32Bytes_length _), u32OfBytes_u32Bytes, u32_ofNat_toNat small,
    if_pos tooLong]

variable {bytes : Bytes}

theorem scan_eq_frame {rest : Bytes}
    (scanned : format.scan bytes = .frame payload rest) :
    bytes = format.frame payload ++ rest ∧ payload.length ≤ format.maxPayload := by
  unfold scan at scanned
  split at scanned
  · contradiction
  split at scanned
  · contradiction
  next longEnough =>
  split at scanned
  · contradiction
  next header =>
  generalize isField : (bytes.drop format.header.length).take 4 = field at scanned
  generalize isBody : bytes.drop (format.header.length + 4) = body at scanned
  simp only at scanned
  split at scanned
  · contradiction
  next admissible =>
  split at scanned
  · contradiction
  next whole =>
  split at scanned
  · contradiction
  next checks =>
  simp only [FrameScan.frame.injEq] at scanned
  obtain ⟨rfl, rfl⟩ := scanned
  have fieldLength : field.length = 4 := by
    rw [← isField, List.length_take, List.length_drop]
    omega
  have sumLength : ((body.drop (u32OfBytes field).toNat).take 4).length = 4 := by
    rw [List.length_take, List.length_drop]
    omega
  have payloadLength : (body.take (u32OfBytes field).toNat).length = (u32OfBytes field).toNat := by
    rw [List.length_take]
    omega
  have storedLength : u32Bytes (UInt32.ofNat (body.take (u32OfBytes field).toNat).length) = field := by
    rw [payloadLength, UInt32.ofNat_toNat, u32Bytes_u32OfBytes fieldLength]
  refine ⟨?_, by omega⟩
  calc bytes
      = bytes.take format.header.length ++ ((bytes.drop format.header.length).take 4 ++
          (bytes.drop format.header.length).drop 4) := by
        rw [List.take_append_drop, List.take_append_drop]
    _ = format.header ++ (field ++ body) := by
        rw [not_not.mp header, isField, List.drop_drop, isBody]
    _ = format.header ++ (field ++ (body.take (u32OfBytes field).toNat ++
          ((body.drop (u32OfBytes field).toNat).take 4 ++
            (body.drop (u32OfBytes field).toNat).drop 4))) := by
        rw [List.take_append_drop, List.take_append_drop]
    _ = _ := by
        rw [frame, storedLength, not_not.mp checks, u32Bytes_u32OfBytes sumLength, List.drop_drop]
        simp only [List.append_assoc]

theorem scan_length {rest : Bytes}
    (scanned : format.scan bytes = .frame payload rest) :
    bytes.length = (format.frame payload).length + rest.length := by
  rw [(scan_eq_frame scanned).1, List.length_append]

theorem frame_pos (format : FrameFormat) (payload : Bytes) :
    0 < (format.frame payload).length := by
  rw [frame_length]
  omega

/-! ## Recovery -/

section Recovery

variable {σ ε : Type} {corrupt : FrameFault → Nat → ε} {step : σ → Bytes → Except ε σ}

private theorem recoverLoop_rounds (rounds : Nat) (bytes : Bytes) (position : Nat) (state : σ)
    (enough : bytes.length < rounds) :
    format.recoverLoop corrupt step rounds bytes position state =
      format.recover corrupt step bytes position state := by
  unfold recover
  generalize others : bytes.length + 1 = other
  have enoughOther : bytes.length < other := by omega
  clear others
  induction rounds generalizing bytes position state other with
  | zero => omega
  | succ rounds ih =>
    cases other with
    | zero => omega
    | succ other =>
      simp only [recoverLoop]
      cases scanned : format.scan bytes with
      | done => rfl
      | torn => rfl
      | corrupt fault => rfl
      | frame payload rest =>
        have shorter : rest.length < bytes.length := by
          have positive := format.frame_pos payload
          have size := scan_length scanned
          omega
        simp only
        congr 1
        funext state
        exact ih rest _ state (by omega) other (by omega)

/-- One round of recovery, free of the round counter. -/
theorem recover_eq (bytes : Bytes) (position : Nat) (state : σ) :
    format.recover corrupt step bytes position state =
      match format.scan bytes with
      | .done => .ok (state, position)
      | .torn => .ok (state, position)
      | .corrupt fault => .error (corrupt fault position)
      | .frame payload rest =>
        (step state payload).bind
          (format.recover corrupt step rest (position + (format.frame payload).length)) := by
  rw [recover, recoverLoop]
  cases scanned : format.scan bytes with
  | done => rfl
  | torn => rfl
  | corrupt fault => rfl
  | frame payload rest =>
    have shorter : rest.length < bytes.length := by
      have positive := format.frame_pos payload
      have size := scan_length scanned
      omega
    simp only [Bind.bind]
    congr 1
    funext state
    exact recoverLoop_rounds _ rest _ state (by omega)

variable {bytes : Bytes} {position validLength : Nat} {final state : σ}

/-- The valid part of a log lies inside it. -/
theorem recover_le
    (recovers : format.recover corrupt step bytes position state = .ok (final, validLength)) :
    validLength ≤ position + bytes.length := by
  induction size : bytes.length using Nat.strong_induction_on
      generalizing bytes position state with
  | _ length ih =>
    rw [recover_eq] at recovers
    cases scanned : format.scan bytes with
    | done =>
      simp only [scanned, Except.ok.injEq, Prod.mk.injEq] at recovers
      omega
    | torn =>
      simp only [scanned, Except.ok.injEq, Prod.mk.injEq] at recovers
      omega
    | corrupt fault => simp [scanned] at recovers
    | frame payload rest =>
      have shorter := scan_length scanned
      have positive := format.frame_pos payload
      simp only [scanned] at recovers
      cases stepped : step state payload with
      | error error => simp [stepped, Except.bind] at recovers
      | ok next =>
        simp only [stepped, Except.bind] at recovers
        have bound := ih rest.length (by omega) recovers rfl
        omega

theorem recover_valid
    (recovers : format.recover corrupt step bytes position state = .ok (final, validLength)) :
    position ≤ validLength ∧
      format.recover corrupt step (bytes.take (validLength - position)) position state =
        .ok (final, validLength) := by
  induction size : bytes.length using Nat.strong_induction_on
      generalizing bytes position state with
  | _ length ih =>
    have stopped : ∀ {kept : σ} {valid : Nat},
        (Except.ok (kept, position) : Except ε (σ × Nat)) = .ok (final, valid) →
        position ≤ valid ∧ format.recover corrupt step (bytes.take (valid - position)) position
          kept = .ok (final, valid) := by
      intro kept valid same
      cases same
      rw [Nat.sub_self, List.take_zero]
      exact ⟨le_rfl, by rw [recover_eq]; simp [scan]⟩
    rw [recover_eq] at recovers
    cases scanned : format.scan bytes with
    | done => exact stopped (by simpa only [scanned] using recovers)
    | torn => exact stopped (by simpa only [scanned] using recovers)
    | corrupt fault => simp [scanned] at recovers
    | frame payload rest =>
      obtain ⟨isFrame, fits⟩ := scan_eq_frame scanned
      have shorter := scan_length scanned
      have positive := format.frame_pos payload
      simp only [scanned] at recovers
      cases stepped : step state payload with
      | error error => simp [stepped, Except.bind] at recovers
      | ok next =>
        simp only [stepped, Except.bind] at recovers
        obtain ⟨later, again⟩ := ih rest.length (by omega) recovers rfl
        have cut : bytes.take (validLength - position) = format.frame payload ++
            rest.take (validLength - (position + (format.frame payload).length)) := by
          rw [isFrame, List.take_append, List.take_of_length_le (by omega), Nat.sub_sub]
        refine ⟨by omega, ?_⟩
        rw [cut, recover_eq, scan_frame fits]
        simp only [stepped, Except.bind, again]

theorem recover_induction {motive : σ → Prop}
    (steps : ∀ state payload next, motive state → step state payload = .ok next → motive next) (start : motive state)
    (recovers : format.recover corrupt step bytes position state = .ok (final, validLength)) :
    motive final := by
  unfold recover at recovers
  generalize bytes.length + 1 = rounds at recovers
  induction rounds generalizing bytes position state with
  | zero =>
    cases recovers
    exact start
  | succ rounds ih =>
    rw [recoverLoop] at recovers
    split at recovers
    · cases recovers
      exact start
    · cases recovers
      exact start
    · cases recovers
    · rename_i payload rest scanned
      cases stepped : step state payload with
      | error error => simp [stepped, Bind.bind, Except.bind] at recovers
      | ok next =>
        simp only [stepped, Bind.bind, Except.bind] at recovers
        exact ih (steps state payload next start stepped) recovers

theorem recover_nil (position : Nat) (state : σ) :
    format.recover corrupt step [] position state = .ok (state, position) := by
  rw [recover_eq]
  simp [scan]

theorem recover_torn (torn : format.scan bytes = .torn) (position : Nat)
    (state : σ) : format.recover corrupt step bytes position state = .ok (state, position) := by
  rw [recover_eq, torn]

theorem recover_corrupt {fault : FrameFault}
    (found : format.scan bytes = .corrupt fault) (position : Nat) (state : σ) :
    format.recover corrupt step bytes position state = .error (corrupt fault position) := by
  rw [recover_eq, found]

theorem recover_frame {payload : Bytes} (fits : payload.length ≤ format.maxPayload)
    (rest : Bytes) (position : Nat) (state : σ) :
    format.recover corrupt step (format.frame payload ++ rest) position state =
      (step state payload).bind
        (format.recover corrupt step rest (position + (format.frame payload).length)) := by
  rw [recover_eq, scan_frame fits]

theorem recover_frames_append (payloads : List Bytes)
    (fit : ∀ payload ∈ payloads, payload.length ≤ format.maxPayload)
    (rest : Bytes) (position : Nat) (state : σ) :
    format.recover corrupt step (format.frames payloads ++ rest) position state =
      (payloads.foldlM step state).bind
        (format.recover corrupt step rest (position + (format.frames payloads).length)) := by
  induction payloads generalizing position state with
  | nil => rfl
  | cons payload payloads ih =>
    rw [frames_cons, List.append_assoc, recover_frame (fit payload (by simp)), List.foldlM_cons]
    change _ = ((step state payload).bind fun state => payloads.foldlM step state).bind _
    cases step state payload with
    | error error => rfl
    | ok next =>
      simp only [Except.bind, List.length_append, ← Nat.add_assoc]
      exact ih (fun payload member => fit payload (by simp [member])) _ next

theorem recover_frames (payloads : List Bytes)
    (fit : ∀ payload ∈ payloads, payload.length ≤ format.maxPayload)
    (position : Nat) (state : σ) :
    format.recover corrupt step (format.frames payloads) position state =
      (payloads.foldlM step state).map
        fun state => (state, position + (format.frames payloads).length) := by
  rw [← List.append_nil (format.frames payloads), recover_frames_append payloads fit,
    List.append_nil]
  cases payloads.foldlM step state with
  | error error => rfl
  | ok final => exact recover_nil _ _

/-! ### A log cut short -/

theorem scan_torn {payload : Bytes} (fits : payload.length ≤ format.maxPayload) {length : Nat}
    (some_ : 0 < length) (notAll : length < (format.frame payload).length) :
    format.scan ((format.frame payload).take length) = .torn := by
  have small : payload.length < 2 ^ 32 := lt_of_le_of_lt fits format.maxPayload_lt
  rw [frame_length] at notAll
  by_cases inHeader : length < format.header.length + 4
  · have nonempty : (format.frame payload).take length ≠ [] := by
      intro empty
      have lengths := congrArg List.length empty
      rw [List.length_take, frame_length, List.length_nil] at lengths
      omega
    unfold scan
    rw [if_neg nonempty, if_pos (by rw [List.length_take]; omega)]
  · have shape : (format.frame payload).take length =
        format.header ++ u32Bytes (UInt32.ofNat payload.length) ++
          (payload ++ u32Bytes (format.checksum payload)).take
            (length - (format.header.length + 4)) := by
      have split : format.frame payload =
          (format.header ++ u32Bytes (UInt32.ofNat payload.length)) ++
            (payload ++ u32Bytes (format.checksum payload)) := by
        simp [frame, List.append_assoc]
      rw [split, List.take_append, List.take_of_length_le (by simp; omega)]
      simp
    rw [shape, scan_header _ _ (u32Bytes_length _), u32OfBytes_u32Bytes, u32_ofNat_toNat small,
      if_neg (by omega), if_pos (by simp only [List.length_take, List.length_append]; omega)]

variable (format) in
/-- The payloads whose frames lie entirely inside the first `length` bytes. -/
def complete : List Bytes → Nat → List Bytes
  | [], _ => []
  | payload :: payloads, length =>
    if (format.frame payload).length ≤ length then
      payload :: complete payloads (length - (format.frame payload).length)
    else []

theorem complete_subset (payloads : List Bytes) (length : Nat) :
    ∀ payload ∈ format.complete payloads length, payload ∈ payloads := by
  induction payloads generalizing length with
  | nil => simp [complete]
  | cons payload payloads ih =>
    intro other member
    unfold complete at member
    split at member
    · rcases List.mem_cons.mp member with same | later
      · simp [same]
      · exact List.mem_cons_of_mem _ (ih _ other later)
    · simp at member

theorem take_frames (payloads : List Bytes)
    (fit : ∀ payload ∈ payloads, payload.length ≤ format.maxPayload) (length : Nat) :
    ∃ rest, (format.frames payloads).take length =
        format.frames (format.complete payloads length) ++ rest ∧
      (rest = [] ∨ format.scan rest = .torn) := by
  induction payloads generalizing length with
  | nil => exact ⟨[], by simp [complete], Or.inl rfl⟩
  | cons payload payloads ih =>
    by_cases inside : (format.frame payload).length ≤ length
    · obtain ⟨rest, split, ends⟩ := ih
        (fun payload member => fit payload (by simp [member]))
        (length - (format.frame payload).length)
      refine ⟨rest, ?_, ends⟩
      rw [complete, if_pos inside, frames_cons, frames_cons, List.take_append,
        List.take_of_length_le inside, split, List.append_assoc]
    · refine ⟨(format.frame payload).take length, ?_, ?_⟩
      · rw [complete, if_neg inside, frames_cons, frames_nil, List.nil_append,
          List.take_append_of_le_length (by omega)]
      · rcases Nat.eq_zero_or_pos length with none_left | some_left
        · left
          simp [none_left]
        · right
          exact scan_torn (fit payload (by simp)) some_left (by omega)

/-- Recovery of a log cut at any byte folds exactly the complete frames and
stops at the end of the last of them. -/
theorem recover_take (payloads : List Bytes)
    (fit : ∀ payload ∈ payloads, payload.length ≤ format.maxPayload) (length position : Nat)
    (state : σ) :
    format.recover corrupt step ((format.frames payloads).take length) position state =
      ((format.complete payloads length).foldlM step state).map fun state =>
        (state, position + (format.frames (format.complete payloads length)).length) := by
  obtain ⟨rest, split, ends⟩ := take_frames payloads fit length
  rw [split, recover_frames_append _ (fun payload member =>
    fit payload (complete_subset payloads length payload member))]
  cases (format.complete payloads length).foldlM step state with
  | error error => rfl
  | ok final =>
    rcases ends with empty | torn
    · subst empty
      exact recover_nil _ _
    · exact recover_torn torn _ _

variable (format) in
/-- How many frames lie entirely inside the first `length` bytes. -/
def wholeFrames (payloads : List Bytes) (length : Nat) : Nat :=
  Nat.findGreatest (fun count => (format.frames (payloads.take count)).length ≤ length)
    payloads.length

private theorem complete_spec (payloads : List Bytes) (length : Nat) :
    format.complete payloads length = payloads.take (format.complete payloads length).length ∧
      (format.frames (format.complete payloads length)).length ≤ length ∧
      ((format.complete payloads length).length < payloads.length →
        length < (format.frames
          (payloads.take ((format.complete payloads length).length + 1))).length) := by
  induction payloads generalizing length with
  | nil => simp [complete]
  | cons payload payloads ih =>
    unfold complete
    split
    next fits =>
      obtain ⟨isTake, inside, next⟩ :=
        ih (length - (format.frame payload).length)
      refine ⟨?_, ?_, ?_⟩
      · rw [List.length_cons, List.take_succ_cons, ← isTake]
      · rw [frames_cons, List.length_append]
        omega
      · intro more
        rw [List.length_cons, List.length_cons] at more
        have beyond := next (by omega)
        rw [List.length_cons, List.take_succ_cons, frames_cons, List.length_append]
        omega
    next cut =>
      refine ⟨rfl, Nat.zero_le _, fun _ => ?_⟩
      rw [List.length_nil, List.take_succ_cons, List.take_zero, frames_cons, frames_nil,
        List.append_nil]
      omega

theorem frames_take_mono (payloads : List Bytes) {few many : Nat} (fewer : few ≤ many) :
    (format.frames (payloads.take few)).length ≤ (format.frames (payloads.take many)).length := by
  have split : payloads.take many = payloads.take few ++ (payloads.take many).drop few := by
    have inner : payloads.take few = (payloads.take many).take few := by
      rw [List.take_take, Nat.min_eq_left fewer]
    rw [inner, List.take_append_drop]
  rw [split, frames_append, List.length_append]
  omega

theorem complete_eq_take (payloads : List Bytes) (length : Nat) :
    format.complete payloads length = payloads.take (format.wholeFrames payloads length) := by
  obtain ⟨isTake, inside, next⟩ := @complete_spec format payloads length
  have count : format.wholeFrames payloads length =
      (format.complete payloads length).length := by
    unfold wholeFrames
    rw [Nat.findGreatest_eq_iff]
    refine ⟨?_, fun _ => ?_, fun larger above within holds => ?_⟩
    · rw [isTake, List.length_take]
      exact Nat.min_le_right _ _
    · rw [← isTake]
      exact inside
    · have beyond := next (by omega)
      have grows : _ ≤ (format.frames (payloads.take larger)).length :=
        frames_take_mono payloads (show (format.complete payloads length).length + 1 ≤ larger
          by omega)
      omega
  rw [count]
  exact isTake

/-- A frame above the limit is never passed: recovery fails there or before. -/
theorem recover_oversized {payloads : List Bytes}
    (small : ∀ payload ∈ payloads, payload.length < 2 ^ 32)
    (oversized : ∃ payload ∈ payloads, format.maxPayload < payload.length)
    (rest : Bytes) (position : Nat) (state : σ) :
    ∃ error, format.recover corrupt step (format.frames payloads ++ rest) position state =
      .error error := by
  induction payloads generalizing position state with
  | nil => simp at oversized
  | cons payload payloads ih =>
    rw [frames_cons, List.append_assoc]
    by_cases tooLong : format.maxPayload < payload.length
    · exact ⟨_, recover_corrupt (scan_frame_tooLong (small payload (by simp)) tooLong _) _ _⟩
    · rw [recover_frame (by omega)]
      cases step state payload with
      | error error => exact ⟨error, rfl⟩
      | ok next =>
        apply ih (fun payload member => small payload (by simp [member]))
        obtain ⟨other, member, long⟩ := oversized
        rcases List.mem_cons.mp member with same | later
        · exact absurd long (same ▸ tooLong)
        · exact ⟨other, later, long⟩

end Recovery

/-! ## One altered byte -/

theorem exists_frame_of_position (payloads : List Bytes) {position : Nat}
    (inside : position < (format.frames payloads).length) :
    ∃ before payload after offset, payloads = before ++ payload :: after ∧
      offset < (format.frame payload).length ∧
      position = (format.frames before).length + offset := by
  induction payloads generalizing position with
  | nil => simp at inside
  | cons payload payloads ih =>
    by_cases here : position < (format.frame payload).length
    · exact ⟨[], payload, payloads, position, rfl, here, by simp⟩
    · rw [frames_cons, List.length_append] at inside
      have later : position - (format.frame payload).length <
          (format.frames payloads).length := by omega
      obtain ⟨before, found, after, offset, split, bound, place⟩ := ih later
      refine ⟨payload :: before, found, after, offset, by rw [split]; rfl, bound, ?_⟩
      rw [frames_cons, List.length_append]
      omega

variable {offset : Nat}

theorem set_frames (before after : List Bytes) (payload : Bytes) (byte : UInt8)
    (inside : offset < (format.frame payload).length) :
    (format.frames (before ++ payload :: after)).set ((format.frames before).length + offset) byte =
      format.frames before ++ ((format.frame payload).set offset byte ++ format.frames after) := by
  rw [frames_append, frames_cons, List.set_append_right _ _ (by omega), Nat.add_sub_cancel_left,
    List.set_append_left _ _ inside]

/-- The payload length a reader finds after byte `offset` of the length field
has been replaced. -/
def alteredLength (payload : Bytes) (offset : Nat) (byte : UInt8) : Nat :=
  (u32OfBytes ((u32Bytes (UInt32.ofNat payload.length)).set offset byte)).toNat

variable {byte : UInt8}

private theorem set_ne
    (inside : offset < bytes.length) (changed : bytes[offset]? ≠ some byte) :
    bytes.set offset byte ≠ bytes := by
  intro same
  apply changed
  conv_lhs => rw [← same]
  exact List.getElem?_set_self inside

theorem alteredLength_ne (small : payload.length < 2 ^ 32) (inside : offset < 4)
    (changed : (u32Bytes (UInt32.ofNat payload.length))[offset]? ≠ some byte) :
    alteredLength payload offset byte ≠ payload.length := by
  intro same
  have field := set_ne (by simpa using inside) changed
  apply field
  apply u32OfBytes_injective (by simp) (by simp)
  apply UInt32.toNat_inj.mp
  rw [u32OfBytes_u32Bytes, u32_ofNat_toNat small]
  exact same

theorem scan_altered_header (payload rest : Bytes)
    (inside : offset < format.header.length)
    (changed : (format.frame payload)[offset]? ≠ some byte) :
    format.scan ((format.frame payload).set offset byte ++ rest) = .corrupt .badHeader := by
  have shape : (format.frame payload).set offset byte ++ rest =
      format.header.set offset byte ++ (u32Bytes (UInt32.ofNat payload.length) ++
        (payload ++ (u32Bytes (format.checksum payload) ++ rest))) := by
    simp only [frame, List.append_assoc]
    rw [List.set_append_left _ _ inside]
    simp only [List.append_assoc]
  have differs : format.header.set offset byte ≠ format.header := by
    apply set_ne inside
    intro same
    apply changed
    rw [← same]
    simp only [frame, List.append_assoc]
    exact List.getElem?_append_left inside
  have nonempty : format.header.set offset byte ++ (u32Bytes (UInt32.ofNat payload.length) ++
      (payload ++ (u32Bytes (format.checksum payload) ++ rest))) ≠ [] := by
    intro empty
    have lengths := congrArg List.length empty
    simp at lengths
  rw [shape]
  unfold scan
  rw [if_neg nonempty, if_neg (by simp), if_pos]
  rw [List.take_left' (by simp)]
  exact differs

theorem scan_altered_length (payload rest : Bytes) (byte : UInt8)
    (inside : offset < 4) :
    format.scan ((format.frame payload).set (format.header.length + offset) byte ++ rest) =
      if format.maxPayload < alteredLength payload offset byte then .corrupt .tooLong
      else if payload.length + rest.length < alteredLength payload offset byte then .torn
      else if format.checksum ((payload ++ u32Bytes (format.checksum payload) ++ rest).take
            (alteredLength payload offset byte)) ≠
          u32OfBytes (((payload ++ u32Bytes (format.checksum payload) ++ rest).drop
            (alteredLength payload offset byte)).take 4) then
        .corrupt .badChecksum
      else .frame ((payload ++ u32Bytes (format.checksum payload) ++ rest).take
          (alteredLength payload offset byte))
        ((payload ++ u32Bytes (format.checksum payload) ++ rest).drop
          (alteredLength payload offset byte + 4)) := by
  have shape : (format.frame payload).set (format.header.length + offset) byte ++ rest =
      format.header ++ (u32Bytes (UInt32.ofNat payload.length)).set offset byte ++
        (payload ++ u32Bytes (format.checksum payload) ++ rest) := by
    simp only [frame, List.append_assoc]
    rw [List.set_append_right _ _ (by omega), Nat.add_sub_cancel_left,
      List.set_append_left _ _ (by simpa using inside)]
    simp only [List.append_assoc]
  have bodyLength : (payload ++ u32Bytes (format.checksum payload) ++ rest).length =
      payload.length + rest.length + 4 := by
    simp
    omega
  rw [shape, scan_header _ _ (by simp), bodyLength]
  simp only [Nat.add_lt_add_iff_right]
  rfl

private theorem checksum_set_ne
    (inside : offset < payload.length) (changed : payload[offset]? ≠ some byte) :
    format.checksum (payload.set offset byte) ≠ format.checksum payload := by
  have old : payload[offset] ≠ byte := by
    intro same
    apply changed
    rw [List.getElem?_eq_getElem inside, same]
  have split : payload = payload.take offset ++ payload[offset] :: payload.drop (offset + 1) := by
    rw [List.getElem_cons_drop, List.take_append_drop]
  conv_rhs => rw [split]
  rw [List.set_eq_take_append_cons_drop, if_pos inside]
  exact format.detects _ _ _ _ (Ne.symm old)

theorem scan_altered_body (small : payload.length < 2 ^ 32) (rest : Bytes) (beyond : format.header.length + 4 ≤ offset)
    (inside : offset < (format.frame payload).length)
    (changed : (format.frame payload)[offset]? ≠ some byte) :
    ∃ fault, format.scan ((format.frame payload).set offset byte ++ rest) = .corrupt fault := by
  obtain ⟨place, rfl⟩ := Nat.exists_eq_add_of_le beyond
  have split : format.frame payload =
      (format.header ++ u32Bytes (UInt32.ofNat payload.length)) ++
        (payload ++ u32Bytes (format.checksum payload)) := by
    simp [frame, List.append_assoc]
  have prefixLength : (format.header ++ u32Bytes (UInt32.ofNat payload.length)).length =
      format.header.length + 4 := by simp
  rw [split, ← prefixLength, List.getElem?_append_right (by omega), Nat.add_sub_cancel_left]
    at changed
  rw [frame_length] at inside
  have shape : (format.frame payload).set (format.header.length + 4 + place) byte ++ rest =
      format.header ++ u32Bytes (UInt32.ofNat payload.length) ++
        ((payload ++ u32Bytes (format.checksum payload)).set place byte ++ rest) := by
    rw [split, ← prefixLength, List.set_append_right _ _ (by omega), Nat.add_sub_cancel_left]
    simp only [List.append_assoc]
  rw [shape, scan_header _ _ (u32Bytes_length _), u32OfBytes_u32Bytes, u32_ofNat_toNat small]
  by_cases tooLong : format.maxPayload < payload.length
  · exact ⟨.tooLong, by rw [if_pos tooLong]⟩
  · refine ⟨.badChecksum, ?_⟩
    rw [if_neg tooLong, if_neg (by simp), if_pos]
    by_cases inPayload : place < payload.length
    · rw [List.getElem?_append_left inPayload] at changed
      have body : (payload ++ u32Bytes (format.checksum payload)).set place byte ++ rest =
          payload.set place byte ++ (u32Bytes (format.checksum payload) ++ rest) := by
        rw [List.set_append_left _ _ inPayload, List.append_assoc]
      rw [body, List.take_left' (by simp), List.drop_left' (by simp),
        List.take_left' (by simp), u32OfBytes_u32Bytes]
      exact checksum_set_ne inPayload changed
    · have body : (payload ++ u32Bytes (format.checksum payload)).set place byte ++ rest =
          payload ++ ((u32Bytes (format.checksum payload)).set (place - payload.length) byte ++
            rest) := by
        rw [List.set_append_right _ _ (by omega), List.append_assoc]
      rw [List.getElem?_append_right (by omega)] at changed
      rw [body, List.take_left, List.drop_left, List.take_left' (by simp)]
      intro same
      apply set_ne (by simp; omega) changed
      apply u32OfBytes_injective (by simp) (by simp)
      rw [u32OfBytes_u32Bytes]
      exact same.symm

end FrameFormat

end FocalVector.Foundation
