import FocalVector.Engine.GraphSearch
import FocalVector.Foundation.Crc

/-!
Contract: the writer that keeps the checksum of a segment while it is streamed.

The writer hands every call to the one below it, which may take only the first bytes it is
offered or fail. The checksum and the position follow what was taken, so that in the end they
are those of the bytes in the file, however these were split.

Owns: `InnerWriter`, `Crc32cWriter`, runs of write calls, and what the checksum says about the
bytes written and about bytes that differ in few places.

Does not own: what is written to a segment, and files that fail.
-/

namespace FocalVector.Persistence

open FocalVector.Foundation FocalVector.Engine

/-- A writer: what a call leaves of it, and how many of the bytes it took. -/
structure InnerWriter (ω ε : Type) where
  write : ω → Bytes → ω × Except ε Nat
  within : ∀ inner bytes written, (write inner bytes).2 = .ok written → written ≤ bytes.length

namespace InnerWriter

variable {ω ε : Type} (below : InnerWriter ω ε)

def accepted (bytes : Bytes) : Except ε Nat → Bytes
  | .error _ => []
  | .ok written => bytes.take written

/-- Make one call after another. The second result is what was taken, in order. -/
def writes (inner : ω) : List Bytes → ω × Bytes
  | [] => (inner, [])
  | bytes :: rest =>
    let taken := accepted bytes (below.write inner bytes).2
    let (final, later) := writes (below.write inner bytes).1 rest
    (final, taken ++ later)

end InnerWriter

structure Crc32cWriter (ω : Type) where
  inner : ω
  crc : UInt32
  position : Nat

namespace Crc32cWriter

open InnerWriter (accepted)

variable {ω ε : Type} (below : InnerWriter ω ε)

def new (inner : ω) : Crc32cWriter ω := ⟨inner, ~~~ 0, 0⟩

def finish (writer : Crc32cWriter ω) : ω × UInt32 := (writer.inner, ~~~ writer.crc)

def write (writer : Crc32cWriter ω) (bytes : Bytes) : Crc32cWriter ω × Except ε Nat :=
  match below.write writer.inner bytes with
  | (inner, .error error) => ({ writer with inner }, .error error)
  | (inner, .ok written) =>
    (⟨inner, crc32cUpdate writer.crc (bytes.take written),
      saturatingAdd writer.position written⟩, .ok written)

def writes (writer : Crc32cWriter ω) (calls : List Bytes) : Crc32cWriter ω :=
  calls.foldl (fun writer bytes => (writer.write below bytes).1) writer

/-- A call takes in what the writer below took. -/
theorem write_follows (writer : Crc32cWriter ω) (bytes : Bytes)
    (fits : writer.position + (accepted bytes (below.write writer.inner bytes).2).length ≤
      usizeMax) :
    (writer.write below bytes).1 = ⟨(below.write writer.inner bytes).1,
      crc32cUpdate writer.crc (accepted bytes (below.write writer.inner bytes).2),
      writer.position + (accepted bytes (below.write writer.inner bytes).2).length⟩ := by
  have within := below.within writer.inner bytes
  unfold write
  cases takes : below.write writer.inner bytes with
  | mk inner outcome =>
    rw [takes] at within fits
    cases outcome with
    | error error => rfl
    | ok written =>
      have taken : (bytes.take written).length = written :=
        List.length_take_of_le (within written rfl)
      simp only [accepted, taken] at fits ⊢
      rw [saturatingAdd, min_eq_left fits]

/-- Calls take in what the writer below took, one after another. -/
theorem writes_follow (writer : Crc32cWriter ω) (calls : List Bytes)
    (fits : writer.position + (below.writes writer.inner calls).2.length ≤ usizeMax) :
    writer.writes below calls = ⟨(below.writes writer.inner calls).1,
      crc32cUpdate writer.crc (below.writes writer.inner calls).2,
      writer.position + (below.writes writer.inner calls).2.length⟩ := by
  induction calls generalizing writer with
  | nil => rfl
  | cons bytes rest ih =>
    simp only [InnerWriter.writes, List.length_append] at fits ⊢
    have first := write_follows below writer bytes (by omega)
    have later := ih (writer.write below bytes).1 (by rw [first]; simp only; omega)
    rw [first] at later
    show ((writer.write below bytes).1).writes below rest = _
    rw [first, later, Nat.add_assoc]
    simp only [crc32cUpdate, List.foldl_append]

end Crc32cWriter

theorem window_parts (bytes : Bytes) (start : Nat) :
    bytes = bytes.take start ++ (bytes.drop start).take 4 ++ bytes.drop (start + 4) := by
  rw [List.append_assoc, ← List.drop_drop, List.take_append_drop, List.take_append_drop]

/-- The checksum of bytes tells them from all others that differ only in a window of four
bytes, and the streaming checksum is that of the bytes that the writer below took, however it
splits them. A file has fewer bytes than there are addresses. -/
theorem checksum_follows_bytes :
    (∀ {bytes others : Bytes} (start : Nat), bytes.length = others.length → bytes ≠ others →
      (∀ position, bytes[position]? ≠ others[position]? →
        start ≤ position ∧ position < start + 4) → crc32c bytes ≠ crc32c others) ∧
    ∀ {ω ε : Type} (below : InnerWriter ω ε) (inner : ω) (calls : List Bytes),
      (below.writes inner calls).2.length ≤ usizeMax →
      ((Crc32cWriter.new inner).writes below calls).finish =
          ((below.writes inner calls).1, crc32c (below.writes inner calls).2) ∧
        ((Crc32cWriter.new inner).writes below calls).position =
          (below.writes inner calls).2.length := by
  constructor
  · intro bytes others start sized differ window
    have outside : ∀ position, ¬ (start ≤ position ∧ position < start + 4) →
        bytes[position]? = others[position]? := fun position out =>
      not_not.mp fun unlike => out (window position unlike)
    have before : bytes.take start = others.take start := by
      refine List.ext_getElem? fun position => ?_
      rw [List.getElem?_take, List.getElem?_take]
      split
      · exact outside position (by omega)
      · rfl
    have after : bytes.drop (start + 4) = others.drop (start + 4) := by
      refine List.ext_getElem? fun position => ?_
      rw [List.getElem?_drop, List.getElem?_drop]
      exact outside _ (by omega)
    rw [window_parts bytes start, window_parts others start, before, after]
    refine crc32c_burst _ _ ?_ ?_ ?_
    · rw [List.length_take, List.length_take, List.length_drop, List.length_drop, sized]
    · exact List.length_take_le _ _
    · intro same
      exact differ (by rw [window_parts bytes start, window_parts others start, before, after, same])
  · intro ω ε below inner calls fits
    have follows : (Crc32cWriter.new inner).writes below calls = _ :=
      Crc32cWriter.writes_follow below _ calls ((Nat.zero_add _).trans_le fits)
    rw [follows]
    exact ⟨rfl, Nat.zero_add _⟩

def singleByteWriter : InnerWriter Bytes Unit where
  write inner bytes := (inner ++ bytes.take 1, .ok (bytes.take 1).length)
  within inner bytes written takes := by
    cases takes
    exact List.length_take_le' _ _

theorem short_writes_checksummed :
    crc32c [1, 2, 3] ≠ crc32c [1, 7, 3] ∧
      ((Crc32cWriter.new []).writes singleByteWriter [[1, 2], [2]]).finish =
        ([1, 2], crc32c [1, 2]) :=
  ⟨checksum_follows_bytes.1 1 rfl (by decide) (by
      intro position unlike
      by_contra out
      rcases position with _ | _ | _ | position
      · exact unlike rfl
      · omega
      · omega
      · exact unlike rfl),
    (checksum_follows_bytes.2 singleByteWriter [] [[1, 2], [2]] (by decide)).1⟩

end FocalVector.Persistence
