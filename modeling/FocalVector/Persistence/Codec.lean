import FocalVector.Engine.Collection
import FocalVector.Foundation.Encoding
import FocalVector.Foundation.Crc
import Mathlib.Data.String.Basic

/-!
Contract: the field codecs shared by the write-ahead log, the manifest and the
segment files.

Every encoder refuses what does not fit its width; every decoder also enforces
the limit on counts and string lengths, which the encoders do not know. Each
pair is related through the bytes it agrees on: `Writes` says when the encoder
produces them and `Reads` when the decoder accepts them.

Owns: the limits, metric tags, checksums, `putCount`, `putString`, `encodeValue`, the decoder's
primitive reads, and the laws of each.

Does not own: records, segments or manifests. The check that a read position
does not overflow the address space is left out: positions stay inside the
input.
-/

namespace FocalVector.Persistence

open FocalVector.Foundation FocalVector.Engine LittleEndian

/-! ## Limits -/

/-- The most items, or bytes of a string, a decoder accepts. -/
def maxItems : Nat := 1000000

/-- The longest payload of a log frame that recovery accepts. -/
def maxFrameBytes : Nat := 256 * 1024 * 1024

/-- The number of graph indexes at which a flush compacts. -/
def maxIndexSegments : Nat := 8

/-! ## Strings -/

/-- `String::as_bytes`. -/
def utf8 (text : String) : Bytes := text.toByteArray.data.toList

/-- `String::from_utf8`. -/
def ofUtf8 (bytes : Bytes) : Option String := String.fromUTF8? ⟨bytes.toArray⟩

@[simp] theorem ofUtf8_utf8 (text : String) : ofUtf8 (utf8 text) = some text := by
  unfold ofUtf8 utf8 String.fromUTF8?
  rw [dif_pos text.isValidUTF8]
  rfl

theorem utf8_length (text : String) : (utf8 text).length = text.utf8ByteSize := rfl

/-- A character takes four bytes at most. -/
theorem utf8_length_le (text : String) : (utf8 text).length ≤ 4 * text.toList.length := by
  have size : (utf8 text).length = String.utf8Len text.toList := by
    rw [← String.utf8ByteSize_ofList, String.ofList_toList, utf8_length]
  rw [size]
  induction text.toList with
  | nil => exact Nat.zero_le _
  | cons char rest ih =>
    have one := char.utf8Size_le_four
    rw [String.utf8Len_cons, List.length_cons]
    omega

/-! ## Metrics and checksums -/

def metricTag : Metric → UInt8
  | .cosine => 1
  | .dotProduct => 2
  | .euclidean => 3

def parseMetric (tag : UInt8) : Result Metric :=
  match tag with
  | 1 => .ok .cosine
  | 2 => .ok .dotProduct
  | 3 => .ok .euclidean
  | tag => .error (.corruptStorage s!"unknown metric tag {tag}")

/-- Every metric has a tag of its own. -/
@[simp] theorem parseMetric_metricTag (metric : Metric) :
    parseMetric (metricTag metric) = .ok metric := by
  cases metric <;> rfl

/-- A payload with its checksum behind it. -/
def withChecksum (payload : Bytes) : Bytes := payload ++ u32Bytes (crc32c payload)

@[simp] theorem withChecksum_length (payload : Bytes) :
    (withChecksum payload).length = payload.length + 4 := by
  simp [withChecksum]

theorem take_withChecksum (payload : Bytes) :
    (withChecksum payload).take ((withChecksum payload).length - 4) = payload := by
  rw [withChecksum_length, Nat.add_sub_cancel]
  exact List.take_left

theorem drop_withChecksum (payload : Bytes) :
    (withChecksum payload).drop ((withChecksum payload).length - 4) =
      u32Bytes (crc32c payload) := by
  rw [withChecksum_length, Nat.add_sub_cancel]
  exact List.drop_left

/-! ## Encoding -/

/-- An encoder of the storage engine. -/
abbrev Output := Encoder Error Unit

/-- A count takes four bytes, and a larger one is refused. -/
def putCount (count : Nat) : Output :=
  if count < 2 ^ 32 then
    .put (u32Bytes (UInt32.ofNat count))
  else
    throw (.invalidQuery "batch is too large")

def putString (value : String) : Output := do
  putCount (utf8 value).length
  .put (utf8 value)

/-- A tag and the value; a number that is not finite is refused. -/
def encodeValue : Value → Output
  | .keyword value => do
      .put [1]
      putString value
  | .integer value => do
      .put [2]
      .put (u64Bytes value.toUInt64)
  | .float value =>
    if value.isFinite then do
      .put [3]
      .put (u64Bytes value.bits)
    else
      throw (.invalidQuery "metadata floats must be finite")
  | .boolean value => do
      .put [4]
      .put [if value then 1 else 0]

def putEntry (entry : String × Value) : Output := do
  putString entry.1
  encodeValue entry.2

/-- The metadata of a point: how many entries, then each in key order. -/
def putMetadata (metadata : Metadata) : Output := do
  putCount metadata.size
  metadata.toList.forM putEntry

/-- The components alone; how many there are, the configuration says. -/
def putVector (vector : List F32) : Output :=
  vector.forM fun value => .put (u32Bytes value.bits)

/-! ## Decoding -/

/-- A decoder of the storage engine. -/
abbrev Input (α : Type) := Decoder Error α

namespace Input

def take (length : Nat) : Input Bytes :=
  Decoder.take (.corruptStorage "truncated WAL payload") length

def byte : Input UInt8 := do
  let bytes ← take 1
  pure (bytes.headD 0)

def u32 : Input UInt32 := do
  let bytes ← take 4
  pure (u32OfBytes bytes)

def u64 : Input UInt64 := do
  let bytes ← take 8
  pure (u64OfBytes bytes)

def f32 : Input F32 := do
  let bits ← u32
  Decoder.reject ((F32.mk bits).isFinite = false) (.corruptStorage "non-finite vector component")
  pure ⟨bits⟩

/-- The limit is the decoder's own: an encoder writes larger counts. -/
def count : Input Nat := do
  let value ← u32
  Decoder.reject (maxItems < value.toNat) (.corruptStorage "WAL item count exceeds limit")
  pure value.toNat

def string : Input String := do
  let length ← count
  let bytes ← take length
  match ofUtf8 bytes with
  | some value => pure value
  | none => throw (.corruptStorage "WAL contains invalid UTF-8")

def boolean : Input Bool := do
  match ← byte with
  | 0 => pure false
  | 1 => pure true
  | _ => throw (.corruptStorage "invalid boolean encoding")

def value : Input Value := do
  match ← byte with
  | 1 => return .keyword (← string)
  | 2 => return .integer (← u64).toInt64
  | 3 =>
    let bits ← u64
    Decoder.reject ((F64.mk bits).isFinite = false)
      (.corruptStorage "non-finite metadata float")
    pure (.float ⟨bits⟩)
  | 4 => return .boolean (← boolean)
  | tag => throw (.corruptStorage s!"unknown metadata value tag {tag}")

def entry : Input (String × Value) := do
  let key ← string
  let value ← value
  pure (key, value)

/-- A key that is read twice keeps its last value. -/
def metadata : Input Metadata := do
  let size ← count
  let entries ← Decoder.collect entry size
  pure (entries.foldl (fun metadata entry => metadata.insert entry.1 entry.2) ∅)

/-- Nothing may be left of a payload. -/
def finish : Input Unit :=
  Decoder.finish (.corruptStorage "trailing bytes in WAL payload")

end Input

/-! ## The bytes both sides agree on -/

/-- Four bytes, which are the count only where it fits them. -/
def countBytes (count : Nat) : Bytes := u32Bytes (UInt32.ofNat count)

def stringBytes (value : String) : Bytes := countBytes (utf8 value).length ++ utf8 value

def valueBytes : Value → Bytes
  | .keyword value => 1 :: stringBytes value
  | .integer value => 2 :: u64Bytes value.toUInt64
  | .float value => 3 :: u64Bytes value.bits
  | .boolean value => [4, if value then 1 else 0]

def entryBytes (entry : String × Value) : Bytes := stringBytes entry.1 ++ valueBytes entry.2

def metadataBytes (metadata : Metadata) : Bytes :=
  countBytes metadata.size ++ metadata.toList.flatMap entryBytes

def vectorBytes (vector : List F32) : Bytes := vector.flatMap fun value => u32Bytes value.bits

/-- The largest count that fits its four bytes. -/
def wireLimit : Nat := 2 ^ 32 - 1

/-- A string of at most so many bytes. -/
def StringWithin (limit : Nat) (value : String) : Prop := (utf8 value).length ≤ limit

/-- Of the values only a keyword has a length. -/
def ValueWithin (limit : Nat) : Value → Prop
  | .keyword value => StringWithin limit value
  | _ => True

/-- Of the values only a float can be infinite. -/
def ValueFinite : Value → Prop
  | .float value => value.isFinite = true
  | _ => True

def EntryWithin (limit : Nat) (entry : String × Value) : Prop :=
  StringWithin limit entry.1 ∧ ValueWithin limit entry.2

/-- Neither the entries nor the texts in them are too many or too long. -/
def MetadataWithin (limit : Nat) (metadata : Metadata) : Prop :=
  metadata.size ≤ limit ∧ ∀ entry ∈ metadata.toList, EntryWithin limit entry

def MetadataFinite (metadata : Metadata) : Prop :=
  ∀ entry ∈ metadata.toList, ValueFinite entry.2

instance (limit : Nat) (value : String) : Decidable (StringWithin limit value) :=
  inferInstanceAs (Decidable (_ ≤ _))

instance (limit : Nat) : (value : Value) → Decidable (ValueWithin limit value)
  | .keyword value => inferInstanceAs (Decidable (StringWithin limit value))
  | .integer _ => isTrue trivial
  | .float _ => isTrue trivial
  | .boolean _ => isTrue trivial

instance : (value : Value) → Decidable (ValueFinite value)
  | .float value => inferInstanceAs (Decidable (value.isFinite = true))
  | .keyword _ => isTrue trivial
  | .integer _ => isTrue trivial
  | .boolean _ => isTrue trivial

instance (limit : Nat) (entry : String × Value) : Decidable (EntryWithin limit entry) :=
  inferInstanceAs (Decidable (_ ∧ _))

instance (limit : Nat) (metadata : Metadata) : Decidable (MetadataWithin limit metadata) :=
  inferInstanceAs (Decidable (_ ∧ _))

instance (metadata : Metadata) : Decidable (MetadataFinite metadata) :=
  inferInstanceAs (Decidable (∀ entry ∈ metadata.toList, ValueFinite entry.2))

@[simp] theorem countBytes_length (count : Nat) : (countBytes count).length = 4 :=
  u32Bytes_length _

theorem vectorBytes_length (vector : List F32) :
    (vectorBytes vector).length = 4 * vector.length := by
  unfold vectorBytes
  induction vector with
  | nil => rfl
  | cons value rest ih =>
    simp only [List.flatMap_cons, List.length_append, u32Bytes_length, ih,
      List.length_cons]
    omega

/-- What a decoder accepts, an encoder writes. -/
theorem maxItems_le_wireLimit : maxItems ≤ wireLimit := by decide

/-! ## What the encoders write -/

open Encoder (Writes)

/-- A count is written exactly when it fits its four bytes. -/
theorem writes_putCount (count : Nat) :
    Writes (putCount count) (fun _ => countBytes count) (count ≤ wireLimit) := by
  unfold putCount
  split
  next fits => exact (Writes.put _).congr (fun _ => rfl) (by unfold wireLimit; simp; omega)
  next large =>
    exact (Writes.throw _ _).congr (fun _ => rfl) (by unfold wireLimit; simp; omega)

theorem writes_putString (value : String) :
    Writes (putString value) (fun _ => stringBytes value) (StringWithin wireLimit value) :=
  ((writes_putCount _).seq (Writes.put _)).congr (fun _ => rfl) (by simp [StringWithin])

/-- A value is written exactly when its text fits and its number is finite. -/
theorem writes_encodeValue (value : Value) :
    Writes (encodeValue value) (fun _ => valueBytes value)
      (ValueWithin wireLimit value ∧ ValueFinite value) := by
  cases value with
  | keyword value =>
    exact ((Writes.put [1]).seq (writes_putString value)).congr (fun _ => rfl)
      (by simp [ValueWithin, ValueFinite])
  | integer value =>
    exact ((Writes.put [2]).seq (Writes.put _)).congr (fun _ => rfl)
      (by simp [ValueWithin, ValueFinite])
  | float value =>
    simp only [encodeValue]
    split
    next finite =>
      exact ((Writes.put [3]).seq (Writes.put _)).congr (fun _ => rfl)
        (by simp [ValueWithin, ValueFinite, finite])
    next infinite =>
      exact (Writes.throw _ _).congr (fun _ => rfl)
        (by simp [ValueWithin, ValueFinite, infinite])
  | boolean value =>
    exact ((Writes.put [4]).seq (Writes.put _)).congr (fun _ => rfl)
      (by simp [ValueWithin, ValueFinite])

theorem writes_putEntry (entry : String × Value) :
    Writes (putEntry entry) (fun _ => entryBytes entry)
      (EntryWithin wireLimit entry ∧ ValueFinite entry.2) :=
  ((writes_putString entry.1).seq (writes_encodeValue entry.2)).congr (fun _ => rfl)
    and_assoc.symm

/-- Metadata is written exactly when every entry is. -/
theorem writes_putMetadata (metadata : Metadata) :
    Writes (putMetadata metadata) (fun _ => metadataBytes metadata)
      (MetadataWithin wireLimit metadata ∧ MetadataFinite metadata) := by
  have entries := Writes.forM metadata.toList fun entry _ => writes_putEntry entry
  refine ((writes_putCount metadata.size).seq entries).congr
    (fun _ => by rw [Decoder.encodeAll_const]; rfl) ?_
  unfold MetadataWithin MetadataFinite
  rw [and_assoc, forall₂_and]

theorem writes_putVector (vector : List F32) :
    Writes (putVector vector) (fun _ => vectorBytes vector) True :=
  (Writes.forM vector fun value _ => Writes.put (u32Bytes value.bits)).congr
    (fun _ => by rw [Decoder.encodeAll_const]; rfl) (by simp)

/-! ## What the decoders read -/

namespace Input

open Decoder (Reads Stable)

section

variable (position : Nat)

include position

theorem reads_take {encoded : Bytes} {length : Nat}
    (sameLength : encoded.length = length) :
    Reads (take length) position encoded encoded True :=
  Reads.take_of_length _ position sameLength

theorem reads_byte (value : UInt8) :
    Reads byte position [value] value True :=
  (reads_take position (show [value].length = 1 from rfl)).bind_pure rfl

theorem reads_u32 (value : UInt32) :
    Reads u32 position (u32Bytes value) value True :=
  (reads_take position (u32Bytes_length value)).bind_pure (u32OfBytes_u32Bytes value)

theorem reads_u64 (value : UInt64) :
    Reads u64 position (u64Bytes value) value True :=
  (reads_take position (u64Bytes_length value)).bind_pure (u64OfBytes_u64Bytes value)

theorem reads_f32 (value : F32) :
    Reads f32 position (u32Bytes value.bits) value (value.isFinite = true) :=
  ((reads_u32 position value.bits).bind_reject rfl).congr (by simp)

/-- A count that was written is refused by the decoder when it is above the limit. -/
theorem reads_count {count : Nat} (fits : count ≤ wireLimit) :
    Reads Input.count position (countBytes count) count (count ≤ maxItems) := by
  have small : count < 2 ^ 32 := by
    unfold wireLimit at fits
    omega
  have exact_ : (UInt32.ofNat count).toNat = count := by
    rw [UInt32.toNat_ofNat']
    exact Nat.mod_eq_of_lt small
  exact ((reads_u32 position (UInt32.ofNat count)).bind_reject exact_).congr
    (by rw [exact_]; simp)

/-- A string that was written is refused by the decoder when it is too long. -/
theorem reads_string {value : String} (fits : StringWithin wireLimit value) :
    Reads string position (stringBytes value) value (StringWithin maxItems value) := by
  have text : Reads (take (utf8 value).length >>= fun bytes =>
      match ofUtf8 bytes with
      | some value => pure value
      | none => throw (.corruptStorage "WAL contains invalid UTF-8"))
      (position + (countBytes (utf8 value).length).length) (utf8 value ++ []) value
      (True ∧ True) := by
    refine (reads_take _ rfl).bind ?_
    rw [ofUtf8_utf8]
    exact Reads.pure value _
  rw [List.append_nil] at text
  exact ((reads_count position fits).bind text).congr (by simp [StringWithin])

private theorem reads_boolean (value : Bool) :
    Reads boolean position [if value then 1 else 0] value True := by
  have flag : ∀ after, Reads (match (if value then 1 else 0 : UInt8) with
      | 0 => pure false
      | 1 => pure true
      | _ => throw (.corruptStorage "invalid boolean encoding") : Input Bool) after [] value
      True := by
    intro after
    cases value <;> exact Reads.pure _ after
  exact ((reads_byte position _).bind (flag _)).congr (by simp)

theorem reads_value {value : Value} (fits : ValueWithin wireLimit value)
    (finite : ValueFinite value) :
    Reads Input.value position (valueBytes value) value (ValueWithin maxItems value) := by
  cases value with
  | keyword text =>
    have body := (reads_string (position + 1) fits).bind_pure (f := Value.keyword) rfl
    exact ((reads_byte position 1).bind body).congr (by simp [ValueWithin])
  | integer number =>
    have body := (reads_u64 (position + 1) number.toUInt64).bind_pure
      (f := fun bits => Value.integer bits.toInt64) rfl
    exact ((reads_byte position 2).bind body).congr (by simp [ValueWithin])
  | float number =>
    have isFinite : number.isFinite = true := finite
    exact ((reads_byte position 3).bind
      ((reads_u64 (position + 1) number.bits).bind_reject rfl)).congr
        (by simp [ValueWithin, isFinite])
  | boolean flag =>
    have body := (reads_boolean (position + 1) flag).bind_pure (f := Value.boolean) rfl
    exact ((reads_byte position 4).bind body).congr (by simp [ValueWithin])

theorem reads_entry {entry : String × Value}
    (fits : EntryWithin wireLimit entry) (finite : ValueFinite entry.2) :
    Reads Input.entry position (entryBytes entry) entry (EntryWithin maxItems entry) :=
  (reads_string position fits.1).bind
    ((reads_value _ fits.2 finite).bind_pure (f := fun value => (entry.1, value)) rfl)

/-- Metadata that was written is rebuilt, or refused for its size or a text in it. -/
theorem reads_metadata {metadata : Metadata}
    (fits : MetadataWithin wireLimit metadata) (finite : MetadataFinite metadata) :
    Reads Input.metadata position (metadataBytes metadata) metadata
      (MetadataWithin maxItems metadata) := by
  have entries := Reads.collect_list metadata.toList (fun entry member position =>
      reads_entry position (fits.2 entry member) (finite entry member))
    (position + (countBytes metadata.size).length)
  rw [Decoder.encodeAll_const, Std.ExtTreeMap.length_toList] at entries
  exact (reads_count position fits.1).bind
    (entries.bind_pure (OrderedMap.foldl_insert_toList metadata))

theorem reads_vector (vector : List F32) :
    Reads (Decoder.collect f32 vector.length) position (vectorBytes vector) vector
      (∀ value ∈ vector, value.isFinite = true) := by
  have components := Reads.collect_list vector (fun value _ position => reads_f32 position value)
    position
  rwa [Decoder.encodeAll_const] at components

end

/-! ## Decoders do not look ahead -/

theorem stable_take (length : Nat) : Stable (take length) := Stable.take _ length

theorem stable_byte : Stable byte := (stable_take 1).bind fun _ => Stable.pure _

theorem stable_u32 : Stable u32 := (stable_take 4).bind fun _ => Stable.pure _

theorem stable_u64 : Stable u64 := (stable_take 8).bind fun _ => Stable.pure _

theorem stable_f32 : Stable f32 :=
  stable_u32.bind fun _ => (Stable.reject _ _).bind fun _ => Stable.pure _

theorem stable_count : Stable Input.count :=
  stable_u32.bind fun _ => (Stable.reject _ _).bind fun _ => Stable.pure _

theorem stable_string : Stable string := by
  refine stable_count.bind fun length => (stable_take length).bind fun bytes => ?_
  cases ofUtf8 bytes with
  | some value => exact Stable.pure value
  | none => exact Stable.throw _

theorem stable_boolean : Stable boolean := by
  refine stable_byte.bind fun flag => ?_
  split
  · exact Stable.pure _
  · exact Stable.pure _
  · exact Stable.throw _

theorem stable_value : Stable Input.value := by
  refine stable_byte.bind fun tag => ?_
  split
  · exact stable_string.bind fun _ => Stable.pure _
  · exact stable_u64.bind fun _ => Stable.pure _
  · exact stable_u64.bind fun _ => (Stable.reject _ _).bind fun _ => Stable.pure _
  · exact stable_boolean.bind fun _ => Stable.pure _
  · exact Stable.throw _

theorem stable_entry : Stable Input.entry :=
  stable_string.bind fun _ => stable_value.bind fun _ => Stable.pure _

theorem stable_metadata : Stable Input.metadata :=
  stable_count.bind fun size => (stable_entry.collect size).bind fun _ => Stable.pure _

end Input

end FocalVector.Persistence
