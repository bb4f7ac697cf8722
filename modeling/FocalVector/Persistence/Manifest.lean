import FocalVector.Persistence.Codec
import FocalVector.Persistence.Files

/-!
Contract: the two small files that describe a collection directory.

`collection.meta` fixes the configuration once. `MANIFEST` names the segments
that are current; it is replaced by renaming a complete new one over it.

Owns: both formats, the programs that read and replace the files, and exactly
which published manifests are read back.

Does not own: the segments a manifest names.
-/

namespace FocalVector.Persistence

open FocalVector.Foundation FocalVector.Engine LittleEndian

def formatVersion : UInt8 := 1

/-! ## Collection metadata -/

def metaMagic : Bytes := [0x46, 0x56, 0x4d, 0x54]

def metadataPayload (config : CollectionConfig) : Bytes :=
  metaMagic ++ ([formatVersion] ++ ([metricTag config.metric] ++
    u64Bytes (UInt64.ofNat config.dimension)))

def encodeMetadata (config : CollectionConfig) : Bytes := withChecksum (metadataPayload config)

def decodeMetadata (bytes : Bytes) : Result CollectionConfig :=
  if bytes.length ≠ 18 ∨ bytes.take 4 ≠ metaMagic ∨ (bytes.drop 4).headD 0 ≠ formatVersion then
    .error (.corruptStorage "invalid collection metadata header")
  else if crc32c (bytes.take 14) ≠ u32OfBytes (bytes.drop 14) then
    .error (.corruptStorage "collection metadata checksum mismatch")
  else do
    let metric ← parseMetric ((bytes.drop 5).headD 0)
    let dimension := u64OfBytes ((bytes.drop 6).take 8)
    if dimension = 0 then
      .error (.corruptStorage "collection dimension must be non-zero")
    else
      return ⟨dimension.toNat, metric, dimension.toNat_lt⟩

/-- `ensure_metadata`: write the configuration of a new directory, or insist on
the one that is there. -/
def ensureMetadata (config : CollectionConfig) : Fs Unit := do
  if ← fileExists metaName then
    let bytes ← readFile metaName
    let actual ← Program.ofExcept (decodeMetadata bytes)
    if actual ≠ config then
      Program.raise
        (.invalidConfig "requested configuration differs from persisted collection")
    else
      pure ()
  else
    writeNewFile metaTemporaryName (encodeMetadata config)
    renameFile metaTemporaryName metaName
    syncDirectory

theorem metadataPayload_length (config : CollectionConfig) :
    (metadataPayload config).length = 14 := by
  simp [metadataPayload, metaMagic]

variable {config : CollectionConfig}

/-- The persisted configuration of a usable collection is read back. -/
theorem decodeMetadata_encodeMetadata (positive : config.dimension ≠ 0) :
    decodeMetadata (encodeMetadata config) = .ok config := by
  have exact_ : (UInt64.ofNat config.dimension).toNat = config.dimension := by
    rw [UInt64.toNat_ofNat']
    exact Nat.mod_eq_of_lt config.fits
  have nonzero : UInt64.ofNat config.dimension ≠ 0 := by
    rw [ne_eq, ← UInt64.toNat_inj, exact_]
    exact positive
  have size : (encodeMetadata config).length = 18 := by
    rw [encodeMetadata, withChecksum_length, metadataPayload_length]
  have payload : (encodeMetadata config).take 14 = metadataPayload config :=
    List.take_left' (metadataPayload_length config)
  have stored : (encodeMetadata config).drop 14 = u32Bytes (crc32c (metadataPayload config)) :=
    List.drop_left' (metadataPayload_length config)
  have dimension : ((encodeMetadata config).drop 6).take 8 =
      u64Bytes (UInt64.ofNat config.dimension) :=
    List.take_left' (u64Bytes_length _)
  have magic : (encodeMetadata config).take 4 = metaMagic := rfl
  have version : ((encodeMetadata config).drop 4).headD 0 = formatVersion := rfl
  have tag : ((encodeMetadata config).drop 5).headD 0 = metricTag config.metric := rfl
  unfold decodeMetadata
  simp only [size, magic, version, payload, stored, tag, dimension, u32OfBytes_u32Bytes,
    u64OfBytes_u64Bytes, parseMetric_metricTag, ne_eq, not_true_eq_false, or_false, if_false,
    nonzero, Bind.bind, Except.bind, Pure.pure, Except.pure, exact_]

theorem ensureMetadata_avoids {file : String}
    (notMetadata : file ≠ metaName) (notTemporary : file ≠ metaTemporaryName) :
    (ensureMetadata config).Avoids file := by
  unfold ensureMetadata
  refine Program.Avoids.bind (avoids_io (by simp [FileOp.targets])) fun present => ?_
  split
  · refine Program.Avoids.bind (avoids_io (by simp [FileOp.targets])) fun _ =>
      (Program.Avoids.ofExcept _).bind fun actual => ?_
    split
    · exact .raise _
    · exact .pure _
  · refine Program.Avoids.bind (Program.Avoids.bind
      (avoids_io (by simpa [FileOp.targets] using notTemporary)) fun _ =>
        avoids_io (by simp [FileOp.targets])) fun _ => Program.Avoids.bind
      (avoids_io (by simp [FileOp.targets, notMetadata, notTemporary])) fun _ => ?_
    exact avoids_io (by simp [FileOp.targets])

variable {disk : Directory}

theorem run_ensureMetadata
    (positive : config.dimension ≠ 0) (found : disk metaName = some (encodeMetadata config)) :
    (ensureMetadata config).run disk = (disk, .ok ()) := by
  have present : (fileExists metaName).run disk = (disk, .ok true) := by
    rw [run_fileExists, found]
    rfl
  unfold ensureMetadata
  rw [Program.run_bind_ok present, if_pos rfl, Program.run_bind_ok (run_readFile found),
    decodeMetadata_encodeMetadata positive]
  change (if config ≠ config then _ else pure () : Fs Unit).run disk = _
  rw [if_neg (not_not.mpr rfl)]
  rfl

theorem run_ensureMetadata_new (config : CollectionConfig)
    (missing : disk metaName = none) (unused : disk metaTemporaryName = none) :
    (ensureMetadata config).run disk =
      (((disk.write metaTemporaryName (encodeMetadata config)).erase metaTemporaryName).write
        metaName (encodeMetadata config), .ok ()) := by
  have absent : (fileExists metaName).run disk = (disk, .ok false) := by
    rw [run_fileExists, missing]
    rfl
  unfold ensureMetadata
  rw [Program.run_bind_ok absent, if_neg (by decide),
    Program.run_bind_ok (run_writeNewFile unused),
    Program.run_bind_ok (run_renameFile (Disk.write_same _ _ _)), run_syncDirectory]

theorem run_ensureMetadata_blocked (config : CollectionConfig) {left : Bytes}
    (missing : disk metaName = none) (used : disk metaTemporaryName = some left) :
    (ensureMetadata config).run disk = (disk, .error (.io "file exists")) := by
  have absent : (fileExists metaName).run disk = (disk, .ok false) := by
    rw [run_fileExists, missing]
    rfl
  have refused : (io (.createNew metaTemporaryName (encodeMetadata config))).run disk =
      (disk, .error (.io "file exists")) := by
    rw [io, Program.run_demand]
    simp [FileOp.after, FileOp.answer, used, Except.mapError]
  unfold ensureMetadata
  rw [Program.run_bind_ok absent, if_neg (by decide), writeNewFile]
  exact Program.run_bind_error (Program.run_bind_error refused)

/-! ## The manifest -/

structure Manifest where
  sequence : UInt64
  segments : List String
deriving DecidableEq

def manifestMagic : Bytes := [0x46, 0x56, 0x4d, 0x46]

def manifestListVersion : UInt8 := 2

/-- The bytes `publish_manifest` collects under the checksum. -/
def putManifest (sequence : UInt64) (segmentNames : List String) : Output := do
  .put manifestMagic
  .put [manifestListVersion]
  .put (u64Bytes sequence)
  putCount segmentNames.length
  segmentNames.forM putString

def Input.segmentNames (version : UInt8) : Input (List String) :=
  if version = formatVersion then do
    let name ← string
    pure [name]
  else do
    let count ← count
    Decoder.reject (count = 0 ∨ maxIndexSegments + 1 < count)
      (.corruptStorage "invalid segment count in manifest")
    Decoder.collect string count

def Input.manifest (version : UInt8) : Input Manifest := do
  let sequence ← u64
  let segments ← segmentNames version
  pure { sequence, segments }

def SegmentNamed (name : String) : Prop := '/' ∉ name.toList ∧ "segment-".toList <+: name.toList

instance (name : String) : Decidable (SegmentNamed name) := inferInstanceAs (Decidable (_ ∧ _))

def decodeManifest (bytes : Bytes) : Result Manifest :=
  let version := (bytes.drop 4).headD 0
  let payload := bytes.take (bytes.length - 4)
  if bytes.length < 21 ∨ bytes.take 4 ≠ manifestMagic ∨
      ¬ (version = formatVersion ∨ version = manifestListVersion) then
    .error (.corruptStorage "invalid manifest header")
  else if crc32c payload ≠ u32OfBytes (bytes.drop (bytes.length - 4)) then
    .error (.corruptStorage "manifest checksum mismatch")
  else
    Decoder.run (do
      let manifest ← Input.manifest version
      Input.finish
      Decoder.ofExcept
        (if (∀ name ∈ manifest.segments, SegmentNamed name) ∧ manifest.segments.Nodup then
          .ok manifest
        else
          .error (.corruptStorage "invalid segment name in manifest")))
      (payload.drop 5)

/-- `read_manifest`. -/
def readManifest : Fs (Option Manifest) := do
  if ← fileExists manifestName then
    let bytes ← readFile manifestName
    let manifest ← Program.ofExcept (decodeManifest bytes)
    return some manifest
  else
    return none

/-- `publish_manifest`, by the process with the given id. -/
def publishManifest (process : Nat) (sequence : UInt64) (segmentNames : List String) :
    Fs Unit := do
  let bytes ← Program.ofExcept (putManifest sequence segmentNames).bytes
  writeNewFile (manifestTemporaryName process) (withChecksum bytes)
  renameFile (manifestTemporaryName process) manifestName
  syncDirectory

/-! ## Reading a published manifest -/

def manifestPayload (manifest : Manifest) : Bytes :=
  manifestMagic ++ ([manifestListVersion] ++ (u64Bytes manifest.sequence ++
    (countBytes manifest.segments.length ++ manifest.segments.flatMap stringBytes)))

def manifestBytes (manifest : Manifest) : Bytes := withChecksum (manifestPayload manifest)

def NamesWithin (limit : Nat) (names : List String) : Prop :=
  names.length ≤ limit ∧ ∀ name ∈ names, StringWithin limit name

/-- What the reader requires of the names of a manifest. -/
structure NamesReadable (names : List String) : Prop where
  positive : names ≠ []
  few : names.length ≤ maxIndexSegments + 1
  within : ∀ name ∈ names, StringWithin maxItems name
  named : ∀ name ∈ names, SegmentNamed name
  distinct : names.Nodup

open Encoder (Writes)

theorem writes_putManifest (manifest : Manifest) :
    Writes (putManifest manifest.sequence manifest.segments) (fun _ => manifestPayload manifest)
      (NamesWithin wireLimit manifest.segments) := by
  have names := Writes.forM manifest.segments fun name _ => writes_putString name
  apply ((Writes.put _).seq ((Writes.put _).seq ((Writes.put _).seq
    ((writes_putCount _).seq names)))).congr
  · intro position
    rw [Decoder.encodeAll_const]
    rfl
  · simp [NamesWithin]

variable {manifest : Manifest}

open Decoder (Reads) in
theorem reads_manifest (fits : NamesWithin wireLimit manifest.segments)
    (position : Nat) :
    Reads (Input.manifest manifestListVersion) position
      (u64Bytes manifest.sequence ++
        (countBytes manifest.segments.length ++ manifest.segments.flatMap stringBytes))
      manifest
      (manifest.segments.length ≤ maxIndexSegments + 1 ∧ manifest.segments ≠ [] ∧
        ∀ name ∈ manifest.segments, StringWithin maxItems name) := by
  have each := fun position => Reads.collect_list manifest.segments
    (fun name member position => Input.reads_string position (fits.2 name member)) position
  simp only [Decoder.encodeAll_const] at each
  have names : Reads (Input.segmentNames manifestListVersion) (position + 8)
      (countBytes manifest.segments.length ++ manifest.segments.flatMap stringBytes)
      manifest.segments (manifest.segments.length ≤ maxItems ∧ _ ∧ _) :=
    (Input.reads_count _ fits.1).bind ((Reads.reject _ _ _).check_bind (each _))
  have whole : Reads (Input.manifest manifestListVersion) position _ manifest (True ∧ _) :=
    (Input.reads_u64 position manifest.sequence).bind (names.bind_pure rfl)
  apply whole.congr
  rw [not_or, List.length_eq_zero_iff]
  unfold maxIndexSegments maxItems
  constructor
  · rintro ⟨-, -, ⟨positive, few⟩, within⟩
    exact ⟨by omega, positive, within⟩
  · rintro ⟨few, positive, within⟩
    exact ⟨trivial, by omega, ⟨positive, by omega⟩, within⟩

/-- A published manifest is read back exactly when its names pass the reader's
checks, and then as it was published. -/
theorem decodeManifest_manifestBytes (fits : NamesWithin wireLimit manifest.segments) :
    (NamesReadable manifest.segments → decodeManifest (manifestBytes manifest) = .ok manifest) ∧
    (¬ NamesReadable manifest.segments →
      ∃ error, decodeManifest (manifestBytes manifest) = .error error) := by
  have size : ¬ (manifestBytes manifest).length < 21 := by
    simp [manifestBytes, manifestPayload, manifestMagic]
    omega
  have payload := take_withChecksum (manifestPayload manifest)
  have stored := drop_withChecksum (manifestPayload manifest)
  rw [← manifestBytes] at payload stored
  have magic : (manifestBytes manifest).take 4 = manifestMagic := rfl
  have version : ((manifestBytes manifest).drop 4).headD 0 = manifestListVersion := rfl
  have behind : (manifestPayload manifest).drop 5 = u64Bytes manifest.sequence ++
      (countBytes manifest.segments.length ++ manifest.segments.flatMap stringBytes) := rfl
  have read := (reads_manifest fits 0).finish (.corruptStorage "trailing bytes in WAL payload")
    (fun manifest => if (∀ name ∈ manifest.segments, SegmentNamed name) ∧ manifest.segments.Nodup
      then .ok manifest else .error (.corruptStorage "invalid segment name in manifest"))
    (rfl : ([] : Bytes).length = 0) []
  rw [List.nil_append, List.append_nil] at read
  unfold decodeManifest
  simp only [size, magic, version, payload, stored, behind, u32OfBytes_u32Bytes, ne_eq,
    not_true_eq_false, or_true, or_false, if_false]
  constructor
  · intro readable
    have names : (∀ name ∈ manifest.segments, SegmentNamed name) ∧ manifest.segments.Nodup :=
      ⟨readable.named, readable.distinct⟩
    have done := read.1 ⟨⟨readable.few, readable.positive, readable.within⟩, rfl⟩
    rw [if_pos names] at done
    exact congrArg (Except.map Prod.fst) done
  · intro unreadable
    by_cases accepted : manifest.segments.length ≤ maxIndexSegments + 1 ∧
        manifest.segments ≠ [] ∧ ∀ name ∈ manifest.segments, StringWithin maxItems name
    · have names : ¬ ((∀ name ∈ manifest.segments, SegmentNamed name) ∧
          manifest.segments.Nodup) := fun names =>
        unreadable ⟨accepted.2.1, accepted.1, accepted.2.2, names.1, names.2⟩
      have refused := read.1 ⟨accepted, rfl⟩
      rw [if_neg names] at refused
      exact ⟨_, congrArg (Except.map Prod.fst) refused⟩
    · obtain ⟨error, fails⟩ := read.2 fun both => accepted both.1
      exact ⟨error, congrArg (Except.map Prod.fst) fails⟩

theorem sequence_of_decodeManifest {decoded : Manifest}
    (decodes : decodeManifest (manifestBytes manifest) = .ok decoded) :
    decoded.sequence = manifest.sequence := by
  have payload := take_withChecksum (manifestPayload manifest)
  rw [← manifestBytes] at payload
  have behind : (manifestPayload manifest).drop 5 = u64Bytes manifest.sequence ++
      (countBytes manifest.segments.length ++ manifest.segments.flatMap stringBytes) := rfl
  unfold decodeManifest at decodes
  simp only [payload, behind] at decodes
  split at decodes
  · cases decodes
  split at decodes
  · cases decodes
  obtain ⟨final, read⟩ := Decoder.of_run_ok decodes
  obtain ⟨found, next, reads, checked⟩ := Decoder.of_bind_ok read
  obtain ⟨_, last, -, named⟩ := Decoder.of_bind_ok checked
  have accepted := Decoder.of_ofExcept_ok named
  split at accepted
  · rw [← Except.ok.inj accepted]
    have number := (Input.reads_u64 0 manifest.sequence [] (countBytes manifest.segments.length ++
      manifest.segments.flatMap stringBytes) rfl).1 trivial
    unfold Input.manifest at reads
    rw [List.nil_append] at number
    rw [Decoder.bind_ok number] at reads
    obtain ⟨names, after, -, finishes⟩ := Decoder.of_bind_ok reads
    cases finishes
    rfl
  · cases accepted

theorem named_of_decodeManifest {bytes : Bytes}
    (decodes : decodeManifest bytes = .ok manifest) :
    ∀ name ∈ manifest.segments, SegmentNamed name := by
  unfold decodeManifest at decodes
  simp only at decodes
  split at decodes
  · cases decodes
  split at decodes
  · cases decodes
  obtain ⟨final, read⟩ := Decoder.of_run_ok decodes
  obtain ⟨found, next, -, checked⟩ := Decoder.of_bind_ok read
  obtain ⟨_, last, -, named⟩ := Decoder.of_bind_ok checked
  have accepted := Decoder.of_ofExcept_ok named
  split at accepted
  · rename_i names
    rw [← Except.ok.inj accepted]
    exact names.1
  · cases accepted

theorem leading_of_segmentNamed {name : String} (named : SegmentNamed name) :
    leading name = ['s', 'e'] := by
  obtain ⟨rest, shape⟩ := named.2
  unfold leading
  rw [← shape]
  rfl

theorem segmentName_within (sequence : UInt64) : StringWithin maxItems (segmentName sequence) := by
  have bound := utf8_length_le (segmentName sequence)
  have size : (segmentName sequence).toList.length = 32 := by
    rw [segmentName_toList]
    simp [paddedDecimal_length]
  unfold StringWithin maxItems
  omega

theorem segmentNamed_segmentName (sequence : UInt64) : SegmentNamed (segmentName sequence) := by
  unfold SegmentNamed
  rw [segmentName_toList]
  refine ⟨?_, by rw [List.append_assoc]; exact List.prefix_append _ _⟩
  intro slash
  simp only [List.mem_append] at slash
  rcases slash with (inStart | inDigits) | inEnd
  · exact absurd inStart (by decide)
  · exact absurd (paddedDecimal_isDigit inDigits) (by decide)
  · exact absurd inEnd (by decide)

def manifestOf (sequence : UInt64) (sequences : List UInt64) : Manifest where
  sequence := sequence
  segments := sequences.map segmentName

theorem manifestOf_within {sequence : UInt64} {sequences : List UInt64}
    (few : sequences.length ≤ wireLimit) :
    NamesWithin wireLimit (manifestOf sequence sequences).segments := by
  apply And.intro
  · rw [manifestOf, List.length_map]
    exact few
  · intro name member
    obtain ⟨found, -, rfl⟩ := List.mem_map.mp member
    exact le_trans (segmentName_within found) maxItems_le_wireLimit

theorem namesReadable_manifestOf {sequence : UInt64} {sequences : List UInt64} :
    NamesReadable (manifestOf sequence sequences).segments ↔
      sequences ≠ [] ∧ sequences.length ≤ maxIndexSegments + 1 ∧ sequences.Nodup := by
  have names : (manifestOf sequence sequences).segments = sequences.map segmentName := rfl
  have each : ∀ name ∈ sequences.map segmentName,
      StringWithin maxItems name ∧ SegmentNamed name := by
    intro name member
    obtain ⟨found, -, rfl⟩ := List.mem_map.mp member
    exact ⟨segmentName_within found, segmentNamed_segmentName found⟩
  rw [names]
  constructor
  · intro readable
    exact ⟨by simpa using readable.positive, by simpa using readable.few,
      readable.distinct.of_map segmentName⟩
  · intro ⟨positive, few, distinct⟩
    exact {
      positive := by simpa using positive
      few := by simpa using few
      within := fun name member => (each name member).1
      named := fun name member => (each name member).2
      distinct := distinct.map segmentName_injective }

/-! ## Running the programs -/

section Running

variable {disk : Directory} {manifest : Manifest}

theorem run_readManifest_missing (missing : disk manifestName = none) :
    readManifest.run disk = (disk, .ok none) := by
  have absent : (fileExists manifestName).run disk = (disk, .ok false) := by
    rw [run_fileExists, missing]
    rfl
  unfold readManifest
  rw [Program.run_bind_ok absent]
  rfl

theorem run_readManifest {bytes : Bytes} (found : disk manifestName = some bytes) :
    readManifest.run disk = (disk, (decodeManifest bytes).map some) := by
  have present : (fileExists manifestName).run disk = (disk, .ok true) := by
    rw [run_fileExists, found]
    rfl
  unfold readManifest
  rw [Program.run_bind_ok present, if_pos rfl, Program.run_bind_ok (run_readFile found)]
  cases decodeManifest bytes with
  | ok manifest => rfl
  | error error => rfl

def published (disk : Directory) (process : Nat) (manifest : Manifest) : Directory :=
  ((disk.write (manifestTemporaryName process) (manifestBytes manifest)).erase
    (manifestTemporaryName process)).write manifestName (manifestBytes manifest)

theorem run_publishManifest {process : Nat} (fits : NamesWithin wireLimit manifest.segments)
    (unused : disk (manifestTemporaryName process) = none) :
    (publishManifest process manifest.sequence manifest.segments).run disk =
      (published disk process manifest, .ok ()) := by
  unfold publishManifest
  rw [(writes_putManifest manifest).bytes_eq.1 fits]
  change (writeNewFile (manifestTemporaryName process) (manifestBytes manifest) >>= fun _ =>
    renameFile (manifestTemporaryName process) manifestName >>= fun _ => syncDirectory).run disk = _
  rw [Program.run_bind_ok (run_writeNewFile unused),
    Program.run_bind_ok (run_renameFile (Disk.write_same _ _ _)), run_syncDirectory]
  rfl

end Running

end FocalVector.Persistence
