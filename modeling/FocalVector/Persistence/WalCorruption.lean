import FocalVector.Persistence.Acknowledge

/-!
Contract: what recovery makes of a write-ahead log with one altered byte.

The checksum covers only the payload. An altered magic, payload or checksum is
noticed. An altered length that is admissible and runs past the end of the log is
taken for a torn tail. One that cuts out other bytes is noticed by their checksum, or
by what is read from them, unless recovery would skip the record anyway.

Owns: the place of a byte in a log, and which alterations go unnoticed.

Does not own: logs cut short, which are `WalRecovery`'s.
-/

namespace FocalVector.Persistence

open FocalVector.Foundation FocalVector.Engine LittleEndian

section Corruption

variable {arith : FloatArithmetic} {collection : Collection} {start : Nat} {writes : List Write}

/-- Recovery either fails, or gives what the unaltered log gives. -/
def FailsClosed (arith : FloatArithmetic) (collection : Collection) (start : Nat)
    (writes : List Write) (result : Result ((Collection × IdSet) × Nat)) : Prop :=
  (∃ error, result = .error error) ∨ result = recover arith (walBytes start writes) collection ∅

/-- The frame that a byte position of a log lies in. -/
structure FramePlace (start : Nat) (writes : List Write) (position : Nat) where
  before : List Write
  write : Write
  after : List Write
  offset : Nat
  split : writes = before ++ write :: after
  inside : offset < recordLength write + 12
  located : position = (walBytes start before).length + offset

namespace FramePlace

variable {position : Nat} (place : FramePlace start writes position)

def payload : Bytes := recordBytes (UInt64.ofNat (start + place.before.length)) place.write

/-- The frames behind it. -/
def later : Bytes := walBytes (start + place.before.length + 1) place.after

def behind : Bytes := place.payload ++ u32Bytes (crc32c place.payload) ++ place.later

def misread (byte : UInt8) : Nat := FrameFormat.alteredLength place.payload (place.offset - 4) byte

/-- The byte belongs to the length field, and every frame before it is read. -/
def InLength (arith : FloatArithmetic) (collection : Collection) : Prop :=
  4 ≤ place.offset ∧ place.offset < 8 ∧
    Readable arith collection.config collection.sequence.toNat start place.before

/-- The altered length is admissible and runs past the end of the log. -/
def Overruns (arith : FloatArithmetic) (collection : Collection) (byte : UInt8) : Prop :=
  place.InLength arith collection ∧ place.misread byte ≤ maxFrameBytes ∧
    recordLength place.write + place.later.length < place.misread byte

/-- The record would be skipped, and the altered length stays inside the log and
cuts out bytes whose checksum happens to match. -/
def Misdelimits (arith : FloatArithmetic) (collection : Collection) (byte : UInt8) : Prop :=
  place.InLength arith collection ∧
    start + place.before.length ≤ collection.sequence.toNat ∧
    9 ≤ place.misread byte ∧ place.misread byte ≤ maxFrameBytes ∧
    place.misread byte ≤ recordLength place.write + place.later.length ∧
    crc32c (place.behind.take (place.misread byte)) =
      u32OfBytes ((place.behind.drop (place.misread byte)).take 4)

end FramePlace

theorem exists_framePlace {position : Nat} (inside : position < (walBytes start writes).length) :
    Nonempty (FramePlace start writes position) := by
  induction writes generalizing start position with
  | nil => simp [walBytes, payloads] at inside
  | cons write rest ih =>
    have frameLength : (walFormat.frame (recordBytes (UInt64.ofNat start) write)).length =
        recordLength write + 12 := by
      rw [FrameFormat.frame_length, recordBytes_length]
      have header : walFormat.header.length = 4 := rfl
      omega
    have split : walBytes start (write :: rest) =
        walFormat.frame (recordBytes (UInt64.ofNat start) write) ++ walBytes (start + 1) rest := rfl
    by_cases here : position < recordLength write + 12
    · exact ⟨{
        before := [], write, after := rest, offset := position, split := rfl,
        inside := here, located := by simp [walBytes, payloads] }⟩
    · rw [split, List.length_append, frameLength] at inside
      have placed : Nonempty (FramePlace (start + 1) rest
          (position - (recordLength write + 12))) := ih (by omega)
      obtain ⟨place⟩ := placed
      exact ⟨{
        before := write :: place.before
        write := place.write
        after := place.after
        offset := place.offset
        split := congrArg (write :: ·) place.split
        inside := place.inside
        located := by
          have located := place.located
          have grown : walBytes start (write :: place.before) =
              walFormat.frame (recordBytes (UInt64.ofNat start) write) ++
                walBytes (start + 1) place.before := rfl
          rw [grown, List.length_append, frameLength]
          omega }⟩

namespace FramePlace

variable {position : Nat} (place : FramePlace start writes position)

theorem payload_length : place.payload.length = recordLength place.write :=
  recordBytes_length _ _

theorem inFrame : place.offset < (walFormat.frame place.payload).length := by
  have inside := place.inside
  have header : walFormat.header.length = 4 := rfl
  rw [FrameFormat.frame_length, place.payload_length]
  omega

/-- The altered log: the frames before, the altered frame, the frames behind. -/
theorem set_walBytes (byte : UInt8) :
    (walBytes start writes).set position byte =
      walBytes start place.before ++
        ((walFormat.frame place.payload).set place.offset byte ++ place.later) := by
  have inFrame := place.inFrame
  obtain ⟨before, write, after, offset, rfl, inside, rfl⟩ := place
  unfold walBytes
  rw [payloads_append]
  exact FrameFormat.set_frames _ _ _ byte inFrame

theorem recorded_before (recorded : Recorded collection.config start writes) :
    Recorded collection.config start place.before := by
  obtain ⟨before, write, after, offset, rfl, inside, rfl⟩ := place
  have prior := recorded.take before.length
  rwa [List.take_left] at prior

theorem recover_set (byte : UInt8) (starts : start ≤ collection.sequence.toNat + 1)
    (recorded : Recorded collection.config start writes) :
    (Readable arith collection.config collection.sequence.toNat start place.before →
      recover arith ((walBytes start writes).set position byte) collection ∅ =
        walFormat.recover walFault (recoverStep arith)
          ((walFormat.frame place.payload).set place.offset byte ++ place.later)
          (walBytes start place.before).length
          (recovered arith collection ∅ start place.before)) ∧
    (¬ Readable arith collection.config collection.sequence.toNat start place.before → ∃ error,
      recover arith ((walBytes start writes).set position byte) collection ∅ = .error error) := by
  rw [place.set_walBytes]
  exact recover_walBytes_append ∅ starts (place.recorded_before recorded) _

theorem scan_length (byte : UInt8) (low : 4 ≤ place.offset) (high : place.offset < 8) :
    walFormat.scan ((walFormat.frame place.payload).set place.offset byte ++ place.later) =
      if maxFrameBytes < place.misread byte then .corrupt .tooLong
      else if recordLength place.write + place.later.length < place.misread byte then .torn
      else if crc32c (place.behind.take (place.misread byte)) ≠
          u32OfBytes ((place.behind.drop (place.misread byte)).take 4) then
        .corrupt .badChecksum
      else .frame (place.behind.take (place.misread byte))
        (place.behind.drop (place.misread byte + 4)) := by
  have inField : place.offset - 4 < 4 := by omega
  have scanned : walFormat.scan ((walFormat.frame place.payload).set
      (walFormat.header.length + (place.offset - 4)) byte ++ place.later) = _ :=
    FrameFormat.scan_altered_length place.payload place.later byte inField
  have sameOffset : walFormat.header.length + (place.offset - 4) = place.offset := by
    have header : walFormat.header.length = 4 := rfl
    omega
  rw [sameOffset, place.payload_length] at scanned
  exact scanned

theorem recover_overrun {byte : UInt8} (starts : start ≤ collection.sequence.toNat + 1)
    (recorded : Recorded collection.config start writes)
    (overruns : place.Overruns arith collection byte) :
    recover arith ((walBytes start writes).set position byte) collection ∅ =
      .ok (recovered arith collection ∅ start place.before,
        (walBytes start place.before).length) := by
  obtain ⟨⟨low, high, readable⟩, admissible, beyond⟩ := overruns
  have torn : walFormat.scan
      ((walFormat.frame place.payload).set place.offset byte ++ place.later) = .torn := by
    rw [place.scan_length byte low high, if_neg (not_lt.mpr admissible), if_pos beyond]
  rw [(place.recover_set byte starts recorded).1 readable, FrameFormat.recover_torn torn]

theorem recorded_write (recorded : Recorded collection.config start writes) :
    WellShaped collection.config (UInt64.ofNat (start + place.before.length)) place.write ∧
      WriteWithin wireLimit place.write ∧ WriteFinite place.write ∧
      recordLength place.write < 2 ^ 32 ∧ start + place.before.length < 2 ^ 64 := by
  obtain ⟨before, write, after, offset, rfl, inside, rfl⟩ := place
  have member : write ∈ before ++ write :: after := by simp
  have bound := recorded.bounded
  rw [List.length_append, List.length_cons] at bound
  have found : (before ++ write :: after)[before.length]? = some write := by
    rw [List.getElem?_append_right le_rfl, Nat.sub_self]
    rfl
  refine ⟨recorded.shaped _ write found, recorded.fits write member,
    recorded.finite write member, recorded.framed write member, ?_⟩
  change start + before.length < 2 ^ 64
  omega

theorem getElem?_walBytes :
    (walBytes start writes)[position]? = (walFormat.frame place.payload)[place.offset]? := by
  have inFrame := place.inFrame
  obtain ⟨before, write, after, offset, rfl, inside, rfl⟩ := place
  unfold walBytes
  rw [payloads_append, FrameFormat.frames_append, payloads, FrameFormat.frames_cons,
    List.getElem?_append_right (by omega), Nat.add_sub_cancel_left]
  exact List.getElem?_append_left inFrame

theorem misread_ne {byte : UInt8} (recorded : Recorded collection.config start writes)
    (low : 4 ≤ place.offset) (high : place.offset < 8)
    (changed : (walBytes start writes)[position]? ≠ some byte) :
    place.misread byte ≠ recordLength place.write := by
  have small : place.payload.length < 2 ^ 32 := by
    rw [place.payload_length]
    exact (place.recorded_write recorded).2.2.2.1
  rw [← place.payload_length]
  refine FrameFormat.alteredLength_ne small (by omega) fun same => changed ?_
  have header : walFormat.header.length = 4 := rfl
  rw [place.getElem?_walBytes, ← same]
  unfold FrameFormat.frame
  rw [List.append_assoc, List.append_assoc, List.getElem?_append_right (by omega),
    List.getElem?_append_left (by rw [u32Bytes_length]; omega), header]

theorem replay_misread {length : Nat} (starts : start ≤ collection.sequence.toNat + 1)
    (recorded : Recorded collection.config start writes)
    (fresh : collection.sequence.toNat < start + place.before.length)
    (wrong : length ≠ recordLength place.write) :
    ∃ error, recoverStep arith (recovered arith collection ∅ start place.before)
      (place.behind.take length) = .error error := by
  obtain ⟨shaped, fits, finite, -, bounded⟩ := place.recorded_write recorded
  have reached : (recovered arith collection ∅ start place.before).1.sequence.toNat + 1 =
      start + place.before.length := by
    have count : (replayAll arith collection.config (place.before.drop
        (collection.sequence.toNat + 1 - start))).length =
        place.before.length - (collection.sequence.toNat + 1 - start) := by
      rw [replayAll, List.length_map, List.length_drop]
    unfold recovered
    rw [commitAll_sequence _ _ (by omega), count]
    omega
  have sameConfig : (recovered arith collection ∅ start place.before).1.config =
      collection.config := commitAll_config _ _
  generalize recovered arith collection ∅ start place.before = restored at reached sameConfig ⊢
  obtain ⟨state, dirtyIds⟩ := restored
  simp only at reached sameConfig
  have next : state.nextSequence = .ok (UInt64.ofNat (start + place.before.length)) := by
    rw [← reached]
    exact nextSequence_ofNat (by omega)
  rw [← sameConfig] at shaped
  have failed : ∃ error, applyPayload arith state (place.behind.take length) = .error error := by
    rcases Nat.lt_or_gt_of_ne wrong with shorter | longer
    · have cut : place.behind.take length = place.payload.take length := by
        unfold behind
        rw [List.append_assoc, List.take_append_of_le_length]
        rw [place.payload_length]
        omega
      rw [cut]
      exact applyPayload_cut next shaped fits finite (by rw [recordBytes_length]; exact shorter)
    · have extended : place.behind.take length = place.payload ++
          (u32Bytes (crc32c place.payload) ++ place.later).take
            (length - recordLength place.write) := by
        unfold behind
        rw [List.append_assoc, List.take_append, place.payload_length,
          List.take_of_length_le (by rw [place.payload_length]; omega)]
      rw [extended]
      refine (applyPayload_record next shaped fits finite _).2 fun accepted => ?_
      have lengths := congrArg List.length accepted.2
      simp at lengths
      omega
  obtain ⟨error, fails⟩ := failed
  exact ⟨error, by unfold recoverStep; simp only [fails]; rfl⟩

/-- An altered length field is harmless unless it overruns the log or cuts out
a skipped record wrongly. -/
theorem failsClosed_inLength {byte : UInt8} (starts : start ≤ collection.sequence.toNat + 1)
    (recorded : Recorded collection.config start writes)
    (changed : (walBytes start writes)[position]? ≠ some byte)
    (inLength : place.InLength arith collection)
    (notOverrun : ¬ place.Overruns arith collection byte)
    (notMisdelimited : ¬ place.Misdelimits arith collection byte) :
    FailsClosed arith collection start writes
      (recover arith ((walBytes start writes).set position byte) collection ∅) := by
  have ⟨low, high, readable⟩ := inLength
  have reached := (place.recover_set byte starts recorded).1 readable
  rw [FrameFormat.recover_eq, place.scan_length byte low high] at reached
  by_cases tooLong : maxFrameBytes < place.misread byte
  · rw [if_pos tooLong] at reached
    exact .inl ⟨_, reached⟩
  have within : ¬ recordLength place.write + place.later.length < place.misread byte :=
    fun beyond => notOverrun ⟨inLength, not_lt.mp tooLong, beyond⟩
  by_cases mismatch : crc32c (place.behind.take (place.misread byte)) ≠
      u32OfBytes ((place.behind.drop (place.misread byte)).take 4)
  · rw [if_neg tooLong, if_neg within, if_pos mismatch] at reached
    exact .inl ⟨_, reached⟩
  rw [if_neg tooLong, if_neg within, if_neg mismatch] at reached
  simp only at reached
  by_cases fresh : collection.sequence.toNat < start + place.before.length
  · obtain ⟨error, fails⟩ := place.replay_misread starts recorded fresh
      (place.misread_ne recorded low high changed)
    rw [fails] at reached
    exact .inl ⟨error, reached⟩
  · have stale : start + place.before.length ≤ collection.sequence.toNat := not_lt.mp fresh
    by_cases headed : 9 ≤ place.misread byte
    · exact absurd ⟨inLength, stale, headed, not_lt.mp tooLong, not_lt.mp within,
        not_not.mp mismatch⟩ notMisdelimited
    · have short : (place.behind.take (place.misread byte)).length < 9 := by
        rw [List.length_take]
        omega
      obtain ⟨error, fails⟩ := recoverStep_short short
      rw [fails] at reached
      exact .inl ⟨error, reached⟩

end FramePlace

theorem length_of_recover {state : Collection × IdSet} {length : Nat}
    (starts : start ≤ collection.sequence.toNat + 1)
    (recorded : Recorded collection.config start writes)
    (recovers : recover arith (walBytes start writes) collection ∅ = .ok (state, length)) :
    length = (walBytes start writes).length := by
  by_cases readable : Readable arith collection.config collection.sequence.toNat start writes
  · rw [(recover_walBytes ∅ starts recorded).1 readable] at recovers
    exact (congrArg Prod.snd (Except.ok.inj recovers)).symm
  · obtain ⟨error, fails⟩ := (recover_walBytes ∅ starts recorded).2 readable
    rw [fails] at recovers
    cases recovers

/-- Altering one byte of a log that does not cut out a skipped record wrongly is noticed,
except exactly where it makes an admissible length run past the end of the log behind
readable frames. -/
theorem failsClosed_set_iff {position : Nat} {byte : UInt8}
    (starts : start ≤ collection.sequence.toNat + 1)
    (recorded : Recorded collection.config start writes)
    (inside : position < (walBytes start writes).length)
    (changed : (walBytes start writes)[position]? ≠ some byte)
    (delimited : ∀ place : FramePlace start writes position,
      ¬ place.Misdelimits arith collection byte) :
    FailsClosed arith collection start writes
        (recover arith ((walBytes start writes).set position byte) collection ∅) ↔
      ∀ place : FramePlace start writes position, ¬ place.Overruns arith collection byte := by
  constructor
  · intro closed place overruns
    rw [place.recover_overrun starts recorded overruns] at closed
    rcases closed with ⟨error, fails⟩ | complete
    · contradiction
    · -- The unaltered log, where it is read at all, is read to its end.
      have lengths := length_of_recover starts recorded complete.symm
      have located := place.located
      have strict : place.offset ≥ 4 := overruns.1.1
      omega
  · intro clear
    obtain ⟨place⟩ := exists_framePlace inside
    have notOverrun := clear place
    have notMisdelimited := delimited place
    by_cases readable : Readable arith collection.config collection.sequence.toNat start place.before
    · by_cases inLength : place.InLength arith collection
      · exact place.failsClosed_inLength starts recorded changed inLength notOverrun
          notMisdelimited
      · refine .inl ?_
        rw [(place.recover_set byte starts recorded).1 readable]
        rw [place.getElem?_walBytes] at changed
        by_cases inHeader : place.offset < 4
        · exact ⟨_, FrameFormat.recover_corrupt
            (FrameFormat.scan_altered_header _ _ inHeader changed) _ _⟩
        · have beyond : 8 ≤ place.offset := by
            by_contra early
            exact inLength ⟨by omega, by omega, readable⟩
          have small : place.payload.length < 2 ^ 32 := by
            rw [place.payload_length]
            exact (place.recorded_write recorded).2.2.2.1
          have inFrame : place.offset < (walFormat.frame place.payload).length := by
            rw [FrameFormat.frame_length, place.payload_length]
            have header : walFormat.header.length = 4 := rfl
            have bound := place.inside
            omega
          obtain ⟨fault, found⟩ := FrameFormat.scan_altered_body small place.later
            (show walFormat.header.length + 4 ≤ place.offset from beyond) inFrame changed
          exact ⟨_, FrameFormat.recover_corrupt found _ _⟩
    · obtain ⟨error, fails⟩ := (place.recover_set byte starts recorded).2 readable
      exact .inl ⟨error, fails⟩

/-- Opening a directory whose log has one altered byte, which does not cut out a skipped
record wrongly, fails or gives, with the file kept, what the unaltered log gives, exactly
unless the byte makes an admissible length run past the end of the log behind readable
frames. -/
theorem open_altered_log_iff {backend : IndexBackend} {config : CollectionConfig}
    {durability : Durability} {disk : Directory} {position : Nat} {byte : UInt8}
    {loaded : Collection × List (IndexSegment backend) × Option backend.MetadataIndex}
    (positive : config.dimension ≠ 0) (metadata : disk metaName = some (encodeMetadata config))
    (loads : (loadCurrentSegments backend (blank config)).run disk = (disk, .ok loaded))
    (starts : start ≤ loaded.1.sequence.toNat + 1)
    (appended : Appended arith loaded.1.config start writes)
    (inside : position < (walBytes start writes).length)
    (changed : (walBytes start writes)[position]? ≠ some byte)
    (altered : disk walName = some ((walBytes start writes).set position byte))
    (delimited : ∀ place : FramePlace start writes position,
      ¬ place.Misdelimits arith loaded.1 byte) :
    ((∃ next error, (openCollection arith backend config durability).run disk =
          (next, .error error)) ∨
      ∃ state length, recover arith (walBytes start writes) loaded.1 ∅ = .ok (state, length) ∧
        (openCollection arith backend config durability).run disk =
          (disk, .ok ⟨state.1, durability, loaded.2.1, loaded.2.2, state.2⟩)) ↔
      ∀ place : FramePlace start writes position, ¬ place.Overruns arith loaded.1 byte := by
  have recorded := appended.recorded
  rw [← failsClosed_set_iff starts recorded inside changed delimited,
    run_openCollection positive metadata altered loads]
  cases outcome : recover arith ((walBytes start writes).set position byte) loaded.1 ∅ with
  | error error =>
    rw [run_recoverFile_error altered outcome]
    exact iff_of_true (.inl ⟨_, _, rfl⟩) (.inl ⟨error, rfl⟩)
  | ok result =>
    obtain ⟨state, validLength⟩ := result
    have valid := FrameFormat.recover_le outcome
    rw [Nat.zero_add] at valid
    rw [run_recoverFile altered outcome valid]
    constructor
    · intro closed
      rcases closed with ⟨next, error, fails⟩ | ⟨whole, length, complete, same⟩
      · cases fails
      · right
        rw [complete, length_of_recover starts recorded complete]
        have sameFile : disk.write walName _ walName = disk walName :=
          congrFun (congrArg Prod.fst same) walName
        have sameStore := Except.ok.inj (congrArg Prod.snd same)
        rw [Disk.write_same, altered, Option.some.injEq] at sameFile
        have sameLength := congrArg List.length sameFile
        rw [List.length_take, List.length_set] at sameLength
        rw [List.length_set] at valid
        have sameState : state = whole := by
          simp only [PersistentCollection.mk.injEq] at sameStore
          exact Prod.ext sameStore.1 sameStore.2.2.2.2
        rw [sameState, show validLength = (walBytes start writes).length by omega]
    · intro closed
      rcases closed with ⟨error, fails⟩ | complete
      · cases fails
      · have atEnd := length_of_recover starts recorded complete.symm
        refine .inr ⟨state, validLength, complete.symm, ?_⟩
        rw [List.take_of_length_le (by rw [List.length_set, atEnd]), Disk.write_self altered]
        rfl

/-- An altered first byte of the magic is refused. -/
theorem open_altered_magic_fails :
    let config : CollectionConfig := ⟨1, .euclidean, by decide⟩
    let altered := (newDirectory config).write walName ((walBytes 1 [.delete ["a"]]).set 0 0)
    ((∃ next error, (openCollection .normalised .flat config .sync).run altered =
          (next, .error error)) ∨
      ∃ state length, recover .normalised (walBytes 1 [.delete ["a"]]) (blank config) ∅ =
          .ok (state, length) ∧
        (openCollection .normalised .flat config .sync).run altered =
          (altered, .ok ⟨state.1, .sync, [], none, state.2⟩)) := by
  intro config altered
  have granted : (newStore .flat config .sync).inner.nextSequence = .ok 1 := rfl
  have encoded : encodeWrite 1 (.delete ["a"]) = .ok _ :=
    (encodeWrite_eq 1 (.delete ["a"])).1 ⟨by decide, trivial⟩
  have appended : Appended .normalised config 1 [.delete ["a"]] :=
    appended_singleton granted ⟨by simp, by decide⟩ encoded (by decide)
  have metadata : altered metaName = some (encodeMetadata config) := by decide +kernel
  have loads : (loadCurrentSegments .flat (blank config)).run altered =
      (altered, .ok (blank config, [], none)) := by
    unfold loadCurrentSegments
    rw [Program.run_bind_ok (run_readManifest_missing (by decide +kernel))]
    rfl
  -- The first byte lies in front of every length field.
  have outside (place : FramePlace 1 [.delete ["a"]] 0) :
      ¬ place.InLength .normalised (blank config) := by
    rintro ⟨low, -⟩
    have located := place.located
    omega
  exact (open_altered_log_iff (by decide) metadata loads (by decide) appended (by decide +kernel)
    (by decide +kernel) (Disk.write_same _ _ _)
    fun place misdelimits => outside place misdelimits.1).mpr
    fun place overruns => outside place overruns.1

/-- A frame whose length grows by one is taken for a torn tail: the delete it
holds is gone, and so is the frame. -/
theorem lengthened_frame_loses_delete :
    let config : CollectionConfig := ⟨1, .euclidean, by decide⟩
    let intact := (newDirectory config).write walName (walBytes 1 [.delete ["a"]])
    let altered := (newDirectory config).write walName ((walBytes 1 [.delete ["a"]]).set 4 19)
    ((openCollection .normalised .flat config .sync).run intact).2.map (·.latestSequence) =
        .ok 1 ∧
      ((openCollection .normalised .flat config .sync).run altered).2.map (·.latestSequence) =
        .ok 0 ∧
      ((openCollection .normalised .flat config .sync).run altered).1 walName = some [] := by
  decide +kernel

end Corruption

end FocalVector.Persistence
