import FocalVector.Raft.Reopening

/-!
Contract: reopening a journal in which one byte was altered.

A header, a payload or a checksum that was altered is refused. So is a length
that was altered but stays inside the file: what it cuts out is no document, or
a document with whitespace behind it, and then the next header is not found.
Only a length that runs past the end of the file is taken for a torn end.

Owns: the condition under which an altered journal is refused.

Does not own: journals that were cut short.
-/

namespace FocalVector.Raft

open FocalVector.Foundation FocalVector.Engine FocalVector.Persistence LittleEndian

/-! ## Altered journals -/

namespace Journal

variable {α σ : Type} {finite : α → Prop}

/-- A header that is not whitespace and does not repeat its first byte. -/
structure Sturdy (journal : Journal) : Prop where
  size : journal.format.header.length = 5
  solid : ∀ byte ∈ journal.format.header.head?, isSpaceByte byte = false
  once : ∀ shift, 1 ≤ shift → shift ≤ 4 →
    journal.format.header[shift]? ≠ journal.format.header[0]?

/-- The byte belongs to a length that, once altered, is admissible and runs past
the end of the file, and every record before it is readable. -/
def Overruns (journal : Journal) (form : JsonForm α finite) (records : List α) (position : Nat)
    (byte : UInt8) : Prop :=
  ∃ before record after offset, records = before ++ record :: after ∧
    (∀ earlier ∈ before, journal.Readable form earlier) ∧ offset < 4 ∧
    position = (journal.bytes form before).length + (journal.format.header.length + offset) ∧
    FrameFormat.alteredLength (form.toVec record) offset byte ≤ journal.format.maxPayload ∧
    (form.toVec record).length + (journal.bytes form after).length <
      FrameFormat.alteredLength (form.toVec record) offset byte

variable {journal : Journal} {form : JsonForm α finite} {step : σ → α → σ}
  {records before after : List α} {record : α} {offset : Nat} {byte : UInt8} {state : σ}

theorem bytes_split : journal.bytes form (before ++ record :: after) =
      journal.bytes form before ++ (journal.format.frame (form.toVec record) ++
        journal.bytes form after) := by
  simp [bytes, FrameFormat.frames]

theorem set_bytes (inside : offset < (journal.format.frame (form.toVec record)).length) :
    (journal.bytes form (before ++ record :: after)).set
        ((journal.bytes form before).length + offset) byte =
      journal.bytes form before ++ ((journal.format.frame (form.toVec record)).set offset byte ++
        journal.bytes form after) := by
  unfold bytes
  rw [List.map_append, List.map_cons, FrameFormat.set_frames _ _ _ _ inside]

variable (before record after offset) in
theorem recover_overrun (readable : ∀ record ∈ before, journal.Readable form record)
    (inField : offset < 4)
    (admissible : FrameFormat.alteredLength (form.toVec record) offset byte ≤
      journal.format.maxPayload)
    (beyond : (form.toVec record).length + (journal.bytes form after).length <
      FrameFormat.alteredLength (form.toVec record) offset byte) :
    journal.recover form step ((journal.bytes form (before ++ record :: after)).set
        ((journal.bytes form before).length + (journal.format.header.length + offset)) byte) state =
      .ok (before.foldl step state, (journal.bytes form before).length) := by
  have inside : journal.format.header.length + offset <
      (journal.format.frame (form.toVec record)).length := by
    rw [FrameFormat.frame_length]
    omega
  rw [set_bytes inside, recover_bytes_append readable, FrameFormat.recover_torn]
  rw [FrameFormat.scan_altered_length _ _ _ inField, if_neg (not_lt.mpr admissible), if_pos beyond]

/-- Behind a record that was cut too long nothing looks like a frame. -/
theorem scan_shifted (sturdy : journal.Sturdy) (payload rest : Bytes) {shift : Nat}
    (low : 1 ≤ shift) (high : shift ≤ 4) :
    journal.format.scan ((journal.format.frame payload ++ rest).drop shift) =
      .corrupt .badHeader := by
  have frameSize := FrameFormat.frame_length journal.format payload
  have size : journal.format.header.length + 4 ≤
      ((journal.format.frame payload ++ rest).drop shift).length := by
    rw [List.length_drop, List.length_append]
    have header := sturdy.size
    omega
  have nonempty : (journal.format.frame payload ++ rest).drop shift ≠ [] := by
    intro empty
    rw [empty] at size
    simp at size
  unfold FrameFormat.scan
  rw [if_neg nonempty, if_neg (not_lt.mpr size), if_pos]
  intro same
  apply sturdy.once shift low high
  have first := congrArg (·[0]?) same
  rw [List.getElem?_take_of_lt (by rw [sturdy.size]; omega), List.getElem?_drop] at first
  rw [← first, Nat.add_zero]
  have header := sturdy.size
  rw [List.getElem?_append_left (by omega), FrameFormat.frame, List.append_assoc,
    List.append_assoc, List.getElem?_append_left (by omega)]

/-- A record that is cut out wrongly is refused, or what follows it is. -/
theorem recover_misread (sturdy : journal.Sturdy) {length : Nat}
    (differs : length ≠ (form.toVec record).length)
    (within : length ≤ (form.toVec record).length + (journal.bytes form after).length)
    (position : Nat) :
    ∃ error, (recoverStep form step state ((form.toVec record ++
        u32Bytes (journal.format.checksum (form.toVec record)) ++
          journal.bytes form after).take length)).bind
      (journal.format.recover (fun fault _ => .io (journal.fault fault)) (recoverStep form step)
        ((form.toVec record ++ u32Bytes (journal.format.checksum (form.toVec record)) ++
          journal.bytes form after).drop (length + 4)) position) = .error error := by
  rcases Nat.lt_or_gt_of_ne differs with shorter | longer
  · obtain ⟨message, fails⟩ := form.fromSlice_take record length shorter
    have taken : (form.toVec record ++ u32Bytes (journal.format.checksum (form.toVec record)) ++
        journal.bytes form after).take length = (form.toVec record).take length := by
      rw [List.append_assoc, List.take_append_of_le_length shorter.le]
    rw [taken, recoverStep_of_error fails]
    exact ⟨_, rfl⟩
  · obtain ⟨shift, rfl⟩ := Nat.exists_eq_add_of_lt longer
    have taken : (form.toVec record ++ u32Bytes (journal.format.checksum (form.toVec record)) ++
        journal.bytes form after).take ((form.toVec record).length + shift + 1) =
        form.toVec record ++ (u32Bytes (journal.format.checksum (form.toVec record)) ++
          journal.bytes form after).take (shift + 1) := by
      rw [List.append_assoc, Nat.add_assoc, List.take_length_add_append]
    have dropped : (form.toVec record ++ u32Bytes (journal.format.checksum (form.toVec record)) ++
        journal.bytes form after).drop ((form.toVec record).length + shift + 1 + 4) =
        (journal.bytes form after).drop (shift + 1) := by
      rw [show (form.toVec record).length + shift + 1 + 4 = (form.toVec record ++
        u32Bytes (journal.format.checksum (form.toVec record))).length + (shift + 1) by
          rw [List.length_append, u32Bytes_length]; omega]
      exact List.drop_length_add_append _
    rw [taken, dropped]
    -- A frame follows, or the length would run past the end.
    obtain ⟨follower, rest, isAfter⟩ : ∃ follower rest, after = follower :: rest := by
      cases after with
      | nil =>
        have empty : (journal.bytes form []).length = 0 := rfl
        omega
      | cons follower rest => exact ⟨follower, rest, rfl⟩
    have follows : journal.bytes form after =
        journal.format.frame (form.toVec follower) ++ journal.bytes form rest := by
      rw [isAfter]
      simp [bytes]
    cases read : recoverStep form step state (form.toVec record ++
        (u32Bytes (journal.format.checksum (form.toVec record)) ++
          journal.bytes form after).take (shift + 1)) with
    | error error => exact ⟨error, rfl⟩
    | ok next =>
      have blank : ∀ byte ∈ (u32Bytes (journal.format.checksum (form.toVec record)) ++
          journal.bytes form after).take (shift + 1), isSpaceByte byte = true := by
        refine (form.fromSlice_append record _).resolve_left ?_
        rintro ⟨message, fails⟩
        rw [recoverStep_of_error fails] at read
        cases read
      have close : shift + 1 ≤ 4 := by
        by_contra far
        have header := sturdy.size
        have start : journal.format.header[0]? ≠ none := by
          rw [Ne, List.getElem?_eq_none_iff]
          omega
        obtain ⟨first, isFirst⟩ := Option.ne_none_iff_exists'.mp start
        have found : ((u32Bytes (journal.format.checksum (form.toVec record)) ++
            journal.bytes form after).take (shift + 1))[4]? = some first := by
          rw [List.getElem?_take_of_lt (by omega), List.getElem?_append_right (by simp),
            u32Bytes_length, follows, Nat.sub_self,
            List.getElem?_append_left (by rw [FrameFormat.frame_length]; omega),
            FrameFormat.frame, List.append_assoc, List.append_assoc,
            List.getElem?_append_left (by omega), isFirst]
        have space := blank first (List.mem_of_getElem? found)
        have solid := sturdy.solid first (by rw [List.head?_eq_getElem?, isFirst]; rfl)
        rw [solid] at space
        cases space
      have shifted := scan_shifted sturdy (form.toVec follower) (journal.bytes form rest)
        (Nat.succ_pos shift) close
      rw [follows]
      exact ⟨_, FrameFormat.recover_corrupt shifted _ _⟩

theorem recover_altered (sturdy : journal.Sturdy) {position : Nat}
    (small : ∀ record ∈ records, (form.toVec record).length ≤ journal.format.maxPayload)
    (inside : position < (journal.bytes form records).length)
    (changed : (journal.bytes form records)[position]? ≠ some byte)
    (contained : ¬ journal.Overruns form records position byte) :
    ∃ error, journal.recover form step ((journal.bytes form records).set position byte) state =
      .error error := by
  obtain ⟨beforeBytes, payload, afterBytes, offset, split, offsetInside, located⟩ :=
    FrameFormat.exists_frame_of_position _ inside
  obtain ⟨before, rest, rfl, rfl, isRest⟩ := List.map_eq_append_iff.mp split
  obtain ⟨record, after, rfl, rfl, rfl⟩ := List.map_eq_cons_iff.mp isRest
  have position_eq : position = (journal.bytes form before).length + offset := located
  have smallBefore : ∀ record ∈ before,
      (form.toVec record).length ≤ journal.format.maxPayload :=
    fun earlier member => small earlier (List.mem_append_left _ member)
  have smallRecord : (form.toVec record).length < 2 ^ 32 :=
    lt_of_le_of_lt (small record (List.mem_append_right _ List.mem_cons_self))
      journal.format.maxPayload_lt
  have fits : ∀ payload ∈ before.map form.toVec, payload.length ≤ journal.format.maxPayload := by
    intro payload member
    obtain ⟨earlier, isEarlier, rfl⟩ := List.mem_map.mp member
    exact smallBefore earlier isEarlier
  have frameChanged : (journal.format.frame (form.toVec record))[offset]? ≠ some byte := by
    rw [bytes_split, position_eq, List.getElem?_append_right (by omega), Nat.add_sub_cancel_left,
      List.getElem?_append_left offsetInside] at changed
    exact changed
  rw [position_eq, set_bytes offsetInside]
  unfold recover
  rw [bytes, FrameFormat.recover_frames_append _ fits]
  cases folds : (before.map form.toVec).foldlM (recoverStep form step) state with
  | error error => exact ⟨error, rfl⟩
  | ok reached =>
    show ∃ error, journal.format.recover _ _ _ _ reached = .error error
    by_cases inHeader : offset < journal.format.header.length
    · rw [FrameFormat.recover_corrupt (FrameFormat.scan_altered_header _ _ inHeader frameChanged)]
      exact ⟨_, rfl⟩
    by_cases beyond : journal.format.header.length + 4 ≤ offset
    · obtain ⟨fault, found⟩ := FrameFormat.scan_altered_body smallRecord
        (journal.bytes form after) beyond offsetInside frameChanged
      exact ⟨_, FrameFormat.recover_corrupt found _ _⟩
    obtain ⟨place, rfl⟩ := Nat.exists_eq_add_of_le (not_lt.mp inHeader)
    have inField : place < 4 := by omega
    have fieldChanged : (u32Bytes (UInt32.ofNat (form.toVec record).length))[place]? ≠
        some byte := by
      rw [FrameFormat.frame, List.append_assoc, List.append_assoc,
        List.getElem?_append_right (by omega), Nat.add_sub_cancel_left,
        List.getElem?_append_left (by simpa using inField)] at frameChanged
      exact frameChanged
    have differs := FrameFormat.alteredLength_ne smallRecord inField fieldChanged
    rw [FrameFormat.recover_eq, FrameFormat.scan_altered_length _ _ _ inField]
    by_cases tooLong : journal.format.maxPayload <
        FrameFormat.alteredLength (form.toVec record) place byte
    · rw [if_pos tooLong]
      exact ⟨_, rfl⟩
    rw [if_neg tooLong]
    by_cases overrun : (form.toVec record).length + (journal.bytes form after).length <
        FrameFormat.alteredLength (form.toVec record) place byte
    · exact absurd ⟨before, record, after, place, rfl,
        readable_of_foldlM smallBefore folds, inField, position_eq,
        not_lt.mp tooLong, overrun⟩ contained
    rw [if_neg overrun]
    by_cases collides : journal.format.checksum ((form.toVec record ++
          u32Bytes (journal.format.checksum (form.toVec record)) ++
            journal.bytes form after).take
          (FrameFormat.alteredLength (form.toVec record) place byte)) =
        u32OfBytes (((form.toVec record ++
          u32Bytes (journal.format.checksum (form.toVec record)) ++
            journal.bytes form after).drop
          (FrameFormat.alteredLength (form.toVec record) place byte)).take 4)
    · rw [if_neg (not_not.mpr collides)]
      exact recover_misread sturdy differs (not_lt.mp overrun) _
    · rw [if_pos collides]
      exact ⟨_, rfl⟩

/-- Whatever is folded over the records, reopening returns an error or the fold
of all of them. -/
def FailsClosed (journal : Journal) (form : JsonForm α finite) (records : List α) (disk : Directory) :
    Prop :=
  ∀ (σ : Type) (step : σ → α → σ) (state : σ),
    (∃ next error, (journal.recoverFile form step state).run disk = (next, .error error)) ∨
      ∃ next, (journal.recoverFile form step state).run disk =
        (next, .ok (records.foldl step state))

theorem failsClosed_iff (sturdy : journal.Sturdy) {position : Nat}
    {disk : Directory}
    (small : ∀ record ∈ records, (form.toVec record).length ≤ journal.format.maxPayload)
    (inside : position < (journal.bytes form records).length)
    (changed : (journal.bytes form records)[position]? ≠ some byte)
    (altered : disk journal.file = some ((journal.bytes form records).set position byte)) :
    journal.FailsClosed form records disk ↔ ¬ journal.Overruns form records position byte := by
  constructor
  · rintro closed ⟨before, record, after, offset, rfl, readable, inField, rfl, admissible, beyond⟩
    rcases closed (List α) (fun kept record => kept ++ [record]) [] with
      ⟨next, error, fails⟩ | ⟨next, reopens⟩
    · rw [run_recoverFile altered (recover_overrun _ _ _ _ readable inField admissible beyond)] at fails
      cases fails
    · rw [run_recoverFile altered (recover_overrun _ _ _ _ readable inField admissible beyond),
        foldl_concat, foldl_concat] at reopens
      have lost := congrArg List.length (Except.ok.inj (Prod.mk.inj reopens).2)
      simp at lost
  · intro contained σ step state
    have refused : ∃ error, journal.recover form step
        ((journal.bytes form records).set position byte) state = .error error :=
      recover_altered sturdy small inside changed contained
    obtain ⟨error, fails⟩ := refused
    exact .inl ⟨disk, error, run_recoverFile_error altered fails⟩

end Journal

theorem sturdy_raftJournal : raftJournal.Sturdy :=
  ⟨by decide, by decide +kernel, by decide +kernel⟩

theorem sturdy_stateJournal : stateJournal.Sturdy :=
  ⟨by decide, by decide +kernel, by decide +kernel⟩

/-- Of the log of votes and entries and of that of applied records, a file with
one altered byte is reopened with an error or with all its records exactly when
the byte does not make a record overrun the file. -/
theorem altered_journals_fail_closed_iff (json : SerdeJson) :
    (∀ (records : List JournalRecord) (disk : Directory) (position : Nat) (byte : UInt8),
      (∀ record ∈ records,
        (json.journalRecord.toVec record).length ≤ raftJournal.format.maxPayload) →
      position < (raftJournal.bytes json.journalRecord records).length →
      (raftJournal.bytes json.journalRecord records)[position]? ≠ some byte →
      disk raftJournal.file =
        some ((raftJournal.bytes json.journalRecord records).set position byte) →
      (raftJournal.FailsClosed json.journalRecord records disk ↔
        ¬ raftJournal.Overruns json.journalRecord records position byte)) ∧
    (∀ (records : List AppliedRecord) (disk : Directory) (position : Nat) (byte : UInt8),
      (∀ record ∈ records,
        (json.appliedRecord.toVec record).length ≤ stateJournal.format.maxPayload) →
      position < (stateJournal.bytes json.appliedRecord records).length →
      (stateJournal.bytes json.appliedRecord records)[position]? ≠ some byte →
      disk stateJournal.file =
        some ((stateJournal.bytes json.appliedRecord records).set position byte) →
      (stateJournal.FailsClosed json.appliedRecord records disk ↔
        ¬ stateJournal.Overruns json.appliedRecord records position byte)) := by
  constructor
  · intro records disk position byte small inside changed altered
    exact Journal.failsClosed_iff sturdy_raftJournal small inside
      changed altered
  · intro records disk position byte small inside changed altered
    exact Journal.failsClosed_iff sturdy_stateJournal small inside
      changed altered

/-- A vote whose header is altered is refused. -/
theorem altered_header_fails_closed :
    let vote : JournalRecord := .saveVote ⟨⟨1, 1⟩, true⟩
    let bytes := raftJournal.bytes SerdeJson.spelled.journalRecord [vote]
    raftJournal.FailsClosed SerdeJson.spelled.journalRecord [vote]
      (Disk.write (fun _ => none) raftJournal.file (bytes.set 0 0)) := by
  intro vote bytes
  have size : raftJournal.format.header.length = 5 := by decide
  refine ((altered_journals_fail_closed_iff .spelled).1 [vote] _ 0 0 (by decide +kernel)
    (by decide +kernel) (by decide +kernel) (Disk.write_same _ _ _)).mpr ?_
  rintro ⟨before, record, after, offset, -, -, -, first, -⟩
  omega

/-- The only vote of a log and the only record of a state machine, each with a
length of 255, are dropped without an error. -/
theorem altered_length_drops_records :
    let vote : JournalRecord := .saveVote ⟨⟨1, 1⟩, true⟩
    let record : AppliedRecord := ⟨⟨⟨1, 1⟩, 1⟩, .blank⟩
    let voteBytes := raftJournal.bytes SerdeJson.spelled.journalRecord [vote]
    let recordBytes := stateJournal.bytes SerdeJson.spelled.appliedRecord [record]
    voteBytes[5]? ≠ some 255 ∧ recordBytes[5]? ≠ some 255 ∧
      (openLog .spelled).run (Disk.write (fun _ => none) raftJournal.file (voteBytes.set 5 255)) =
        (Disk.write (fun _ => none) raftJournal.file [], .ok .initial) ∧
      (stateJournal.recoverFile SerdeJson.spelled.appliedRecord (fun seen record => seen ++ [record])
          []).run (Disk.write (fun _ => none) stateJournal.file (recordBytes.set 5 255)) =
        (Disk.write (fun _ => none) stateJournal.file [], .ok []) := by
  intro vote record voteBytes recordBytes
  have votes : raftJournal.recover SerdeJson.spelled.journalRecord JournalState.apply (voteBytes.set 5 255)
      .initial = .ok (.initial, 0) :=
    Journal.recover_overrun [] [] vote 0
      (fun _ member => absurd member List.not_mem_nil) (by decide) (by decide +kernel)
      (by decide +kernel)
  have applied : stateJournal.recover SerdeJson.spelled.appliedRecord (fun seen record => seen ++ [record])
      (recordBytes.set 5 255) [] = .ok ([], 0) :=
    Journal.recover_overrun [] [] record 0
      (fun _ member => absurd member List.not_mem_nil) (by decide) (by decide +kernel)
      (by decide +kernel)
  refine ⟨by decide +kernel, by decide +kernel, ?_, ?_⟩
  · rw [run_openLog_checkpointed (Checkpointed.write (.inl ⟨rfl, rfl⟩) _)
      stateFinite_initial (Disk.write_same _ _ _),
      Journal.run_recoverFile (Disk.write_same _ _ _) votes, Disk.write_write, List.take_zero]
  · rw [Journal.run_recoverFile (Disk.write_same _ _ _) applied, Disk.write_write, List.take_zero]

end FocalVector.Raft
