import FocalVector.Persistence.History

/-!
Contract: the chains of segments in a directory, and opening it.

A chain is a full segment and deltas on top of it, each in its file and with
increasing sequences; loading it gives the history at its end. A directory
stores a log when its manifest names such a chain and its log file begins at or
before the chain's end.

Owns: `Chain`, `OnDisk`, and what opening a directory gives.

Does not own: how directories come about.
-/

namespace FocalVector.Persistence

open FocalVector.Foundation FocalVector.Engine LittleEndian

section Chains

variable {backend : IndexBackend} {config : CollectionConfig} {log : List Write}

def Built (backend : IndexBackend) (config : CollectionConfig) (items : SegmentItems)
    (bytes : Bytes) : Prop :=
  ∃ graph output,
    backend.build config.dimension config.metric
      (items.points.map fun point => (point.id, point.vector)) = .ok graph ∧
    (putSegment backend config items graph).bytes = .ok output ∧
    bytes = withChecksum output

theorem Built.unique {items : SegmentItems} {left right : Bytes}
    (first : Built backend config items left) (second : Built backend config items right) :
    left = right := by
  obtain ⟨graph, output, built, written, rfl⟩ := first
  obtain ⟨otherGraph, otherOutput, otherBuilt, otherWritten, rfl⟩ := second
  rw [built, Except.ok.injEq] at otherBuilt
  subst otherBuilt
  rw [written, Except.ok.injEq] at otherWritten
  rw [otherWritten]

theorem Built.decoded {items : SegmentItems} {bytes : Bytes} {decoded : DecodedSegment backend}
    (built : Built backend config items bytes)
    (sized : ∀ point ∈ items.points, point.vector.length = config.dimension)
    (decodes : decodeSegment backend bytes = .ok decoded) :
    decoded.config = config ∧ decoded.items = items ∧
      matchGraph backend config items.points decoded.index = .ok () := by
  obtain ⟨graph, output, -, written, rfl⟩ := built
  obtain ⟨graphLength, writable, rfl⟩ := bytes_putSegment.mp written
  obtain ⟨-, -, -, index, -, matches_, rfl⟩ :=
    (decodeSegment_payload writable.within writable.finite sized writable.short).mp decodes
  exact ⟨rfl, rfl, matches_⟩

/-- A segment that ends at a position of the log is in its file. -/
structure Stored (backend : IndexBackend) (config : CollectionConfig) (disk : Directory)
    (count : Nat) (decoded : DecodedSegment backend) : Prop where
  sameConfig : decoded.config = config
  sequenced : decoded.sequence = UInt64.ofNat count
  file : ∃ bytes, disk (segmentName (UInt64.ofNat count)) = some bytes ∧
    decodeSegment backend bytes = .ok decoded ∧ Built backend config decoded.items bytes

/-- A full segment and deltas on top of it, up to a position of the log. -/
inductive Chain (backend : IndexBackend) (config : CollectionConfig) (disk : Directory)
    (log : List Write) : List (DecodedSegment backend) → Nat → Prop where
  | full {decoded : DecodedSegment backend} {count : Nat} (within : count ≤ log.length)
      (stored : Stored backend config disk count decoded)
      (holds : HoldsAll config log count decoded.items) : Chain backend config disk log [decoded] count
  | delta {chain : List (DecodedSegment backend)} {decoded : DecodedSegment backend}
      {start count : Nat} (below : Chain backend config disk log chain start)
      (later : start < count) (within : count ≤ log.length)
      (stored : Stored backend config disk count decoded)
      (holds : HoldsChanges config log start count decoded.items) :
      Chain backend config disk log (chain ++ [decoded]) count

def chainIndexes (backend : IndexBackend) (chain : List (DecodedSegment backend)) :
    List (IndexSegment backend) :=
  chain.foldl (fun indexes decoded => pushIndex backend indexes decoded.sequence decoded.index) []

theorem chainIndexes_append_singleton (chain : List (DecodedSegment backend))
    (decoded : DecodedSegment backend) :
    chainIndexes backend (chain ++ [decoded]) =
      pushIndex backend (chainIndexes backend chain) decoded.sequence decoded.index := by
  simp [chainIndexes]

def chainManifest (chain : List (DecodedSegment backend)) (count : Nat) : Manifest :=
  manifestOf (UInt64.ofNat count) (chain.map DecodedSegment.sequence)

namespace Chain

variable {disk : Directory} {chain : List (DecodedSegment backend)} {count : Nat}

theorem within (chained : Chain backend config disk log chain count) : count ≤ log.length := by
  cases chained with
  | full within _ _ => exact within
  | delta _ _ within _ _ => exact within

theorem ne_nil (chained : Chain backend config disk log chain count) : chain ≠ [] := by
  cases chained with
  | full _ _ _ => simp
  | delta _ _ _ _ _ => simp

theorem sequence_le (bounded : log.length < 2 ^ 64)
    (chained : Chain backend config disk log chain count) :
    ∀ decoded ∈ chain, decoded.sequence.toNat ≤ count := by
  induction chained with
  | full within stored _ =>
    intro decoded member
    rw [List.mem_singleton.mp member, stored.sequenced, toNat_ofNat_of_lt (by omega)]
  | delta below later within stored _ ih =>
    intro decoded member
    rcases List.mem_append.mp member with earlier | last
    · have bound := ih decoded earlier
      omega
    · rw [List.mem_singleton.mp last, stored.sequenced, toNat_ofNat_of_lt (by omega)]

theorem sequences_nodup (bounded : log.length < 2 ^ 64)
    (chained : Chain backend config disk log chain count) :
    (chain.map DecodedSegment.sequence).Nodup := by
  induction chained with
  | full _ _ _ => simp
  | @delta chain decoded start count below later within stored _ ih =>
    rw [List.map_append, List.map_singleton]
    apply List.Nodup.append ih (List.nodup_singleton _)
    intro sequence member last
    obtain ⟨earlier, earlierMember, rfl⟩ := List.mem_map.mp member
    have bound := below.sequence_le bounded earlier earlierMember
    rw [List.mem_singleton.mp last, stored.sequenced, toNat_ofNat_of_lt (by omega)] at bound
    omega

theorem frame {other : Directory} (chained : Chain backend config disk log chain count)
    (same : ∀ decoded ∈ chain, other (segmentName decoded.sequence) =
      disk (segmentName decoded.sequence)) : Chain backend config other log chain count := by
  have moved : ∀ {decoded : DecodedSegment backend} {count : Nat},
      Stored backend config disk count decoded →
      other (segmentName decoded.sequence) = disk (segmentName decoded.sequence) →
      Stored backend config other count decoded := by
    intro decoded count stored sameFile
    refine ⟨stored.sameConfig, stored.sequenced, ?_⟩
    rw [← stored.sequenced, sameFile, stored.sequenced]
    exact stored.file
  induction chained with
  | full within stored holds => exact .full within (moved stored (same _ (by simp))) holds
  | delta below later within stored holds ih =>
    exact .delta (ih fun decoded member => same decoded (by simp [member]))
      later within (moved stored (same _ (by simp))) holds

theorem append (chained : Chain backend config disk log chain count) (later : List Write) :
    Chain backend config disk (log ++ later) chain count := by
  induction chained with
  | full within stored holds =>
    exact .full (le_trans within (by simp)) stored (holds.append within later)
  | delta below order within stored holds ih =>
    exact .delta ih order (le_trans within (by simp)) stored
      (holds.append within later)

end Chain

/-! ## Loading a chain -/

variable {manifest : Manifest} {position : Nat} {state : Loading backend}

theorem loadSegment_eq_ok {bytes : Bytes} {decoded : DecodedSegment backend} {collection : Collection}
    (decodes : decodeSegment backend bytes = .ok decoded)
    (sameConfig : decoded.config = state.collection.config)
    (first : position = 0 → decoded.full = true)
    (ordered : 0 < position → decoded.full = false ∧ state.previousSequence < decoded.sequence)
    (last : position + 1 = manifest.segments.length → decoded.sequence = manifest.sequence)
    (applies : applySegment state.collection decoded = .ok collection) :
    loadSegment backend manifest position bytes state =
      .ok ⟨collection, pushIndex backend state.indexes decoded.sequence decoded.index,
        decoded.sequence⟩ := by
  have nonempty : ¬ bytes.isEmpty = true := by
    intro empty
    rw [List.isEmpty_iff.mp empty] at decodes
    cases decodes
  have isFirst : ¬ (position = 0 ∧ decoded.full = false) := fun both => by
    rw [first both.1] at both
    exact absurd both.2 (by decide)
  have isOrdered : ¬ (0 < position ∧ (decoded.full = true ∨
      decoded.sequence ≤ state.previousSequence)) := by
    intro ⟨positive, wrong⟩
    obtain ⟨isDelta, increases⟩ := ordered positive
    rcases wrong with isFull | decreases
    · rw [isDelta] at isFull
      cases isFull
    · exact absurd increases (UInt64.not_lt.mpr decreases)
  have isLast : ¬ (position + 1 = manifest.segments.length ∧
      decoded.sequence ≠ manifest.sequence) := fun both => both.2 (last both.1)
  unfold loadSegment
  rw [if_neg nonempty, decodes]
  simp only [Bind.bind, Except.bind]
  rw [if_neg (not_not.mpr sameConfig), if_neg isFirst, if_neg isOrdered, if_neg isLast, applies]
  rfl

variable {disk : Directory}

theorem run_loadSegments_cons
    {name : String} {names : List String} {bytes : Bytes} {next : Loading backend}
    (found : disk name = some bytes)
    (loads : loadSegment backend manifest position bytes state = .ok next) :
    (loadSegments backend manifest position (name :: names) state).run disk =
      (loadSegments backend manifest (position + 1) names next).run disk := by
  rw [loadSegments, Program.run_bind_ok (run_readFile found), loads]
  rfl

theorem run_loadSegments_append
    {left : List String} (right : List String) {middle : Loading backend}
    (loads : (loadSegments backend manifest position left state).run disk = (disk, .ok middle)) :
    (loadSegments backend manifest position (left ++ right) state).run disk =
      (loadSegments backend manifest (position + left.length) right middle).run disk := by
  induction left generalizing position state with
  | nil =>
    simp only [loadSegments, Program.run_pure, Prod.mk.injEq, Except.ok.injEq, true_and] at loads
    rw [loads]
    rfl
  | cons name rest ih =>
    have shifted : position + (name :: rest).length = position + 1 + rest.length := by
      simp only [List.length_cons]
      omega
    cases found : disk name with
    | none =>
      rw [loadSegments, Program.run_bind_error (run_readFile_missing found)] at loads
      cases loads
    | some bytes =>
      cases step : loadSegment backend manifest position bytes state with
      | error error =>
        rw [loadSegments, Program.run_bind_ok (run_readFile found), step] at loads
        cases loads
      | ok next =>
        rw [run_loadSegments_cons found step] at loads
        rw [List.cons_append, run_loadSegments_cons found step, shifted]
        exact ih loads

theorem Chain.load {chain : List (DecodedSegment backend)} {count : Nat}
    (recorded : Recorded config 1 log) (chained : Chain backend config disk log chain count)
    (manifest : Manifest)
    (covered : chain.length < manifest.segments.length ∨
      chain.length = manifest.segments.length ∧ manifest.sequence = UInt64.ofNat count) :
    (loadSegments backend manifest 0 (chain.map (segmentName ·.sequence))
        ⟨blank config, [], 0⟩).run disk =
      (disk, .ok ⟨history config log count, chainIndexes backend chain, UInt64.ofNat count⟩) := by
  have bounded := bounded_of_recorded recorded
  induction chained with
  | @full decoded count within stored holds =>
    obtain ⟨bytes, found, decodes, -⟩ := stored.file
    rw [← stored.sequenced] at found
    have last : 0 + 1 = manifest.segments.length → decoded.sequence = manifest.sequence := by
      intro isLast
      rcases covered with shorter | ⟨-, same⟩
      · rw [← isLast] at shorter
        exact absurd shorter (by simp)
      · rw [stored.sequenced, same]
    have loads : loadSegment backend manifest 0 bytes ⟨blank config, [], 0⟩ =
        .ok ⟨history config log count, _, decoded.sequence⟩ :=
      loadSegment_eq_ok decodes stored.sameConfig (fun _ => holds.full)
        (fun positive => absurd positive (Nat.lt_irrefl 0)) last
        (applySegment_holdsAll recorded within holds stored.sequenced rfl)
    rw [List.map_singleton, run_loadSegments_cons found loads, ← stored.sequenced]
    rfl
  | @delta chain decoded start count below later within stored holds ih =>
    obtain ⟨bytes, found, decodes, -⟩ := stored.file
    rw [← stored.sequenced] at found
    have size : (chain ++ [decoded]).length = chain.length + 1 := by simp
    rw [size] at covered
    have shorter : chain.length < manifest.segments.length := by omega
    have increases : UInt64.ofNat start < decoded.sequence := by
      rw [stored.sequenced, UInt64.lt_iff_toNat_lt, toNat_ofNat_of_lt (by omega),
        toNat_ofNat_of_lt (by omega)]
      exact later
    have last : chain.length + 1 = manifest.segments.length →
        decoded.sequence = manifest.sequence := by
      intro isLast
      rcases covered with beyond | ⟨-, same⟩
      · omega
      · rw [stored.sequenced, same]
    have positive : chain.length ≠ 0 := fun empty =>
      below.ne_nil (List.length_eq_zero_iff.mp empty)
    have loads : loadSegment backend manifest chain.length bytes
        ⟨history config log start, chainIndexes backend chain, UInt64.ofNat start⟩ =
        .ok ⟨history config log count, _, decoded.sequence⟩ :=
      loadSegment_eq_ok decodes (stored.sameConfig.trans (history_config config log start).symm)
        (fun first => absurd first positive) (fun _ => ⟨holds.full, increases⟩) last
        (applySegment_holdsChanges bounded (by omega) within holds stored.sequenced)
    rw [List.map_append, run_loadSegments_append _ (ih (.inl shorter)),
      List.length_map, Nat.zero_add, List.map_singleton, run_loadSegments_cons found loads,
      ← stored.sequenced, chainIndexes_append_singleton]
    rfl

end Chains

/-! ## Directories -/

section Directories

variable {arith : FloatArithmetic} {backend : IndexBackend} {config : CollectionConfig}
  {disk : Directory} {log : List Write} {chain : List (DecodedSegment backend)}
  {count start : Nat}

/-- The segments of a directory: none, or a chain that its manifest names. -/
inductive Base (backend : IndexBackend) (config : CollectionConfig) (disk : Directory)
    (log : List Write) : List (DecodedSegment backend) → Nat → Prop where
  | empty (missing : disk manifestName = none) : Base backend config disk log [] 0
  | chain {chain : List (DecodedSegment backend)} {count : Nat}
      (chained : Chain backend config disk log chain count)
      (few : chain.length ≤ maxIndexSegments + 1)
      (manifest : disk manifestName = some (manifestBytes (chainManifest chain count))) :
      Base backend config disk log chain count

/-- A directory that stores a log: segments up to `count`, and a log file that
begins at or before their end. -/
structure OnDisk (backend : IndexBackend) (config : CollectionConfig) (disk : Directory)
    (log : List Write) (chain : List (DecodedSegment backend)) (count start : Nat) : Prop where
  metadata : disk metaName = some (encodeMetadata config)
  base : Base backend config disk log chain count
  logged : disk walName = some (walBytes (1 + start) (log.drop start))
  overlap : start ≤ count

theorem chainManifest_readable (bounded : log.length < 2 ^ 64)
    (chained : Chain backend config disk log chain count)
    (few : chain.length ≤ maxIndexSegments + 1) :
    decodeManifest (manifestBytes (chainManifest chain count)) =
      .ok (chainManifest chain count) := by
  have small : (chain.map DecodedSegment.sequence).length ≤ maxIndexSegments + 1 := by
    rw [List.length_map]
    exact few
  apply (decodeManifest_manifestBytes (manifestOf_within (le_trans small (by decide)))).1
  rw [namesReadable_manifestOf]
  exact ⟨by simpa using chained.ne_nil, small, chained.sequences_nodup bounded⟩

theorem Base.within (base : Base backend config disk log chain count) : count ≤ log.length := by
  cases base with
  | empty _ => exact Nat.zero_le _
  | chain chained _ _ => exact chained.within

/-- What `read_manifest` finds in a directory. -/
def baseManifest (chain : List (DecodedSegment backend)) (count : Nat) : Option Manifest :=
  if chain.isEmpty then none else some (chainManifest chain count)

theorem Base.run_readManifest (bounded : log.length < 2 ^ 64)
    (base : Base backend config disk log chain count) :
    readManifest.run disk = (disk, .ok (baseManifest chain count)) := by
  cases base with
  | empty missing => exact run_readManifest_missing missing
  | chain chained few manifest =>
    rw [FocalVector.Persistence.run_readManifest manifest,
      chainManifest_readable bounded chained few, baseManifest, if_neg (by simpa using chained.ne_nil)]
    rfl

def baseIndex (backend : IndexBackend) (config : CollectionConfig) (log : List Write)
    (chain : List (DecodedSegment backend)) (count : Nat) : Option backend.MetadataIndex :=
  if chain.isEmpty then none
  else some (backend.buildMetadata (history config log count).snapshotStoredPoints)

theorem Base.run_loadCurrentSegments (recorded : Recorded config 1 log)
    (base : Base backend config disk log chain count) :
    (loadCurrentSegments backend (blank config)).run disk =
      (disk, .ok (history config log count, chainIndexes backend chain,
        baseIndex backend config log chain count)) := by
  have reads := base.run_readManifest (bounded_of_recorded recorded)
  unfold loadCurrentSegments
  rw [Program.run_bind_ok reads]
  cases base with
  | empty missing => rfl
  | chain chained few manifest =>
    have nonempty : ¬ chain.isEmpty = true := by simpa using chained.ne_nil
    have names : (chainManifest chain count).segments =
        chain.map (segmentName ·.sequence) := by
      simp [chainManifest, manifestOf]
    have loads := chained.load recorded (chainManifest chain count)
      (.inr ⟨by rw [names, List.length_map], rfl⟩)
    rw [← names] at loads
    rw [baseManifest, baseIndex, if_neg nonempty, if_neg nonempty]
    change (loadSegments backend _ 0 _ _ >>= fun loaded => pure _ : Fs _).run disk = _
    rw [Program.run_bind_ok loads]
    rfl

variable {durability : Durability}

theorem run_openCollection {wal : Bytes}
    {loaded : Collection × List (IndexSegment backend) × Option backend.MetadataIndex}
    (positive : config.dimension ≠ 0) (metadata : disk metaName = some (encodeMetadata config))
    (found : disk walName = some wal)
    (loads : (loadCurrentSegments backend (blank config)).run disk = (disk, .ok loaded)) :
    (openCollection arith backend config durability).run disk =
      (((recoverFile arith loaded.1 ∅).run disk).1,
        ((recoverFile arith loaded.1 ∅).run disk).2.map fun recovered =>
          ⟨recovered.1, durability, loaded.2.1, loaded.2.2, recovered.2⟩) := by
  unfold openCollection
  rw [Program.run_bind_ok (run_ensureMetadata positive metadata),
    Program.run_bind_ok (run_openOrCreate found), new_eq_ok positive,
    Program.run_bind_ok (Program.run_ofExcept _), Program.run_bind_ok loads, Program.run_bind]
  obtain ⟨inner, indexes, metadataIndex⟩ := loaded
  cases recovers : (recoverFile arith inner ∅).run disk with
  | mk next result => cases result <;> rfl

theorem OnDisk.run_openCollection (positive : config.dimension ≠ 0)
    (recorded : Recorded config 1 log)
    (onDisk : OnDisk backend config disk log chain count start) :
    (openCollection arith backend config durability).run disk =
      (((recoverFile arith (history config log count) ∅).run disk).1,
        ((recoverFile arith (history config log count) ∅).run disk).2.map fun recovered =>
          ⟨recovered.1, durability, chainIndexes backend chain,
            baseIndex backend config log chain count, recovered.2⟩) :=
  FocalVector.Persistence.run_openCollection positive onDisk.metadata onDisk.logged
    (onDisk.base.run_loadCurrentSegments recorded)

theorem Base.frame {other : Directory} (base : Base backend config disk log chain count)
    (manifest : other manifestName = disk manifestName)
    (segments : ∀ sequence, other (segmentName sequence) = disk (segmentName sequence)) :
    Base backend config other log chain count := by
  cases base with
  | empty missing => exact .empty (manifest.trans missing)
  | chain chained few listed =>
    exact .chain (chained.frame fun _ _ => segments _) few (manifest.trans listed)

theorem Base.write_log (base : Base backend config disk log chain count) (wal : Bytes) :
    Base backend config (disk.write walName wal) log chain count :=
  base.frame (write_apart _ _ (by simp)) fun _ => write_apart _ _ (by simp)

/-- A log that reaches back behind the segments is read from their end on. -/
theorem Base.recover_log_append (recorded : Recorded config 1 log)
    (base : Base backend config disk log chain count) (overlap : start ≤ count) (rest : Bytes) :
    (Readable arith config count (1 + start) (log.drop start) →
      recover arith (walBytes (1 + start) (log.drop start) ++ rest) (history config log count) ∅ =
        walFormat.recover walFault (recoverStep arith) rest
          (walBytes (1 + start) (log.drop start)).length
          (commitAll (history config log count) (replayAll arith config (log.drop count)),
            changedIds ∅ (log.drop count))) ∧
    (¬ Readable arith config count (1 + start) (log.drop start) → ∃ error,
      recover arith (walBytes (1 + start) (log.drop start) ++ rest) (history config log count) ∅ =
        .error error) := by
  have bounded := bounded_of_recorded recorded
  have within := base.within
  have reached := history_toNat config within bounded
  have starts : 1 + start ≤ (history config log count).sequence.toNat + 1 := by omega
  have skipped : (log.drop start).drop (count + 1 - (1 + start)) = log.drop count := by
    rw [List.drop_drop]
    congr 1
    omega
  have recorded' : Recorded (history config log count).config (1 + start) (log.drop start) := by
    rw [history_config]
    exact recorded.drop start (by omega)
  have recovers : (Readable arith _ _ _ _ → _) ∧ _ :=
    recover_walBytes_append ∅ starts recorded' rest
  rw [recovered, reached, history_config, skipped] at recovers
  exact recovers

theorem OnDisk.recover_log (recorded : Recorded config 1 log)
    (onDisk : OnDisk backend config disk log chain count start) :
    (Readable arith config count (1 + start) (log.drop start) →
      (recoverFile arith (history config log count) ∅).run disk =
        (disk, .ok (commitAll (history config log count) (replayAll arith config (log.drop count)),
          changedIds ∅ (log.drop count)))) ∧
    (¬ Readable arith config count (1 + start) (log.drop start) → ∃ error,
      (recoverFile arith (history config log count) ∅).run disk = (disk, .error error)) := by
  have recovers : (Readable arith _ _ _ _ → _) ∧ _ :=
    onDisk.base.recover_log_append recorded onDisk.overlap []
  rw [List.append_nil, FrameFormat.recover_nil] at recovers
  constructor
  · intro readable
    have whole := run_recoverFile onDisk.logged (recovers.1 readable) le_rfl
    rw [List.take_length, Disk.write_self onDisk.logged] at whole
    exact whole
  · intro unreadable
    obtain ⟨error, fails⟩ := recovers.2 unreadable
    exact ⟨error, run_recoverFile_error onDisk.logged fails⟩

theorem OnDisk.opens_torn (positive : config.dimension ≠ 0)
    (recorded : Recorded config 1 log)
    (replays : ∀ write ∈ log, replayWrite arith config write = .ok write)
    (onDisk : OnDisk backend config disk log chain count start)
    (readable : Readable arith config count (1 + start) (log.drop start)) {rest : Bytes}
    (torn : rest = [] ∨ walFormat.scan rest = .torn) :
    (openCollection arith backend config durability).run
        (disk.write walName (walBytes (1 + start) (log.drop start) ++ rest)) =
      (disk, .ok ⟨history config log log.length, durability, chainIndexes backend chain,
        baseIndex backend config log chain count, changedIds ∅ (log.drop count)⟩) := by
  have unchanged : replayAll arith config (log.drop count) = log.drop count :=
    replayAll_eq_self fun write member => replays write (List.mem_of_mem_drop member)
  have recovers := (onDisk.base.recover_log_append recorded onDisk.overlap rest).1 readable
  have stops (position : Nat) (reached : Collection × IdSet) :
      walFormat.recover walFault (recoverStep arith) rest position reached =
        .ok (reached, position) := by
    rcases torn with rfl | torn
    · exact FrameFormat.recover_nil position reached
    · exact FrameFormat.recover_torn torn position reached
  rw [stops, unchanged, commitAll_history] at recovers
  rw [FocalVector.Persistence.run_openCollection positive
      ((write_apart _ _ (by simp)).trans onDisk.metadata) (Disk.write_same _ _ _)
      ((onDisk.base.write_log _).run_loadCurrentSegments recorded),
    run_recoverFile (Disk.write_same _ _ _) recovers (by simp), List.take_left, Disk.write_write,
    Disk.write_self onDisk.logged]
  rfl

/-- A stored log that is read to its end, and whose batches replay takes as they
are, opens to its history, with the ids that changed since the segments. -/
theorem OnDisk.opens {durability : Durability} (positive : config.dimension ≠ 0)
    (recorded : Recorded config 1 log)
    (replays : ∀ write ∈ log, replayWrite arith config write = .ok write)
    (onDisk : OnDisk backend config disk log chain count start)
    (readable : Readable arith config count (1 + start) (log.drop start)) :
    (openCollection arith backend config durability).run disk =
      (disk, .ok ⟨history config log log.length, durability, chainIndexes backend chain,
        baseIndex backend config log chain count, changedIds ∅ (log.drop count)⟩) := by
  have opens : (openCollection arith backend config durability).run _ = _ :=
    onDisk.opens_torn positive recorded replays readable (.inl rfl)
  rw [List.append_nil, Disk.write_self onDisk.logged] at opens
  exact opens

/-- A stored log that cannot be read to its end does not open. -/
theorem OnDisk.open_fails (positive : config.dimension ≠ 0)
    (recorded : Recorded config 1 log)
    (onDisk : OnDisk backend config disk log chain count start)
    (unreadable : ¬ Readable arith config count (1 + start) (log.drop start)) :
    ∃ error, (openCollection arith backend config durability).run disk = (disk, .error error) := by
  obtain ⟨error, fails⟩ := (onDisk.recover_log recorded).2 unreadable
  exact ⟨error, by rw [onDisk.run_openCollection positive recorded, fails]; rfl⟩

/-! ## New directories -/

def newDirectory (config : CollectionConfig) : Directory := fun name =>
  if name = metaName then some (encodeMetadata config)
  else if name = walName then some []
  else none

theorem newDirectory_hidden {name : String} (isHidden : (leading name).head? = some '.') :
    newDirectory config name = none := by
  unfold newDirectory
  rw [if_neg (ne_of_visible (by simp) isHidden).symm, if_neg (ne_of_visible (by simp) isHidden).symm]

def newStore (backend : IndexBackend) (config : CollectionConfig) (durability : Durability) :
    PersistentCollection backend where
  inner := blank config
  durability := durability
  indexes := []
  metadataIndex := none
  dirtyIds := ∅

theorem onDisk_newDirectory (backend : IndexBackend) (config : CollectionConfig) :
    OnDisk backend config (newDirectory config) [] [] 0 0 where
  metadata := if_pos rfl
  base := .empty (by
    unfold newDirectory
    rw [if_neg (ne_of_leading (by simp)), if_neg (ne_of_leading (by simp))])
  logged := by
    unfold newDirectory
    rw [if_neg (ne_of_leading (by simp)), if_pos rfl]
    rfl
  overlap := le_rfl

theorem recorded_nil (config : CollectionConfig) : Recorded config 1 [] where
  bounded := by decide
  shaped := by simp
  fits := by simp
  finite := by simp
  framed := by simp

theorem run_openCollection_empty (positive : config.dimension ≠ 0) :
    (openCollection arith backend config durability).run (fun _ => none) =
      (newDirectory config, .ok (newStore backend config durability)) := by
  have onDisk := onDisk_newDirectory backend config
  have created : (ensureMetadata config).run (fun _ => none) = _ :=
    run_ensureMetadata_new config rfl rfl
  have sameFiles : ((((Disk.write (fun _ => none) metaTemporaryName (encodeMetadata config)).erase
      metaTemporaryName).write metaName (encodeMetadata config)).write walName [] : Directory) =
      newDirectory config := by
    funext name
    simp only [Disk.write, Disk.erase, newDirectory]
    by_cases isWal : name = walName
    · rw [if_pos isWal, if_neg (isWal ▸ ne_of_leading (by simp)), if_pos isWal]
    · rw [if_neg isWal, if_neg isWal]
      split
      · rfl
      · split <;> rfl
  have opens : (openCollection arith backend config durability).run (newDirectory config) = _ :=
    onDisk.opens positive (recorded_nil config) (by simp) ⟨by simp, by simp⟩
  unfold openCollection at opens ⊢
  rw [Program.run_bind_ok created, Program.run_bind_ok (run_openOrCreate_missing _), sameFiles]
  · rw [Program.run_bind_ok (run_ensureMetadata positive onDisk.metadata),
      Program.run_bind_ok (run_openOrCreate onDisk.logged)] at opens
    exact opens
  · rw [Disk.write_other _ _ (ne_of_leading (by simp)), Disk.erase_other _ (ne_of_leading (by simp)),
      Disk.write_other _ _ (ne_of_leading (by simp))]

end Directories

end FocalVector.Persistence
