import FocalVector.Persistence.SharedFlush
import FocalVector.Persistence.SoundOpening

/-!
Contract: the metadata index stays current while clients write and flush.

A flush builds the index from its snapshot and installs it when it is published.
By then the live points may have moved on, and other flushes may have been
published before it. Outside of the dirty ids the snapshot still agrees with the
live points, or the manifest is newer and the flush is dropped.

Owns: `Indexed`, an invariant of every run, and the exactness of searches with a
filter.

Does not own: which runs leave a directory that opens.
-/

namespace FocalVector.Persistence

open FocalVector.Foundation FocalVector.Engine LittleEndian

section Flights

variable {arith : FloatArithmetic} {backend : IndexBackend} {config : CollectionConfig}
  {process : Nat} {store : PersistentCollection backend} {disk : Directory} {sequence : UInt64}
  {base : PointMap}

/-! ## Snapshots of the past -/

/-- A flush of the given sequence is dropped: the manifest is newer, if it reads. -/
def Superseded (disk : Directory) (sequence : UInt64) : Prop :=
  ∃ bytes, disk manifestName = some bytes ∧
    ∀ manifest, decodeManifest bytes = .ok manifest → sequence < manifest.sequence

/-- The points of the collection when it was at a sequence. -/
structure Past (config : CollectionConfig) (store : PersistentCollection backend)
    (disk : Directory) (sequence : UInt64) (base : PointMap) : Prop where
  stored : ∀ id point, base.get id = some point → StoredAt config sequence point
  before : sequence ≤ store.inner.sequence
  latest : sequence = store.inner.sequence → base = store.inner.points
  copies : ∀ id old live, base.get id = some old → store.inner.points.get id = some live →
    live.sequence = old.sequence → live = old
  current : store.Agrees base ∨ Superseded disk sequence

variable {prepared : PreparedFlush backend}

theorem Past.replaced {store : PersistentCollection backend}
    {base : PointMap} {items : SegmentItems} {bytes : Bytes} {decoded : DecodedSegment backend}
    (past : Past config store disk sequence base) (built : Built backend config items bytes)
    (members : ∀ point ∈ items.points, base.get point.id = some point)
    (claims : Claims store prepared bytes decoded) :
    store.inner.replacePersistedPoints decoded.points = store.inner := by
  obtain ⟨-, isItems, -⟩ := built.decoded
    (fun point member => (past.stored point.id point (members point member)).sized) claims.1
  have samePoints : decoded.points = items.points := congrArg SegmentItems.points isItems
  rw [samePoints]
  exact Collection.replacePersistedPoints_of_faithful fun point member live found sameSequence =>
    past.copies point.id point live (members point member) found sameSequence

theorem Superseded.newer {previous : Option Manifest} (superseded : Superseded disk sequence)
    (reads : (readManifest.run disk).2 = .ok previous) :
    ∃ manifest, previous = some manifest ∧ sequence < manifest.sequence := by
  obtain ⟨bytes, found, newer⟩ := superseded
  rw [run_readManifest found] at reads
  cases decodes : decodeManifest bytes with
  | error error =>
    rw [decodes] at reads
    cases reads
  | ok manifest =>
    rw [decodes] at reads
    cases reads
    exact ⟨manifest, rfl, newer manifest decodes⟩

theorem superseded_of_published {previous : Option Manifest}
    (published : disk manifestName = some (manifestBytes (nextManifest prepared previous)))
    (older : sequence < prepared.sequence) : Superseded disk sequence := by
  refine ⟨_, published, fun manifest decodes => ?_⟩
  rw [sequence_of_decodeManifest decodes]
  exact older

theorem Superseded.kept {prepared : PreparedFlush backend} {bytes : Bytes} {next : Directory}
    (published : PublishedOver prepared bytes disk next) (superseded : Superseded disk sequence) :
    Superseded next sequence := by
  rcases published.manifest with kept | ⟨previous, reads, fresh, isNew⟩
  · obtain ⟨old, found, newer⟩ := superseded
    exact ⟨old, kept.trans found, newer⟩
  · obtain ⟨manifest, rfl, newer⟩ := superseded.newer reads
    have notOlder : manifest.sequence ≤ prepared.sequence :=
      UInt64.not_lt.mp fun stale => fresh ⟨manifest, rfl, stale⟩
    exact superseded_of_published isNew (UInt64.lt_of_lt_of_le newer notOlder)

/-- A write leaves the points outside of its ids. -/
theorem agrees_committed (agrees : store.Agrees base) (write : Write) :
    (store.committed write).Agrees base := by
  intro id clean
  have outside := not_mem_changedIds clean
  rw [agrees id outside.1]
  exact (Collection.get_applyWrite_of_not_mem outside.2).symm

/-- A publication that cuts the log cleans all ids, so it needs points that agree
everywhere. -/
theorem agrees_published {decoded : DecodedSegment backend}
    (same : store.inner.replacePersistedPoints decoded.points = store.inner)
    (agrees : store.Agrees base)
    (whole : store.latestSequence = prepared.sequence → base = store.inner.points) :
    (publishedStore store prepared decoded).Agrees base := by
  intro id clean
  have inner : (publishedStore store prepared decoded).inner = store.inner := same
  have notDirty : id ∉ if store.latestSequence = prepared.sequence then ∅ else store.dirtyIds :=
    clean
  rw [inner]
  by_cases isWhole : store.latestSequence = prepared.sequence
  · rw [whole isWhole]
  · rw [if_neg isWhole] at notDirty
    exact agrees id notDirty

namespace Past

theorem taken (sameConfig : store.inner.config = config) (sound : Sound store.inner) :
    Past config store disk store.inner.sequence store.inner.points where
  stored := fun id point found => sameConfig ▸ sound id point found
  before := UInt64.le_refl _
  latest := fun _ => rfl
  copies := by
    intro id old live foundOld foundLive _
    rw [foundOld] at foundLive
    exact (Option.some.inj foundLive).symm
  current := .inl fun _ _ => rfl

variable {next : Directory}

theorem move (past : Past config store disk sequence base)
    (manifest : next manifestName = disk manifestName) :
    Past config store next sequence base :=
  { past with
    current := past.current.imp_right fun ⟨bytes, found, newer⟩ =>
      ⟨bytes, manifest.trans found, newer⟩ }

theorem kept (past : Past config store disk sequence base) {prepared : PreparedFlush backend}
    {bytes : Bytes} (published : PublishedOver prepared bytes disk next) :
    Past config store next sequence base :=
  { past with current := past.current.imp_right fun superseded => superseded.kept published }

theorem write (past : Past config store disk sequence base) {write : Write}
    (later : store.inner.sequence < (store.committed write).inner.sequence)
    (sequenced : ∀ points, write = .upsert points → ∀ point ∈ points,
      point.sequence = (store.committed write).inner.sequence) :
    Past config (store.committed write) disk sequence base where
  stored := past.stored
  before := UInt64.le_of_lt (UInt64.lt_of_le_of_lt past.before later)
  latest := by
    intro same
    have beyond := UInt64.lt_of_le_of_lt past.before later
    rw [same] at beyond
    exact absurd beyond (UInt64.lt_irrefl _)
  copies := by
    intro id old live foundOld foundLive same
    rcases Collection.get_of_applyWrite foundLive with ⟨points, isUpsert, member⟩ | ⟨-, before⟩
    · have beyond : old.sequence < (store.committed write).inner.sequence :=
        UInt64.lt_of_le_of_lt (UInt64.le_trans (past.stored id old foundOld).older past.before) later
      rw [← same, sequenced points isUpsert live member] at beyond
      exact absurd beyond (UInt64.lt_irrefl _)
    · exact past.copies id old live foundOld before same
  current := past.current.imp_left fun agrees => agrees_committed agrees write

/-- A flush whose snapshot was taken at the sequence of the collection agrees with
it, an older one is dropped over a manifest of that sequence. -/
theorem publish (past : Past config store disk sequence base) {prepared : PreparedFlush backend}
    {decoded : DecodedSegment backend}
    (same : store.inner.replacePersistedPoints decoded.points = store.inner)
    (newer : sequence < prepared.sequence → Superseded next sequence)
    (kept : Superseded disk sequence → Superseded next sequence) :
    Past config (publishedStore store prepared decoded) next sequence base := by
  have inner : (publishedStore store prepared decoded).inner = store.inner := same
  refine ⟨past.stored, ?_, ?_, ?_, ?_⟩
  · rw [inner]
    exact past.before
  · rw [inner]
    exact past.latest
  · rw [inner]
    exact past.copies
  · rcases past.current with agrees | superseded
    · by_cases isLatest : sequence = store.inner.sequence
      · exact .inl (agrees_published same agrees fun _ => past.latest isLatest)
      · have older := UInt64.lt_of_le_of_ne past.before isLatest
        by_cases whole : store.latestSequence = prepared.sequence
        · exact .inr (newer (whole ▸ older))
        · exact .inl (agrees_published same agrees fun isWhole => absurd isWhole whole)
    · exact .inr (kept superseded)

end Past

/-! ## The invariant -/

/-- What a flush underway holds. -/
inductive Carries (config : CollectionConfig) (state : SharedState backend) :
    Flight backend → Prop where
  | taken {snapshot : FlushSnapshot} {base : PointMap}
      (past : Past config state.store state.disk snapshot.sequence base)
      (sameConfig : snapshot.config = config) (points : snapshot.points = base.values)
      (graphed : snapshot.graphPoints = snapshot.items.points)
      (members : ∀ point ∈ snapshot.items.points, base.get point.id = some point) :
      Carries config state (.taken snapshot)
  | built {prepared : PreparedFlush backend} {base : PointMap} {items : SegmentItems}
      {bytes : Bytes} (past : Past config state.store state.disk prepared.sequence base)
      (index : prepared.metadataIndex = some (backend.buildMetadata base.values))
      (file : state.disk prepared.temporarySegment = some bytes)
      (built : Built backend config items bytes) (sequenced : items.sequence = prepared.sequence)
      (members : ∀ point ∈ items.points, base.get point.id = some point) :
      Carries config state (.built prepared)

/-- The invariant of every run: the collection is sound, its metadata index is
current, every segment file is composed, and the flushes underway hold points of
the past. -/
structure Indexed (config : CollectionConfig) (process : Nat) (state : SharedState backend) :
    Prop where
  sameConfig : state.store.inner.config = config
  sound : Sound state.store.inner
  current : state.store.IndexCurrent
  logged : ∃ wal, state.disk walName = some wal
  composed : SegmentsComposed backend config state.disk
  carries : ∀ client flight, state.flights client = some flight → Carries config state flight
  names : NamesApart process state

variable {state : SharedState backend}

theorem Carries.move {flight : Flight backend} {next : SharedState backend}
    (carries : Carries config state flight)
    (past : ∀ sequence base, Past config state.store state.disk sequence base →
      Past config next.store next.disk sequence base)
    (kept : ∀ prepared, flight = .built prepared →
      next.disk prepared.temporarySegment = state.disk prepared.temporarySegment) :
    Carries config next flight := by
  cases carries with
  | taken held sameConfig points graphed members =>
    exact .taken (past _ _ held) sameConfig points graphed members
  | built held index file built sequenced members =>
    exact .built (past _ _ held) index ((kept _ rfl).trans file) built sequenced members

namespace Indexed

theorem opened (backend : IndexBackend) (config : CollectionConfig) (process : Nat)
    (durability : Durability) :
    Indexed config process (SharedState.opened backend config durability) where
  sameConfig := rfl
  sound := sound_blank config
  current := nofun
  logged := ⟨_, (onDisk_newDirectory backend config).logged⟩
  composed := by
    intro file bytes isSegment found
    have missing : newDirectory config file = none := by
      unfold newDirectory
      rw [if_neg (ne_of_leading (by simp [isSegment])), if_neg (ne_of_leading (by simp [isSegment]))]
    have present : newDirectory config file = some bytes := found
    rw [missing] at present
    cases present
  carries := nofun
  names := {
    named := nofun
    apart := nofun
    free := by
      intro sequence timestamp nonce _
      show newDirectory config (temporarySegmentName sequence ⟨process, timestamp, nonce⟩) = none
      exact newDirectory_hidden (by simp) }

theorem write (indexed : Indexed config process state) {write : Write} {log : Bytes}
    (appended : Appended arith config (state.store.inner.sequence.toNat + 1) [write]) :
    Indexed config process
      { state with disk := state.disk.write walName log, store := state.store.committed write } := by
  obtain ⟨later, fields⟩ := appended.newer
  have kept : ∀ file, leading file ≠ leading walName →
      state.disk.write walName log file = state.disk file :=
    fun file apart => write_apart _ _ apart
  exact {
    sameConfig := (commit_config _ _).trans indexed.sameConfig
    sound := indexed.sound.committed (indexed.sameConfig ▸ appended)
    current := fun index found =>
      (indexed.current index found).imp fun base built => ⟨built.1, agrees_committed built.2 write⟩
    logged := ⟨log, Disk.write_same state.disk walName log⟩
    composed := fun file bytes isSegment found =>
      indexed.composed file bytes isSegment ((kept file (by simp [isSegment])).symm.trans found)
    carries := by
      intro client flight found
      refine (indexed.carries client flight found).move (fun sequence base past => ?_) ?_
      · exact (past.write later fun points isUpsert point member =>
          (fields points isUpsert point member).2).move (kept manifestName (by simp))
      · rintro prepared rfl
        exact kept _ (by simp [indexed.names.leading_temporary found])
    names := {
      named := indexed.names.named
      apart := indexed.names.apart
      free := fun sequence timestamp nonce beyond =>
        (kept _ (by simp)).trans (indexed.names.free sequence timestamp nonce beyond) } }

section

variable (indexed : Indexed config process state)

include indexed

theorem step_write (request : Request) :
    Indexed config process (state.step arith config process (.write request)) := by
  obtain ⟨wal, found⟩ := indexed.logged
  have performs : Performs arith state.store request state.disk wal _ := run_perform request found
  rcases performs with ⟨write, sequence, -, appended, runs⟩ | ⟨error, refused⟩
  · simp only [SharedState.step, runs]
    rw [indexed.sameConfig] at appended
    exact indexed.write appended
  · simp only [SharedState.step, refused]
    exact indexed

theorem step_flushSnapshot (client : Nat)
    (order : IterationOrder) :
    Indexed config process (state.step arith config process (.flushSnapshot client order)) := by
  cases idle : state.flights client with
  | some flight =>
    simp only [SharedState.step, idle]
    exact indexed
  | none =>
    simp only [SharedState.step, idle]
    exact {
      sameConfig := indexed.sameConfig
      sound := indexed.sound
      current := indexed.current
      logged := indexed.logged
      composed := indexed.composed
      carries := by
        intro other flight found
        rcases flights_of_set found with ⟨-, isNew⟩ | ⟨-, before⟩
        · cases isNew
          exact .taken (.taken indexed.sameConfig indexed.sound) indexed.sameConfig rfl
            (flushSnapshot_graphed order) (flushSnapshot_members order)
        · exact (indexed.carries other flight before).move (fun _ _ past => past) fun _ _ => rfl
      names := {
        named := by
          intro other prepared found
          rcases flights_of_set found with ⟨-, isNew⟩ | ⟨-, before⟩
          · cases isNew
          · exact indexed.names.named other prepared before
        apart := by
          intro left right first second foundLeft foundRight
          rcases flights_of_set foundLeft with ⟨-, isNew⟩ | ⟨-, beforeLeft⟩
          · cases isNew
          rcases flights_of_set foundRight with ⟨-, isNew⟩ | ⟨-, beforeRight⟩
          · cases isNew
          exact indexed.names.apart left right first second beforeLeft beforeRight
        free := indexed.names.free } }

theorem takeOff {client timestamp : Nat}
    {snapshot : FlushSnapshot} {base : PointMap} {name : String} {bytes : Bytes}
    (named : name = temporarySegmentName snapshot.sequence ⟨process, timestamp, state.nonce⟩)
    (past : Past config state.store state.disk snapshot.sequence base)
    (points : snapshot.points = base.values)
    (members : ∀ point ∈ snapshot.items.points, base.get point.id = some point)
    (built : Built backend config snapshot.items bytes) :
    Indexed config process
      ({ state with disk := state.disk.write name bytes, nonce := state.nonce + 1 }.setFlight client
        (some (.built (preparedOf backend snapshot ⟨process, timestamp, state.nonce⟩)))) := by
  have isTemporary : leading name = ['.', 's'] := by simp [named]
  have kept : ∀ file, leading file ≠ leading name →
      state.disk.write name bytes file = state.disk file :=
    fun file apart => write_apart _ _ apart
  have sameManifest := kept manifestName (by simp [isTemporary])
  have index : (preparedOf backend snapshot ⟨process, timestamp, state.nonce⟩).metadataIndex =
      some (backend.buildMetadata base.values) := by rw [← points]; rfl
  have file : state.disk.write name bytes
      (preparedOf backend snapshot ⟨process, timestamp, state.nonce⟩).temporarySegment =
        some bytes := by
    rw [show (preparedOf backend snapshot ⟨process, timestamp, state.nonce⟩).temporarySegment = name
      from named.symm, Disk.write_same]
  obtain ⟨wal, found⟩ := indexed.logged
  exact {
    sameConfig := indexed.sameConfig
    sound := indexed.sound
    current := indexed.current
    logged := ⟨wal, (kept walName (by simp [isTemporary])).trans found⟩
    composed := fun file content isSegment found => indexed.composed file content isSegment
      ((kept file (by simp [isSegment, isTemporary])).symm.trans found)
    carries := by
      intro other flight found
      rcases flights_of_set found with ⟨-, isNew⟩ | ⟨-, before⟩
      · cases isNew
        exact .built (past.move sameManifest) index file built rfl members
      · refine (indexed.carries other flight before).move (fun _ _ held => held.move sameManifest) ?_
        rintro prepared rfl
        have differs := indexed.names.ne_later before le_rfl snapshot.sequence timestamp
        rw [← named] at differs
        exact Disk.write_other _ _ differs.symm
    names := indexed.names.takeOff client named bytes }

theorem step_buildFlush (client timestamp : Nat) :
    Indexed config process (state.step arith config process (.buildFlush client timestamp)) := by
  cases flying : state.flights client with
  | none =>
    simp only [SharedState.step, flying]
    exact indexed
  | some flight =>
    cases indexed.carries client flight flying with
    | built => 
      simp only [SharedState.step, flying]
      exact indexed
    | @taken snapshot base past sameConfig points graphed members =>
      simp only [SharedState.step, flying]
      have unused := indexed.names.free snapshot.sequence timestamp state.nonce le_rfl
      have builds := @run_buildFlush backend _ _ _ unused graphed
      rcases builds with ⟨bytes, built, runs⟩ | ⟨-, error, refused⟩
      · simp only [SharedState.build, runs]
        rw [sameConfig] at built
        exact indexed.takeOff rfl past points members built
      · simp only [SharedState.build, refused]
        exact {
          sameConfig := indexed.sameConfig
          sound := indexed.sound
          current := indexed.current
          logged := indexed.logged
          composed := indexed.composed
          carries := fun other flight found =>
            (indexed.carries other flight (flights_of_landed found).2).move
              (fun _ _ held => held) fun _ _ => rfl
          names := indexed.names.land client rfl (Nat.le_succ _)
            fun sequence clock nonce later =>
              indexed.names.free sequence clock nonce (Nat.le_of_succ_le later) }

/-- A flush that ended leaves the others underway. -/
theorem land {client : Nat}
    {prepared : PreparedFlush backend} (flying : state.flights client = some (.built prepared))
    {bytes : Bytes} (composed : Composed backend config bytes) {next : Directory}
    {after : PersistentCollection backend}
    (published : PublishedOver prepared bytes state.disk next)
    (sameConfig : after.inner.config = config) (sound : Sound after.inner)
    (current : after.IndexCurrent)
    (past : ∀ sequence base, Past config state.store state.disk sequence base →
      Past config after next sequence base) :
    Indexed config process { state.setFlight client none with disk := next, store := after } where
  sameConfig := sameConfig
  sound := sound
  current := current
  logged := published.log
  composed := by
    intro file content isSegment found
    rcases published.segments file isSegment with kept | gone | isNew
    · exact indexed.composed file content isSegment (kept ▸ found)
    · cases gone.symm.trans found
    · rw [← Option.some.inj (isNew.symm.trans found)]
      exact composed
  carries := by
    intro other flight found
    obtain ⟨isOther, before⟩ := flights_of_landed found
    refine (indexed.carries other flight before).move past ?_
    rintro otherPrepared rfl
    refine published.temporaries _ (indexed.names.leading_temporary before) fun same => ?_
    exact isOther (indexed.names.apart other client _ _ before flying same)
  names := indexed.names.land client rfl le_rfl
    (indexed.names.free_of_kept flying published.temporaries)

theorem step_publishFlush (client : Nat) :
    Indexed config process (state.step arith config process (.publishFlush client)) := by
  cases flying : state.flights client with
  | none =>
    simp only [SharedState.step, flying]
    exact indexed
  | some flight =>
    cases indexed.carries client flight flying with
    | taken =>
      simp only [SharedState.step, flying]
      exact indexed
    | @built prepared base items bytes past index file built sequenced members =>
      simp only [SharedState.step, flying]
      obtain ⟨wal, found⟩ := indexed.logged
      have temporary := indexed.names.leading_temporary flying
      have stored : ∀ point ∈ items.points, StoredAt config items.sequence point := by
        intro point member
        rw [sequenced]
        exact past.stored point.id point (members point member)
      have composed : Composed backend config bytes := ⟨items, built, stored⟩
      have published : PublishedOver prepared bytes state.disk
          ((state.store.publishFlush process prepared).run state.disk).1 :=
        publishFlush_over temporary file found
      have stays : Indexed config process { state.setFlight client none with
          disk := ((state.store.publishFlush process prepared).run state.disk).1 } :=
        indexed.land flying composed published indexed.sameConfig indexed.sound indexed.current
          fun sequence base held => held.kept published
      cases runs : (state.store.publishFlush process prepared).run state.disk with
      | mk next outcome =>
        rw [runs] at published stays
        cases outcome with
        | error error =>
          simp only [SharedState.publish, runs]
          exact stays
        | ok result =>
          obtain ⟨after, latest⟩ := result
          simp only [SharedState.publish, runs]
          rcases publishFlush_eq_ok temporary file runs with
            rfl | ⟨previous, decoded, reads, fresh, claims, rfl, manifest⟩
          · exact stays
          · have same := past.replaced built members claims
            have agrees : state.store.Agrees base := by
              refine past.current.resolve_right fun superseded => fresh ?_
              exact superseded.newer reads
            refine indexed.land flying composed published ?_ ?_ ?_ ?_
            · show (state.store.inner.replacePersistedPoints decoded.points).config = config
              rw [same, indexed.sameConfig]
            · show Sound (state.store.inner.replacePersistedPoints decoded.points)
              rw [same]
              exact indexed.sound
            · intro installed isInstalled
              have isNew : prepared.metadataIndex = some installed := isInstalled
              rw [index, Option.some.injEq] at isNew
              exact ⟨base, isNew.symm, agrees_published same agrees fun whole =>
                past.latest whole.symm⟩
            · exact fun sequence held heldPast => heldPast.publish same
                (superseded_of_published manifest) (Superseded.kept published)

theorem step_reopen (durability : Durability) :
    Indexed config process (state.step arith config process (.reopen durability)) := by
  cases runs : (openCollection arith backend config durability).run state.disk with
  | mk next outcome =>
    have kept : ∀ file, leading file ≠ leading metaName → leading file ≠ leading walName →
        next file = state.disk file := fun file notMetadata notLog =>
      (openCollection_avoids notMetadata (ne_of_leading notLog)).of_run runs
    have composed : SegmentsComposed backend config next := fun file bytes isSegment found =>
      indexed.composed file bytes isSegment
        ((kept file (by simp [isSegment]) (by simp [isSegment])).symm.trans found)
    have free : ∀ sequence timestamp nonce, state.nonce ≤ nonce →
        next (temporarySegmentName sequence ⟨process, timestamp, nonce⟩) = none :=
      fun sequence timestamp nonce later =>
        (kept _ (by simp) (by simp)).trans (indexed.names.free sequence timestamp nonce later)
    have logged : ∃ wal, next walName = some wal := by
      have keeps := openCollection_keeps_log arith backend config durability _ indexed.logged
      rwa [runs] at keeps
    cases outcome with
    | error error =>
      simp only [SharedState.step, runs]
      exact {
        sameConfig := indexed.sameConfig
        sound := indexed.sound
        current := indexed.current
        logged := logged
        composed := composed
        carries := by
          intro client flight found
          refine (indexed.carries client flight found).move (fun _ _ past =>
            past.move (kept manifestName (by simp) (by simp))) ?_
          rintro prepared rfl
          have isTemporary := indexed.names.leading_temporary found
          exact kept _ (by simp [isTemporary]) (by simp [isTemporary])
        names := ⟨indexed.names.named, indexed.names.apart, free⟩ }
    | ok after =>
      simp only [SharedState.step, runs]
      obtain ⟨sameConfig, sound, current⟩ := openCollection_eq_ok indexed.composed runs
      exact {
        sameConfig := sameConfig
        sound := sound
        current := current
        logged := logged
        composed := composed
        carries := by simp
        names := ⟨by simp, by simp, free⟩ }

theorem step (command : SharedCommand) :
    Indexed config process (state.step arith config process command) := by
  cases command with
  | write request => exact indexed.step_write request
  | flushSnapshot client order => exact indexed.step_flushSnapshot client order
  | buildFlush client timestamp => exact indexed.step_buildFlush client timestamp
  | publishFlush client => exact indexed.step_publishFlush client
  | reopen durability => exact indexed.step_reopen durability

theorem run (commands : List SharedCommand) :
    Indexed config process (state.run arith config process commands) := by
  induction commands generalizing state with
  | nil => exact indexed
  | cons command rest ih => exact ih (indexed.step command)

end

end Indexed

end Flights

/-! ## Searching with a filter -/

section Filtered

variable (arith : SearchArithmetic) {backend : IndexBackend} (graphs : GraphSearch backend.Graph)
  (config : CollectionConfig) (process : Nat) (durability : Durability)

/-- In every state that a run reaches, a search with a filter returns exactly what
the exact search of the live points returns. -/
theorem filtered_search_is_exact (commands : List SharedCommand) {query : List F32}
    {k efSearch : Nat} :
    let state := (SharedState.opened (backend.withMetadata arith.toIntegerConversion) config
      durability).run arith.toFloatArithmetic config process commands
    ValidSearch arith state.store.inner query k efSearch → ∀ filter,
      state.store.searchWithEf arith graphs query k (some filter) efSearch =
        state.store.inner.search arith query k (some filter) := by
  intro state valid filter
  have indexed : Indexed config process state := (Indexed.opened _ config process durability).run commands
  rw [PersistentCollection.searchWithEf_eq valid]
  exact indexed.current.searchFiltered_eq valid filter

variable {config} in
theorem validSearch_of_run (commands : List SharedCommand) {query prepared : List F32}
    {k efSearch : Nat} (positive : k ≠ 0) (enough : k ≤ efSearch)
    (dimension : query.length = config.dimension)
    (prepares : config.metric.prepare arith.toFloatArithmetic query = .ok prepared) :
    ValidSearch arith ((SharedState.opened backend config durability).run arith.toFloatArithmetic
      config process commands).store.inner query k efSearch := by
  have indexed : Indexed config process ((SharedState.opened backend config durability).run
      arith.toFloatArithmetic config process commands) :=
    (Indexed.opened backend config process durability).run commands
  have sameConfig := indexed.sameConfig
  exact ⟨positive, enough, by rw [sameConfig, dimension], prepared, by rw [sameConfig, prepares]⟩

end Filtered

/-- A point written while a flush is built is found through its filter. -/
theorem filtered_search_finds_late_write :
    let config : CollectionConfig := ⟨1, .dotProduct, by decide⟩
    let red : Metadata := Std.ExtTreeMap.empty.insert "color" (.keyword "red")
    let commands : List SharedCommand :=
      [.write (.upsert [⟨"a", [⟨0x3f800000⟩], red⟩]), .flushSnapshot 0 .sorted,
        .buildFlush 0 0, .write (.upsert [⟨"b", [⟨0x40000000⟩], red⟩]), .publishFlush 0]
    let state := (SharedState.opened (IndexBackend.flat.withMetadata
        SearchArithmetic.unit.toIntegerConversion) config .sync).run
      SearchArithmetic.unit.toFloatArithmetic config 7 commands
    state.store.searchWithEf .unit flatSearch [⟨0x3f800000⟩] 1
        (some (.eq "color" (.keyword "red"))) 1 =
      state.store.inner.search .unit [⟨0x3f800000⟩] 1 (some (.eq "color" (.keyword "red"))) := by
  intro config red commands
  have valid := @validSearch_of_run .unit (IndexBackend.flat.withMetadata
    SearchArithmetic.unit.toIntegerConversion) config 7 .sync commands [⟨0x3f800000⟩] _ 1 1
    (by decide) le_rfl rfl rfl
  exact filtered_search_is_exact .unit flatSearch config 7 .sync commands valid _

end FocalVector.Persistence
