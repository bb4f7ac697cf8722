import FocalVector.Persistence.Live

/-!
Contract: clients of a shared collection that write and flush at the same time.

A write holds the collection alone. A flush is three steps of its client:
taking a snapshot, building the segment without any lock, and publishing it.
Between them the other clients may do anything.

Owns: `SharedState`, its steps, and the reopening of every state that a run
reaches.

Does not own: searches and the background flusher, which flushes like any other
client.
-/

namespace FocalVector.Persistence

open FocalVector.Foundation FocalVector.Engine LittleEndian

/-- Where a client's flush is: its snapshot was taken, or its segment was built. -/
inductive Flight (backend : IndexBackend) where
  | taken (snapshot : FlushSnapshot)
  | built (prepared : PreparedFlush backend)

/-- A shared collection, its directory, the flush of each client, and the number
of temporary segments named so far. -/
structure SharedState (backend : IndexBackend) where
  disk : Directory
  store : PersistentCollection backend
  flights : Nat → Option (Flight backend)
  nonce : Nat

/-- A step that some client takes. -/
inductive SharedCommand where
  | write (request : Request)
  | flushSnapshot (client : Nat) (order : IterationOrder)
  | buildFlush (client timestamp : Nat)
  | publishFlush (client : Nat)
  | reopen (durability : Durability)

namespace SharedState

variable {backend : IndexBackend}

def opened (backend : IndexBackend) (config : CollectionConfig) (durability : Durability) :
    SharedState backend where
  disk := newDirectory config
  store := newStore backend config durability
  flights := fun _ => none
  nonce := 0

def setFlight (state : SharedState backend) (client : Nat) (flight : Option (Flight backend)) :
    SharedState backend :=
  { state with flights := fun other => if other = client then flight else state.flights other }

variable (arith : FloatArithmetic) (config : CollectionConfig) (process : Nat)

def build (state : SharedState backend) (client timestamp : Nat) (snapshot : FlushSnapshot) :
    SharedState backend :=
  let outcome := (buildFlush backend snapshot ⟨process, timestamp, state.nonce⟩).run state.disk
  let counted := { state with disk := outcome.1, nonce := state.nonce + 1 }
  match outcome.2 with
  | .ok prepared => counted.setFlight client (some (.built prepared))
  | .error _ => counted.setFlight client none

def publish (state : SharedState backend) (client : Nat) (prepared : PreparedFlush backend) :
    SharedState backend :=
  let outcome := (state.store.publishFlush process prepared).run state.disk
  let landed := { state with disk := outcome.1 }.setFlight client none
  match outcome.2 with
  | .ok (after, _) => { landed with store := after }
  | .error _ => landed

def step (state : SharedState backend) : SharedCommand → SharedState backend
  | .write request =>
    match (state.store.perform arith request).run state.disk with
    | (next, .ok (after, _)) => { state with disk := next, store := after }
    | (next, .error _) => { state with disk := next }
  | .flushSnapshot client order =>
    match state.flights client with
    | none => state.setFlight client (some (.taken (state.store.flushSnapshot order)))
    | some _ => state
  | .buildFlush client timestamp =>
    match state.flights client with
    | some (.taken snapshot) => state.build process client timestamp snapshot
    | _ => state
  | .publishFlush client =>
    match state.flights client with
    | some (.built prepared) => state.publish process client prepared
    | _ => state
  | .reopen durability =>
    match (openCollection arith backend config durability).run state.disk with
    | (next, .ok after) => { state with disk := next, store := after, flights := fun _ => none }
    | (next, .error _) => { state with disk := next }

def run (state : SharedState backend) (commands : List SharedCommand) : SharedState backend :=
  commands.foldl (step arith config process) state

/-- The step writes only batches that recovery takes as they are, and publishes
no flush at the sequence of the current manifest and no delta over a full
manifest. -/
def Meets (state : SharedState backend) : SharedCommand → Prop
  | .write request => ∀ write, state.store.batch arith request = .ok write →
      Faithful arith config write
  | .publishFlush client => ∀ prepared, state.flights client = some (.built prepared) →
      ∀ manifest, (readManifest.run state.disk).2 = .ok (some manifest) →
        manifest.sequence ≤ prepared.sequence →
        manifest.sequence ≠ prepared.sequence ∧
          (prepared.compact = false → manifest.segments.length ≤ maxIndexSegments)
  | _ => True

def MeetsAll (state : SharedState backend) : List SharedCommand → Prop
  | [] => True
  | command :: rest =>
    state.Meets arith config command ∧ (state.step arith config process command).MeetsAll rest

theorem MeetsAll.append {arith : FloatArithmetic} {config : CollectionConfig} {process : Nat}
    {state : SharedState backend} {first second : List SharedCommand}
    (before : state.MeetsAll arith config process first)
    (after : (state.run arith config process first).MeetsAll arith config process second) :
    state.MeetsAll arith config process (first ++ second) := by
  induction first generalizing state with
  | nil => exact after
  | cons command rest ih =>
    exact ⟨before.1, ih before.2 after⟩

theorem meets_of_missing {arith : FloatArithmetic} {config : CollectionConfig}
    {state : SharedState backend} (missing : state.disk manifestName = none) (client : Nat) :
    state.Meets arith config (.publishFlush client) := by
  intro prepared _ manifest reads
  rw [run_readManifest_missing missing] at reads
  cases reads

end SharedState

section Invariant

variable {arith : FloatArithmetic} {backend : IndexBackend} {config : CollectionConfig}
  {process : Nat} {state : SharedState backend}

/-! ## The names of temporary segments -/

theorem temporarySegmentName_ne {sequence other : UInt64} {timestamp later nonce next : Nat}
    (differ : nonce ≠ next) :
    temporarySegmentName sequence ⟨process, timestamp, nonce⟩ ≠
      temporarySegmentName other ⟨process, later, next⟩ :=
  fun same => differ (nonce_of_temporarySegmentName same)

theorem flights_of_set {client other : Nat} {set : Option (Flight backend)} {flight : Flight backend}
    (found : (state.setFlight client set).flights other = some flight) :
    other = client ∧ set = some flight ∨ other ≠ client ∧ state.flights other = some flight := by
  simp only [SharedState.setFlight] at found
  split at found
  next same => exact .inl ⟨same, found⟩
  next differs => exact .inr ⟨differs, found⟩

theorem flights_of_landed {client other : Nat} {flight : Flight backend}
    (found : (state.setFlight client none).flights other = some flight) :
    other ≠ client ∧ state.flights other = some flight := by
  rcases flights_of_set found with ⟨-, isNone⟩ | elsewhere
  · cases isNone
  · exact elsewhere

/-- The temporary segments of flushes have names of their own, and the names of
later ones are free. -/
structure NamesApart (process : Nat) (state : SharedState backend) : Prop where
  named : ∀ client prepared, state.flights client = some (.built prepared) →
    ∃ sequence timestamp nonce, prepared.temporarySegment =
      temporarySegmentName sequence ⟨process, timestamp, nonce⟩ ∧ nonce < state.nonce
  apart : ∀ left right first second, state.flights left = some (.built first) →
    state.flights right = some (.built second) →
    first.temporarySegment = second.temporarySegment → left = right
  free : ∀ sequence timestamp nonce, state.nonce ≤ nonce →
    state.disk (temporarySegmentName sequence ⟨process, timestamp, nonce⟩) = none

namespace NamesApart

variable {client : Nat} {prepared : PreparedFlush backend}

section

variable (names : NamesApart process state)

include names

theorem leading_temporary (found : state.flights client = some (.built prepared)) :
    leading prepared.temporarySegment = ['.', 's'] := by
  obtain ⟨sequence, timestamp, nonce, named, -⟩ := names.named client prepared found
  rw [named]
  exact leading_temporarySegmentName _ _

/-- No flush has one of the names to come. -/
theorem ne_later {nonce : Nat} (found : state.flights client = some (.built prepared))
    (later : state.nonce ≤ nonce) (sequence : UInt64) (timestamp : Nat) :
    temporarySegmentName sequence ⟨process, timestamp, nonce⟩ ≠ prepared.temporarySegment := by
  obtain ⟨own, clock, count, named, counted⟩ := names.named client prepared found
  rw [named]
  exact temporarySegmentName_ne (lt_of_lt_of_le counted later).ne'

theorem takeOff (client : Nat) {timestamp : Nat}
    {snapshot : FlushSnapshot} {name : String}
    (isName : name = temporarySegmentName snapshot.sequence ⟨process, timestamp, state.nonce⟩)
    (bytes : Bytes) :
    NamesApart process
      ({ state with disk := state.disk.write name bytes, nonce := state.nonce + 1 }.setFlight client
        (some (.built (preparedOf backend snapshot ⟨process, timestamp, state.nonce⟩)))) where
  named := by
    intro other prepared found
    rcases flights_of_set found with ⟨-, isNew⟩ | ⟨-, before⟩
    · cases isNew
      exact ⟨_, _, _, rfl, Nat.lt_succ_self _⟩
    · obtain ⟨sequence, clock, nonce, named, counted⟩ := names.named other prepared before
      exact ⟨sequence, clock, nonce, named, Nat.lt_succ_of_lt counted⟩
  apart := by
    intro left right first second foundLeft foundRight same
    rcases flights_of_set foundLeft with ⟨isLeft, newLeft⟩ | ⟨-, beforeLeft⟩ <;>
      rcases flights_of_set foundRight with ⟨isRight, newRight⟩ | ⟨-, beforeRight⟩
    · exact isLeft.trans isRight.symm
    · cases newLeft
      exact absurd same (names.ne_later beforeRight le_rfl _ _)
    · cases newRight
      exact absurd same.symm (names.ne_later beforeLeft le_rfl _ _)
    · exact names.apart left right first second beforeLeft beforeRight same
  free := by
    intro sequence clock nonce beyond
    have later : state.nonce < nonce := beyond
    have differs : temporarySegmentName sequence ⟨process, clock, nonce⟩ ≠ name := by
      rw [isName]
      exact temporarySegmentName_ne later.ne'
    exact (Disk.write_other _ _ differs).trans (names.free sequence clock nonce later.le)

/-- A flush that ended leaves the names of the others. -/
theorem land (client : Nat) {next : SharedState backend}
    (flights : next.flights = (state.setFlight client none).flights)
    (counting : state.nonce ≤ next.nonce)
    (free : ∀ sequence timestamp nonce, next.nonce ≤ nonce →
      next.disk (temporarySegmentName sequence ⟨process, timestamp, nonce⟩) = none) :
    NamesApart process next where
  named := by
    intro other prepared found
    rw [flights] at found
    obtain ⟨sequence, timestamp, nonce, named, counted⟩ :=
      names.named other prepared (flights_of_landed found).2
    exact ⟨sequence, timestamp, nonce, named, lt_of_lt_of_le counted counting⟩
  apart := by
    intro left right first second foundLeft foundRight
    rw [flights] at foundLeft foundRight
    exact names.apart left right first second (flights_of_landed foundLeft).2
      (flights_of_landed foundRight).2
  free := free

theorem free_of_kept (flying : state.flights client = some (.built prepared))
    {next : Directory}
    (kept : ∀ file, leading file = ['.', 's'] → file ≠ prepared.temporarySegment →
      next file = state.disk file) :
    ∀ sequence timestamp nonce, state.nonce ≤ nonce →
      next (temporarySegmentName sequence ⟨process, timestamp, nonce⟩) = none := by
  intro sequence timestamp nonce later
  refine (kept _ (by simp) ?_).trans (names.free sequence timestamp nonce later)
  exact names.ne_later flying later sequence timestamp

end

end NamesApart

/-! ## The invariant -/

/-- A flush on its way over a live collection. -/
inductive Underway (backend : IndexBackend) (config : CollectionConfig) (process : Nat)
    (state : SharedState backend) (log : List Write) (chain : List (DecodedSegment backend))
    (count : Nat) : Flight backend → Prop where
  | taken {snapshot : FlushSnapshot} {position : Nat}
      (pending : Taken config log chain count position snapshot) :
      Underway backend config process state log chain count (.taken snapshot)
  | built {prepared : PreparedFlush backend} {position : Nat} {items : SegmentItems}
      {bytes : Bytes} {sequence : UInt64} {timestamp nonce : Nat}
      (ready : Ready backend config state.disk log chain count position prepared items bytes)
      (named : prepared.temporarySegment =
        temporarySegmentName sequence ⟨process, timestamp, nonce⟩)
      (counted : nonce < state.nonce) :
      Underway backend config process state log chain count (.built prepared)

/-- The shared collection is live, its flushes are underway with temporary
segments of their own, and the names of later ones are free. -/
structure Shared (arith : FloatArithmetic) (config : CollectionConfig) (process : Nat)
    (state : SharedState backend) (log : List Write) (chain : List (DecodedSegment backend))
    (count start : Nat) : Prop where
  live : Live arith backend config process state.disk state.store log chain count start
  recoverable : ∀ write ∈ log, Recoverable write
  underway : ∀ client flight, state.flights client = some flight →
    Underway backend config process state log chain count flight
  apart : ∀ left right first second, state.flights left = some (.built first) →
    state.flights right = some (.built second) →
    first.temporarySegment = second.temporarySegment → left = right
  free : ∀ sequence timestamp nonce, state.nonce ≤ nonce →
    state.disk (temporarySegmentName sequence ⟨process, timestamp, nonce⟩) = none

variable {log : List Write} {chain : List (DecodedSegment backend)} {count start : Nat}

namespace Underway

variable {flight : Flight backend}

section

variable (underway : Underway backend config process state log chain count flight)

include underway

theorem append (later : List Write) :
    Underway backend config process state (log ++ later) chain count flight := by
  cases underway with
  | taken pending => exact .taken (pending.append later)
  | built ready named counted => exact .built (ready.append later) named counted

theorem advance {segments : List (DecodedSegment backend)} {next : Nat} (further : count ≤ next)
    (nonempty : segments ≠ []) :
    Underway backend config process state log segments next flight := by
  cases underway with
  | taken pending => exact .taken (pending.advance further nonempty)
  | built ready named counted => exact .built (ready.advance further nonempty) named counted

theorem move {next : SharedState backend}
    (counting : state.nonce ≤ next.nonce)
    (kept : ∀ prepared sequence timestamp nonce, flight = .built prepared →
      prepared.temporarySegment = temporarySegmentName sequence ⟨process, timestamp, nonce⟩ →
      nonce < state.nonce →
      next.disk prepared.temporarySegment = state.disk prepared.temporarySegment) :
    Underway backend config process next log chain count flight := by
  cases underway with
  | taken pending => exact .taken pending
  | built ready named counted =>
    exact .built (ready.frame (kept _ _ _ _ rfl named counted)) named
      (lt_of_lt_of_le counted counting)

end

end Underway

namespace Shared

section

variable (shared : Shared arith config process state log chain count start)

include shared

theorem names : NamesApart process state where
  named := by
    intro client prepared found
    cases shared.underway client _ found with
    | built _ named counted => exact ⟨_, _, _, named, counted⟩
  apart := shared.apart
  free := shared.free

theorem faithful : ∀ write ∈ log, Faithful arith config write :=
  fun write member => ⟨shared.recoverable write member, shared.live.replays write member⟩

theorem readable : Readable arith config count (1 + start) (log.drop start) :=
  readable_of_faithful _ _ fun write member =>
    shared.faithful write (List.mem_of_mem_drop member)

end

theorem opened (arith : FloatArithmetic) (backend : IndexBackend) (config : CollectionConfig)
    (process : Nat) (durability : Durability) :
    Shared arith config process (SharedState.opened backend config durability) [] [] 0 0 where
  live := .opened arith backend config process durability
  recoverable := by simp
  underway := fun client flight found => by cases found
  apart := fun left right first second found => by cases found
  free := by
    intro sequence timestamp nonce _
    show newDirectory config (temporarySegmentName sequence ⟨process, timestamp, nonce⟩) = none
    exact newDirectory_hidden (by simp)

theorem step_write (shared : Shared arith config process state log chain count start)
    {request : Request} (meets : state.Meets arith config (.write request)) :
    ∃ log chain count start,
      Shared arith config process (state.step arith config process (.write request))
        log chain count start := by
  rcases shared.live.write fun write isBatch => (meets write isBatch).2 with
    ⟨error, refused⟩ | ⟨write, sequence, wal, isBatch, runs, live⟩
  · refine ⟨log, chain, count, start, ?_⟩
    simp only [SharedState.step, refused]
    exact shared
  · refine ⟨log ++ [write], chain, count, start, ?_⟩
    simp only [SharedState.step, runs]
    exact {
      live := live
      recoverable := by
        intro found member
        rcases List.mem_append.mp member with earlier | last
        · exact shared.recoverable found earlier
        · rw [List.mem_singleton.mp last]
          exact (meets write isBatch).1
      underway := fun client flight found =>
        ((shared.underway client flight found).append [write]).move le_rfl
          fun prepared _ _ _ _ named _ => write_apart _ _ (by simp [named])
      apart := shared.apart
      free := by
        intro sequence timestamp nonce later
        show state.disk.write walName wal
          (temporarySegmentName sequence ⟨process, timestamp, nonce⟩) = none
        rw [write_apart _ _ (by simp)]
        exact shared.free sequence timestamp nonce later }

theorem step_flushSnapshot (shared : Shared arith config process state log chain count start)
    (client : Nat) (order : IterationOrder) :
    Shared arith config process
      (state.step arith config process (.flushSnapshot client order)) log chain count start := by
  cases idle : state.flights client with
  | some flight =>
    simp only [SharedState.step, idle]
    exact shared
  | none =>
    simp only [SharedState.step, idle]
    refine { shared with underway := fun other flight found => ?_, apart := ?_ }
    · simp only [SharedState.setFlight] at found
      split at found
      · rw [← Option.some.inj found]
        exact .taken (shared.live.snapshot order)
      · exact (shared.underway other flight found).move le_rfl fun _ _ _ _ _ _ _ => rfl
    · intro left right first second foundLeft foundRight same
      simp only [SharedState.setFlight] at foundLeft foundRight
      split at foundLeft
      · cases foundLeft
      · split at foundRight
        · cases foundRight
        · exact shared.apart left right first second foundLeft foundRight same

variable {client position : Nat} {bytes : Bytes}

theorem takeOff (shared : Shared arith config process state log chain count start)
    {timestamp : Nat} {snapshot : FlushSnapshot} {name : String}
    (named : name = temporarySegmentName snapshot.sequence ⟨process, timestamp, state.nonce⟩)
    (ready : Ready backend config (state.disk.write name bytes) log chain count position
      (preparedOf backend snapshot ⟨process, timestamp, state.nonce⟩) snapshot.items bytes) :
    Shared arith config process
      ({ state with disk := state.disk.write name bytes, nonce := state.nonce + 1 }.setFlight client
        (some (.built (preparedOf backend snapshot ⟨process, timestamp, state.nonce⟩))))
      log chain count start := by
  have names := shared.names.takeOff client named bytes
  exact {
    live := shared.live.write_temporary (by simp [named]) bytes
    recoverable := shared.recoverable
    underway := by
      intro other flight found
      rcases flights_of_set found with ⟨-, isNew⟩ | ⟨-, before⟩
      · rw [← Option.some.inj isNew]
        exact .built ready rfl (Nat.lt_succ_self _)
      · refine (shared.underway other flight before).move (Nat.le_succ _) ?_
        intro prepared _ _ _ isBuilt _ _
        rw [isBuilt] at before
        have differs := shared.names.ne_later before le_rfl snapshot.sequence timestamp
        rw [← named] at differs
        exact Disk.write_other _ _ differs.symm
    apart := names.apart
    free := names.free }

theorem step_buildFlush (shared : Shared arith config process state log chain count start)
    (client timestamp : Nat) :
    Shared arith config process
      (state.step arith config process (.buildFlush client timestamp)) log chain count start := by
  cases flying : state.flights client with
  | none =>
    simp only [SharedState.step, flying]
    exact shared
  | some flight =>
    cases flight with
    | built prepared =>
      simp only [SharedState.step, flying]
      exact shared
    | taken snapshot =>
      simp only [SharedState.step, flying]
      cases shared.underway client _ flying with
      | @taken _ position pending =>
        have unused := shared.free snapshot.sequence timestamp state.nonce le_rfl
        rcases Live.build pending unused with ⟨bytes, runs, ready⟩ | ⟨-, error, refused⟩
        · simp only [SharedState.build, runs]
          exact shared.takeOff rfl ready
        · simp only [SharedState.build, refused]
          exact {
            live := shared.live
            recoverable := shared.recoverable
            underway := fun other flight found =>
              (shared.underway other flight (flights_of_landed found).2).move
                (Nat.le_succ _) fun _ _ _ _ _ _ _ => rfl
            apart := fun left right first second foundLeft foundRight =>
              shared.apart left right first second (flights_of_landed foundLeft).2
                (flights_of_landed foundRight).2
            free := fun sequence timestamp nonce later =>
              shared.free sequence timestamp nonce (Nat.le_of_succ_le later) }

variable {prepared : PreparedFlush backend}

section

variable (shared : Shared arith config process state log chain count start)
  (meets : state.Meets arith config (.publishFlush client))
  (flying : state.flights client = some (.built prepared))

include shared meets flying

/-- A flush that meets the condition and is not stale was taken behind the end of
the manifest's segments. -/
theorem beyond_manifest {items : SegmentItems}
    (ready : Ready backend config state.disk log chain count position prepared items bytes)
    (nonempty : chain ≠ []) (older : UInt64.ofNat count ≤ prepared.sequence) :
    count < position ∧ (prepared.compact = false → chain.length ≤ maxIndexSegments) := by
  have bounded := shared.live.bounded
  have within := ready.snapped.within
  have reach := shared.live.onDisk.base.within
  have sequenced : prepared.sequence = UInt64.ofNat position :=
    ready.sameSequence.trans ready.snapped.sequenced
  have reads : (readManifest.run state.disk).2 = .ok (some (chainManifest chain count)) := by
    rw [shared.live.readManifest_eq, baseManifest, if_neg (by simpa using nonempty)]
  obtain ⟨differs, small⟩ := meets prepared flying _ reads older
  constructor
  · rw [sequenced, UInt64.le_iff_toNat_le, toNat_ofNat_of_lt (by omega),
      toNat_ofNat_of_lt (by omega)] at older
    refine lt_of_le_of_ne older fun same => differs ?_
    rw [sequenced, ← same]
    rfl
  · intro kind
    simpa [chainManifest, manifestOf] using small kind

theorem publishable {items : SegmentItems}
    (ready : Ready backend config state.disk log chain count position prepared items bytes)
    (fresh : ¬ Stale prepared (baseManifest chain count)) :
    Publishable state.disk chain count position prepared bytes := by
  have bounded := shared.live.bounded
  have within := ready.snapped.within
  have reach := shared.live.onDisk.base.within
  have sequenced : prepared.sequence = UInt64.ofNat position :=
    ready.sameSequence.trans ready.snapped.sequenced
  cases shared.live.onDisk.base with
  | empty missing =>
    have isFull : prepared.compact ≠ false := fun kind =>
      ready.based (ready.sameKind.symm.trans kind) rfl
    exact ⟨by simp, fun kind => absurd kind isFull, fun kind => absurd kind isFull⟩
  | chain chained few manifest =>
    have older : UInt64.ofNat count ≤ prepared.sequence := by
      rw [shared.live.stale_iff sequenced within] at fresh
      rw [sequenced, UInt64.le_iff_toNat_le, toNat_ofNat_of_lt (by omega),
        toNat_ofNat_of_lt (by omega)]
      exact not_lt.mp fresh
    obtain ⟨earlier, small⟩ := shared.beyond_manifest meets flying ready chained.ne_nil older
    refine ⟨fun decoded member same => ?_, fun _ => earlier, small⟩
    have bound := chained.sequence_le bounded decoded member
    rw [same, sequenced, toNat_ofNat_of_lt (by omega)] at bound
    omega

end

/-- A flush that was published or given up leaves the others underway. -/
theorem land (shared : Shared arith config process state log chain count start)
    (flying : state.flights client = some (.built prepared)) {next : Directory}
    {after : PersistentCollection backend} {segments : List (DecodedSegment backend)}
    {reached cut : Nat}
    (live : Live arith backend config process next after log segments reached cut)
    (further : ∀ flight, Underway backend config process state log chain count flight →
      Underway backend config process state log segments reached flight)
    (kept : ∀ file, leading file = ['.', 's'] → file ≠ prepared.temporarySegment →
      next file = state.disk file) :
    Shared arith config process { state.setFlight client none with disk := next, store := after }
      log segments reached cut where
  live := live
  recoverable := shared.recoverable
  underway := by
    intro other flight found
    obtain ⟨isOther, foundBefore⟩ := flights_of_landed found
    refine (further flight (shared.underway other flight foundBefore)).move le_rfl ?_
    intro otherPrepared sequence timestamp nonce isBuilt named _
    apply kept _ (by simp [named])
    intro same
    rw [isBuilt] at foundBefore
    exact isOther (shared.apart other client _ _ foundBefore flying same)
  apart := fun left right first second foundLeft foundRight =>
    shared.apart left right first second (flights_of_landed foundLeft).2
      (flights_of_landed foundRight).2
  free := shared.names.free_of_kept flying kept

theorem nextChain_ne_nil (prepared : PreparedFlush backend) (chain : List (DecodedSegment backend))
    (decoded : DecodedSegment backend) : nextChain prepared chain decoded ≠ [] := by
  unfold nextChain
  split <;> simp

section

variable (shared : Shared arith config process state log chain count start)

include shared

theorem step_publishFlush (meets : state.Meets arith config (.publishFlush client)) :
    ∃ chain count start,
      Shared arith config process (state.step arith config process (.publishFlush client))
        log chain count start := by
  cases flying : state.flights client with
  | none =>
    simp only [SharedState.step, flying]
    exact ⟨chain, count, start, shared⟩
  | some flight =>
    cases flight with
    | taken snapshot =>
      simp only [SharedState.step, flying]
      exact ⟨chain, count, start, shared⟩
    | built prepared =>
      simp only [SharedState.step, flying]
      cases shared.underway client _ flying with
      | @built _ position items bytes _ _ _ ready _ _ =>
        have kept : ∀ {next : Directory} {result : Result (PersistentCollection backend × UInt64)},
            (state.store.publishFlush process prepared).run state.disk = (next, result) →
            ∀ file, leading file = ['.', 's'] → file ≠ prepared.temporarySegment →
              next file = state.disk file := by
          intro next result runs file isTemporary differs
          have same := shared.live.publish_keeps isTemporary differs
          rwa [runs] at same
        by_cases stale : Stale prepared (baseManifest chain count)
        · obtain ⟨sequence, runs, live⟩ := shared.live.publish_stale ready.temporary stale
          refine ⟨chain, count, start, ?_⟩
          simp only [SharedState.publish, runs]
          exact shared.land flying live (fun _ underway => underway) (kept runs)
        · have allowed := shared.publishable meets flying ready stale
          by_cases claimed : ∃ decoded, Claims state.store prepared bytes decoded
          · obtain ⟨decoded, claims⟩ := claimed
            obtain ⟨next, cut, runs, live, -⟩ :=
              shared.live.publish_ok ready allowed stale claims
            refine ⟨nextChain prepared chain decoded, position, cut, ?_⟩
            simp only [SharedState.publish, runs]
            refine shared.land flying live (fun _ underway => underway.advance ?_
              (nextChain_ne_nil _ _ _)) (kept runs)
            rw [shared.live.stale_iff (ready.sameSequence.trans ready.snapped.sequenced)
              ready.snapped.within] at stale
            exact not_lt.mp stale
          · obtain ⟨error, next, runs, live⟩ :=
              shared.live.publish_refused ready allowed.safe stale (not_exists.mp claimed)
            refine ⟨chain, count, start, ?_⟩
            simp only [SharedState.publish, runs]
            exact shared.land flying live (fun _ underway => underway) (kept runs)

theorem step_reopen (positive : config.dimension ≠ 0) (durability : Durability) :
    Shared arith config process (state.step arith config process (.reopen durability))
      log chain count start := by
  obtain ⟨reopened, runs, -, -, live⟩ := shared.live.opens durability positive shared.readable
  simp only [SharedState.step, runs]
  exact {
    live := live
    recoverable := shared.recoverable
    underway := fun client flight found => by cases found
    apart := fun left right first second found => by cases found
    free := shared.free }

theorem step (positive : config.dimension ≠ 0) {command : SharedCommand}
    (meets : state.Meets arith config command) :
    ∃ log chain count start,
      Shared arith config process (state.step arith config process command)
        log chain count start := by
  cases command with
  | write request => exact shared.step_write meets
  | flushSnapshot client order => exact ⟨log, chain, count, start, shared.step_flushSnapshot client order⟩
  | buildFlush client timestamp =>
    exact ⟨log, chain, count, start, shared.step_buildFlush client timestamp⟩
  | publishFlush client => exact ⟨log, shared.step_publishFlush meets⟩
  | reopen durability => exact ⟨log, chain, count, start, shared.step_reopen positive durability⟩

/-- A run whose steps meet the condition keeps the invariant. -/
theorem run (positive : config.dimension ≠ 0) {commands : List SharedCommand}
    (meets : state.MeetsAll arith config process commands) :
    ∃ log chain count start,
      Shared arith config process (state.run arith config process commands)
        log chain count start := by
  induction commands generalizing state log chain count start with
  | nil => exact ⟨log, chain, count, start, shared⟩
  | cons command rest ih =>
    obtain ⟨nextLog, nextChain, nextCount, nextStart, next⟩ := shared.step positive meets.1
    exact ih next meets.2

end

end Shared

end Invariant

/-! ## Reopening -/

section Reopening

variable {arith : FloatArithmetic} {backend : IndexBackend} {config : CollectionConfig}
  {process : Nat}

/-- In every state that a run reaches whose steps meet the condition, opening
the directory gives exactly the live collection. Its manifest can be read and
names no segment twice, and no flush that may be published now has the name of
one of its segments. -/
theorem shared_run_reopens {durability : Durability} {commands : List SharedCommand}
    (positive : config.dimension ≠ 0)
    (meets : (SharedState.opened backend config durability).MeetsAll arith config process commands)
    (reopening : Durability) :
    let state := (SharedState.opened backend config durability).run arith config process commands
    (∃ reopened, (openCollection arith backend config reopening).run state.disk =
        (state.disk, .ok reopened) ∧ reopened.inner = state.store.inner) ∧
      ∃ previous, readManifest.run state.disk = (state.disk, .ok previous) ∧
        ∀ manifest, previous = some manifest → manifest.segments.Nodup ∧
          ∀ client prepared, state.flights client = some (.built prepared) →
            state.Meets arith config (.publishFlush client) →
            manifest.sequence ≤ prepared.sequence →
            segmentName prepared.sequence ∉ manifest.segments := by
  intro state
  obtain ⟨log, chain, count, start, shared⟩ :=
    (Shared.opened arith backend config process durability).run positive meets
  obtain ⟨reopened, opens, same, -⟩ := shared.live.opens reopening positive shared.readable
  refine ⟨⟨reopened, opens, same⟩, _, shared.live.readManifest_eq, ?_⟩
  cases shared.live.onDisk.base with
  | empty missing =>
    intro manifest found
    cases found
  | chain chained few manifest =>
    rw [baseManifest, if_neg (by simpa using chained.ne_nil)]
    intro manifest found
    rw [← Option.some.inj found]
    have distinct := chained.sequences_nodup shared.live.bounded
    refine ⟨distinct.map segmentName_injective, ?_⟩
    intro client prepared flying allowed older named
    cases shared.underway client _ flying with
    | @built _ position items bytes _ _ _ ready _ _ =>
      have earlier := (shared.beyond_manifest allowed flying ready chained.ne_nil older).1
      obtain ⟨sequence, member, same⟩ := List.mem_map.mp named
      obtain ⟨decoded, inChain, rfl⟩ := List.mem_map.mp member
      have bound := chained.sequence_le shared.live.bounded decoded inChain
      have within := ready.snapped.within
      have bounded := shared.live.bounded
      rw [segmentName_injective same, ready.sameSequence, ready.snapped.sequenced,
        toNat_ofNat_of_lt (by omega)] at bound
      omega

/-- A write that arrives while a flush is built is there after a reopening. -/
theorem overlapped_flush_reopens :
    let config : CollectionConfig := ⟨1, .euclidean, by decide⟩
    let state := (SharedState.opened .flat config .sync).run .normalised config 7
      [.flushSnapshot 0 .sorted, .buildFlush 0 0, .write (.delete ["b"]), .publishFlush 0]
    ∃ reopened, (openCollection .normalised .flat config .sync).run state.disk =
      (state.disk, .ok reopened) ∧ reopened.inner = state.store.inner := by
  intro config
  have before : (SharedState.opened .flat config .sync).MeetsAll .normalised config 7
      [.flushSnapshot 0 .sorted, .buildFlush 0 0, .write (.delete ["b"])] := by
    refine ⟨trivial, trivial, fun write isBatch => ?_, trivial⟩
    rw [PersistentCollection.batch_delete, Except.ok.injEq] at isBatch
    rw [← isBatch]
    exact ⟨by decide, rfl⟩
  have missing : ((SharedState.opened .flat config .sync).run .normalised config 7
      [.flushSnapshot 0 .sorted, .buildFlush 0 0, .write (.delete ["b"])]).disk manifestName =
      none := by
    decide +kernel
  have meets : (SharedState.opened .flat config .sync).MeetsAll .normalised config 7
      [.flushSnapshot 0 .sorted, .buildFlush 0 0, .write (.delete ["b"]), .publishFlush 0] :=
    before.append ⟨SharedState.meets_of_missing missing 0, trivial⟩
  exact (shared_run_reopens (by decide) meets .sync).1

end Reopening

/-! ## A flush without changes -/

/-- Flushing twice without a write in between names one segment twice, and the
directory does not open any more. -/
theorem repeated_flush_loses_collection :
    let config : CollectionConfig := ⟨1, .euclidean, by decide⟩
    let flush : Nat → List SharedCommand := fun timestamp =>
      [.flushSnapshot 0 .sorted, .buildFlush 0 timestamp, .publishFlush 0]
    let state := (SharedState.opened .flat config .sync).run .normalised config 7
      (.write (.upsert [⟨"a", [⟨0x3f800000⟩], ∅⟩]) :: flush 0 ++ flush 1)
    state.disk manifestName = some (manifestBytes ⟨1, [segmentName 1, segmentName 1]⟩) ∧
      ∃ error, ((openCollection .normalised .flat config .sync).run state.disk).2 =
        .error error := by
  intro config flush state
  refine ⟨by decide +kernel, ?_⟩
  have refused : ((openCollection .normalised .flat config .sync).run state.disk).2.isOk = false := by
    decide +kernel
  cases opens : ((openCollection .normalised .flat config .sync).run state.disk).2 with
  | error error => exact ⟨error, rfl⟩
  | ok reopened =>
    rw [opens] at refused
    cases refused

end FocalVector.Persistence
