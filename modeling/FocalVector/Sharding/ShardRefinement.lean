import FocalVector.Sharding.ShardedCollection

/-!
Contract: sharding refines one collection.

The shards number their batches on their own, so a point carries another sequence than
in an unsharded collection; its vector and its metadata are the same. What is stored
under an id is decided by the batches of its shard, and these name the id as often, and
in the same order, as the requests do.

Owns: contents without sequences, what a request leaves in each shard, and the
refinement of any sequence of requests that all succeed.

Does not own: requests that fail on the way.
-/

namespace FocalVector.Sharding

open FocalVector.Foundation FocalVector.Engine FocalVector.Persistence

/-! ## What a request leaves under an id -/

/-- The part of a point that does not depend on the shard. -/
abbrev Content := List F32 × Metadata

def content (point : StoredPoint) : Content := (point.vector, point.metadata)

def storedContent (arith : FloatArithmetic) (config : CollectionConfig) (point : UpsertPoint) :
    Option Content :=
  (config.metric.prepare arith point.vector).toOption.map fun vector => (vector, point.metadata)

def contentAfter (arith : FloatArithmetic) (config : CollectionConfig) (id : String)
    (before : Option Content) : Request → Option Content
  | .upsert points => points.foldl (fun current point =>
    if point.id = id then storedContent arith config point else current) before
  | .delete ids => if id ∈ ids then none else before

section Contents

variable {arith : FloatArithmetic} {config : CollectionConfig}

theorem content_insertAll {points : PointMap} {batch : List UpsertPoint} {sequence : UInt64}
    {prepared : List StoredPoint}
    (prepares : batch.mapM (Collection.preparePoint arith config sequence) = .ok prepared)
    (id : String) :
    ((points.insertAll prepared).get id).map content =
      contentAfter arith config id ((points.get id).map content) (.upsert batch) := by
  have all := Checked.of_mapM prepares
  clear prepares
  induction all generalizing points with
  | nil => rfl
  | @cons point stored _ _ first _ ih =>
    have fields := Collection.preparePoint_eq_ok first
    have step : ((points.insert stored).get id).map content =
        if point.id = id then storedContent arith config point
        else (points.get id).map content := by
      rw [PointMap.get_insert, fields.sameId]
      split
      · simp [storedContent, content, fields.prepared, fields.sameMetadata, Except.toOption]
      · rfl
    have whole := @ih (points.insert stored)
    rw [step] at whole
    exact whole

theorem content_removeAll (points : PointMap) (ids : List String) (id : String) :
    ((points.removeAll ids).get id).map content =
      contentAfter arith config id ((points.get id).map content) (.delete ids) := by
  rw [PointMap.get_removeAll, contentAfter]
  split <;> rfl

end Contents

/-! ## The part of a request that a shard gets -/

def requestIds : Request → List String
  | .upsert points => points.map UpsertPoint.id
  | .delete ids => ids

def restrict (count number : Nat) : Request → Request
  | .upsert points => .upsert (points.filter fun point => shardIndex point.id count = number)
  | .delete ids => .delete (ids.filter fun id => shardIndex id count = number)

/-- The request names an id of the shard. -/
def touches (count number : Nat) (request : Request) : Bool :=
  (requestIds request).any fun id => shardIndex id count = number

section Restriction

variable {arith : FloatArithmetic} {config : CollectionConfig} {count number : Nat}

/-- A shard's batch decides what is under the ids of the shard, and nothing else. -/
theorem contentAfter_restrict (id : String) (before : Option Content) (request : Request) :
    contentAfter arith config id before (restrict count number request) =
      if shardIndex id count = number then contentAfter arith config id before request
      else before := by
  cases request with
  | upsert points =>
    simp only [restrict, contentAfter, List.foldl_filter, decide_eq_true_eq]
    split
    next here =>
      congr 1
      funext current point
      by_cases same : point.id = id
      · rw [if_pos (same ▸ here)]
      · rw [if_neg same, ite_self]
    next elsewhere =>
      have skips : (fun (current : Option Content) (point : UpsertPoint) =>
          if shardIndex point.id count = number then
            if point.id = id then storedContent arith config point else current
          else current) = fun current _ => current := by
        funext current point
        by_cases same : point.id = id
        · rw [if_neg (same ▸ elsewhere)]
        · rw [if_neg same, ite_self]
      rw [skips, List.foldl_fixed]
  | delete ids =>
    simp only [restrict, contentAfter, List.mem_filter, decide_eq_true_eq]
    by_cases here : shardIndex id count = number <;> simp [here]

end Restriction

/-! ## One request -/

section Steps

variable {arith : FloatArithmetic} {backend : IndexBackend} {config : CollectionConfig}
  {request : Request}

theorem Shard.perform_eq_ok {shard next : Shard backend config} {sequence : UInt64}
    (performs : shard.perform arith request = (next, .ok sequence)) :
    (∀ id, (next.get id).map content =
      contentAfter arith config id ((shard.get id).map content) request) ∧
    next.latestSequence.toNat = shard.latestSequence.toNat + 1 := by
  unfold Shard.perform at performs
  split at performs
  next disk store sequence runs =>
    cases performs
    obtain ⟨write, isBatch, appended, rfl⟩ := Persistence.perform_eq_ok runs
    refine ⟨fun id => ?_, commit_sequence shard.store.inner write appended.bounded⟩
    cases request with
    | upsert points =>
      obtain ⟨sequence, -, isBatch⟩ := Result.of_bind_ok isBatch
      obtain ⟨prepared, prepares, returns⟩ := Result.of_bind_ok isBatch
      cases returns
      unfold Collection.prepareUpsert at prepares
      split at prepares
      · cases prepares
      · rw [shard.sameConfig] at prepares
        exact content_insertAll prepares id
    | delete ids =>
      cases isBatch
      exact content_removeAll _ ids id
  next => cases performs

theorem commitBatches_eq_ok {α : Type} {toRequest : List α → Request} {number index : Nat}
    {shards after : List (Shard backend config)} {batches : List (List α)} {batch : List α}
    {commits : List ShardCommit} {shard next : Shard backend config}
    (succeeds : commitBatches arith toRequest number shards batches = (after, .ok commits))
    (isShard : shards[index]? = some shard) (isBatch : batches[index]? = some batch)
    (isNext : after[index]? = some next) :
    (batch = [] ∧ next = shard) ∨
      (batch ≠ [] ∧ ∃ sequence, shard.perform arith (toRequest batch) = (next, .ok sequence)) := by
  induction shards generalizing number index batches after commits with
  | nil => cases isShard
  | cons first shards ih =>
    cases batches with
    | nil => cases isBatch
    | cons head batches =>
      unfold commitBatches at succeeds
      obtain ⟨⟨others, outcome⟩, committed⟩ : ∃ rest,
        commitBatches arith toRequest (number + 1) shards batches = rest := ⟨_, rfl⟩
      rw [committed] at succeeds
      split at succeeds
      next isEmpty =>
        cases succeeds
        cases index with
        | zero =>
          cases isShard
          cases isBatch
          cases isNext
          exact .inl ⟨List.isEmpty_iff.mp isEmpty, rfl⟩
        | succ index => exact ih committed isShard isBatch isNext
      next nonempty =>
        split at succeeds
        · cases succeeds
        next performed sequence performs =>
          cases outcome with
          | error error => cases succeeds
          | ok later =>
            cases succeeds
            cases index with
            | zero =>
              cases isShard
              cases isBatch
              cases isNext
              exact .inr ⟨fun isNil => nonempty (List.isEmpty_iff.mpr isNil), sequence,
                performs⟩
            | succ index => exact ih committed isShard isBatch isNext

namespace ShardedCollection

variable {sharded after : ShardedCollection backend config} {commits : List ShardCommit}

theorem commit_eq_ok {α : Type} {toRequest : List α → Request} {key : α → String} {items : List α}
    (restricts : ∀ number, restrict sharded.shardCount number (toRequest items) =
      toRequest (items.filter fun item => shardIndex (key item) sharded.shardCount = number))
    (named : requestIds (toRequest items) = items.map key)
    (empty : ∀ id before, contentAfter arith config id before (toRequest []) = before)
    (succeeds : sharded.commit arith toRequest
      (shardBatches key sharded.shardCount items) = (after, .ok commits)) :
    after.shardCount = sharded.shardCount ∧
    ∀ number shard next, sharded.shards[number]? = some shard →
      after.shards[number]? = some next →
      (∀ id, (next.get id).map content = contentAfter arith config id ((shard.get id).map content)
        (restrict sharded.shardCount number (toRequest items))) ∧
      next.latestSequence.toNat = shard.latestSequence.toNat +
        if touches sharded.shardCount number (toRequest items) then 1 else 0 := by
  unfold commit at succeeds
  rw [Prod.mk.injEq] at succeeds
  obtain ⟨rfl, isOk⟩ := succeeds
  refine ⟨commitBatches_length, fun number shard next isShard isNext => ?_⟩
  have within : number < sharded.shardCount := (List.getElem?_eq_some_iff.mp isShard).1
  have isBatch := getElem?_buckets (fun item => shardIndex (key item) sharded.shardCount) within items
  have touched : touches sharded.shardCount number (toRequest items) = true ↔
      items.filter (fun item => shardIndex (key item) sharded.shardCount = number) ≠ [] := by
    simp [touches, named, List.filter_eq_nil_iff]
  rcases commitBatches_eq_ok (Prod.ext rfl isOk) isShard isBatch isNext with
    ⟨isNil, rfl⟩ | ⟨nonempty, sequence, performs⟩
  · rw [restricts, isNil, if_neg fun isTouched => touched.mp isTouched isNil]
    exact ⟨fun id => (empty id _).symm, rfl⟩
  · rw [restricts, if_pos (touched.mpr nonempty)]
    exact Shard.perform_eq_ok performs

theorem perform_eq_ok (succeeds : sharded.perform arith request = (after, .ok commits)) :
    after.shardCount = sharded.shardCount ∧
    ∀ number shard next, sharded.shards[number]? = some shard →
      after.shards[number]? = some next →
      (∀ id, (next.get id).map content = contentAfter arith config id ((shard.get id).map content)
        (restrict sharded.shardCount number request)) ∧
      next.latestSequence.toNat = shard.latestSequence.toNat +
        if touches sharded.shardCount number request then 1 else 0 := by
  cases request with
  | upsert points =>
    simp only [perform, upsert] at succeeds
    split at succeeds
    · cases succeeds
    · split at succeeds
      · cases succeeds
      · exact commit_eq_ok (fun _ => rfl) rfl (fun _ _ => rfl) succeeds
  | delete ids =>
    simp only [perform, delete] at succeeds
    split at succeeds
    · cases succeeds
    · split at succeeds
      · cases succeeds
      · exact commit_eq_ok (fun _ => rfl) (List.map_id ids).symm (fun _ _ => rfl) succeeds

end ShardedCollection

end Steps

/-! ## One collection -/

section Single

variable {arith : FloatArithmetic} {config : CollectionConfig}

/-- `Collection::upsert` and `Collection::delete`. -/
def performSingle (arith : FloatArithmetic) (single : Collection) : Request → Result Collection
  | .upsert points => (single.upsert arith points).map Prod.fst
  | .delete ids => (single.delete ids).map Prod.fst

def singleAfter (arith : FloatArithmetic) (config : CollectionConfig) (requests : List Request) :
    Result Collection := do
  let single ← Collection.new config
  requests.foldlM (performSingle arith) single

theorem of_map_ok {α β : Type} {f : α → β} {result : Result α} {value : β}
    (maps : result.map f = .ok value) : ∃ found, result = .ok found ∧ f found = value := by
  cases result with
  | error error => cases maps
  | ok found => exact ⟨found, rfl, Except.ok.inj maps⟩

theorem performSingle_eq_ok {single next : Collection} {request : Request}
    (performs : performSingle arith single request = .ok next) :
    next.config = single.config ∧ next.sequence.toNat = single.sequence.toNat + 1 ∧
      ∀ id, (next.points.get id).map content =
        contentAfter arith single.config id ((single.points.get id).map content) request := by
  cases request with
  | upsert points =>
    obtain ⟨_, upserts, rfl⟩ := of_map_ok performs
    obtain ⟨sequence, granted, upserts⟩ := Result.of_bind_ok upserts
    obtain ⟨prepared, prepares, returns⟩ := Result.of_bind_ok upserts
    cases returns
    refine ⟨rfl, Collection.nextSequence_eq_ok granted, fun id => ?_⟩
    unfold Collection.prepareUpsert at prepares
    split at prepares
    · cases prepares
    · exact content_insertAll prepares id
  | delete ids =>
    obtain ⟨_, deletes, rfl⟩ := of_map_ok performs
    obtain ⟨sequence, granted, returns⟩ := Result.of_bind_ok deletes
    cases returns
    exact ⟨rfl, Collection.nextSequence_eq_ok granted, content_removeAll _ ids⟩

theorem mapM_preparePoint_sequence {points : List UpsertPoint} {sequence : UInt64}
    {prepared : List StoredPoint}
    (prepares : points.mapM (Collection.preparePoint arith config sequence) = .ok prepared)
    (other : UInt64) :
    points.mapM (Collection.preparePoint arith config other) =
      .ok (prepared.map fun point => { point with sequence := other }) := by
  have all := Checked.of_mapM prepares
  clear prepares
  induction all with
  | nil => rfl
  | @cons point stored _ _ first _ ih =>
    have again : Collection.preparePoint arith config other point =
        .ok { stored with sequence := other } := by
      unfold Collection.preparePoint at first ⊢
      split at first
      · cases first
      next sized =>
        split at first
        · cases first
        next named =>
          obtain ⟨vector, prepared, returns⟩ := Result.of_bind_ok first
          cases returns
          rw [if_neg sized, if_neg named, prepared]
          rfl
    rw [List.mapM_cons, again, ih]
    rfl

theorem prepared_of_validatePoints {points : List UpsertPoint}
    (validates : validatePoints arith config points = .ok ()) (sequence : UInt64) :
    ∃ prepared, points.mapM (Collection.preparePoint arith config sequence) = .ok prepared := by
  obtain ⟨validator, creates, validates⟩ := Result.of_bind_ok validates
  obtain ⟨_, upserts, -⟩ := Result.of_bind_ok validates
  obtain ⟨_, -, upserts⟩ := Result.of_bind_ok upserts
  obtain ⟨prepared, prepares, -⟩ := Result.of_bind_ok upserts
  have newConfig : validator.config = config := by
    unfold Collection.new at creates
    split at creates
    · cases creates
    · cases creates
      rfl
  unfold Collection.prepareUpsert at prepares
  split at prepares
  · cases prepares
  · rw [newConfig] at prepares
    exact ⟨_, mapM_preparePoint_sequence prepares sequence⟩

/-- A collection accepts every request that the shards accepted, as long as it has
sequences left. -/
theorem exists_performSingle {backend : IndexBackend}
    {sharded after : ShardedCollection backend config} {commits : List ShardCommit}
    {request : Request} {single : Collection} (sameConfig : single.config = config)
    (bounded : single.sequence.toNat + 1 < 2 ^ 64)
    (succeeds : sharded.perform arith request = (after, .ok commits)) :
    ∃ next, performSingle arith single request = .ok next := by
  have granted : single.nextSequence = .ok (single.sequence + 1) := if_pos bounded
  cases request with
  | upsert points =>
    simp only [ShardedCollection.perform, ShardedCollection.upsert] at succeeds
    split at succeeds
    · cases succeeds
    next nonempty =>
      cases validates : validatePoints arith config points with
      | error error => simp [validates] at succeeds
      | ok valid =>
        obtain ⟨prepared, prepares⟩ := prepared_of_validatePoints validates (single.sequence + 1)
        have again : single.prepareUpsert arith points (single.sequence + 1) = .ok prepared := by
          unfold Collection.prepareUpsert
          rw [if_neg nonempty, sameConfig, prepares]
        simp only [performSingle, Collection.upsert, granted, again, bind, Except.bind]
        exact ⟨_, rfl⟩
  | delete ids =>
    simp only [performSingle, Collection.delete, granted]
    exact ⟨_, rfl⟩

end Single

/-! ## Whole runs -/

section Runs

variable {arith : FloatArithmetic} {backend : IndexBackend} {config : CollectionConfig}
  {sharded after : ShardedCollection backend config} {single : Collection}

def contentsAfter (arith : FloatArithmetic) (config : CollectionConfig)
    (contents : String → Option Content) (requests : List Request) : String → Option Content :=
  requests.foldl (fun current request id => contentAfter arith config id (current id) request)
    contents

variable {requests : List Request}

theorem contents_performSingle {next : Collection}
    (performs : requests.foldlM (performSingle arith) single = .ok next) :
    (fun id => (next.points.get id).map content) =
      contentsAfter arith single.config (fun id => (single.points.get id).map content) requests := by
  induction requests generalizing single with
  | nil =>
    cases performs
    rfl
  | cons request requests ih =>
    rw [List.foldlM_cons] at performs
    obtain ⟨middle, first, performs⟩ := Result.of_bind_ok performs
    obtain ⟨sameConfig, -, contents⟩ := performSingle_eq_ok first
    rw [ih performs, sameConfig, funext contents]
    rfl

/-- Every id is stored in its own shard only, with the given content. -/
def Holds (sharded : ShardedCollection backend config) (contents : String → Option Content) :
    Prop :=
  ∀ number shard, sharded.shards[number]? = some shard → ∀ id,
    (shard.get id).map content =
      if shardIndex id sharded.shardCount = number then contents id else none

variable {contents : String → Option Content}

theorem Holds.perform {commits : List ShardCommit}
    {request : Request} (holds : Holds sharded contents)
    (succeeds : sharded.perform arith request = (after, .ok commits)) :
    Holds after fun id => contentAfter arith config id (contents id) request := by
  obtain ⟨sameCount, each⟩ := ShardedCollection.perform_eq_ok succeeds
  intro number shard isShard id
  have within : number < sharded.shards.length := by
    have inside := (List.getElem?_eq_some_iff.mp isShard).1
    unfold ShardedCollection.shardCount at sameCount
    omega
  have before := List.getElem?_eq_getElem within
  rw [(each number _ shard before isShard).1, contentAfter_restrict, holds number _ before, sameCount]
  split <;> rfl

theorem Holds.performAll
    (holds : Holds sharded contents) (succeeds : sharded.performAll arith requests = .ok after) :
    Holds after (contentsAfter arith config contents requests) := by
  induction requests generalizing sharded contents with
  | nil =>
    cases succeeds
    exact holds
  | cons request requests ih =>
    unfold ShardedCollection.performAll at succeeds
    rw [List.foldlM_cons] at succeeds
    obtain ⟨middle, first, succeeds⟩ := Result.of_bind_ok succeeds
    split at first
    next commits performed =>
      cases first
      exact ih (holds.perform performed) succeeds
    next => cases first

theorem Holds.union (holds : Holds sharded contents)
    {id : String} {found : Content} :
    contents id = some found ↔ ∃ shard ∈ sharded.shards, (shard.get id).map content = some found := by
  constructor
  · intro isContent
    have within := shardIndex_lt id (List.length_pos_iff.mpr sharded.nonempty)
    refine ⟨_, List.getElem_mem within, ?_⟩
    rw [holds _ _ (List.getElem?_eq_getElem within), ShardedCollection.shardCount, if_pos rfl, isContent]
  · rintro ⟨shard, member, isContent⟩
    obtain ⟨number, isShard⟩ := List.mem_iff_getElem?.mp member
    rw [holds number shard isShard] at isContent
    split at isContent
    · exact isContent
    · cases isContent

theorem Holds.placed (holds : Holds sharded contents)
    {number : Nat} {shard : Shard backend config} (isShard : sharded.shards[number]? = some shard)
    {id : String} (stored : shard.get id ≠ none) : shardIndex id sharded.shardCount = number := by
  by_contra elsewhere
  have nothing := holds number shard isShard id
  rw [if_neg elsewhere, Option.map_eq_none_iff] at nothing
  exact stored nothing

theorem ShardedCollection.performAll_sequences
    (succeeds : sharded.performAll arith requests = .ok after) :
    after.shardCount = sharded.shardCount ∧
    ∀ number shard next, sharded.shards[number]? = some shard →
      after.shards[number]? = some next → next.latestSequence.toNat =
        shard.latestSequence.toNat + requests.countP (touches sharded.shardCount number) := by
  induction requests generalizing sharded with
  | nil =>
    cases succeeds
    refine ⟨rfl, fun number shard next isShard isNext => ?_⟩
    rw [isShard] at isNext
    cases isNext
    rfl
  | cons request requests ih =>
    unfold performAll at succeeds
    rw [List.foldlM_cons] at succeeds
    obtain ⟨middle, first, succeeds⟩ := Result.of_bind_ok succeeds
    split at first
    next commits performed =>
      cases first
      obtain ⟨sameCount, each⟩ := perform_eq_ok performed
      obtain ⟨laterCount, later⟩ := ih succeeds
      refine ⟨laterCount.trans sameCount, fun number shard next isShard isNext => ?_⟩
      have within : number < middle.shards.length := by
        have inside := (List.getElem?_eq_some_iff.mp isShard).1
        unfold shardCount at sameCount
        omega
      have between := List.getElem?_eq_getElem within
      rw [later number _ next between isNext, (each number shard _ isShard between).2, sameCount,
        List.countP_cons]
      omega
    next => cases first

/-- A collection accepts all requests that the shards accepted, as long as it has
sequences left. -/
theorem exists_performSingle_all (sameConfig : single.config = config)
    (bounded : single.sequence.toNat + requests.length < 2 ^ 64)
    (succeeds : sharded.performAll arith requests = .ok after) :
    ∃ next, requests.foldlM (performSingle arith) single = .ok next := by
  induction requests generalizing sharded single with
  | nil => exact ⟨single, rfl⟩
  | cons request requests ih =>
    unfold ShardedCollection.performAll at succeeds
    rw [List.foldlM_cons] at succeeds
    rw [List.length_cons] at bounded
    obtain ⟨middle, first, succeeds⟩ := Result.of_bind_ok succeeds
    split at first
    next commits performed =>
      cases first
      obtain ⟨next, performs⟩ := exists_performSingle sameConfig (by omega) performed
      obtain ⟨nextConfig, nextSequence, -⟩ := performSingle_eq_ok performs
      rw [List.foldlM_cons, performs]
      exact ih (nextConfig.trans sameConfig) (by omega) succeeds
    next => cases first

/-! ## From new directories -/

theorem openShards_empty {durability : Durability} (positive : config.dimension ≠ 0) (count : Nat) :
    openShards arith backend config durability (List.replicate count fun _ => none) =
      (List.replicate count (newDirectory config), .ok (List.replicate count
        ⟨newDirectory config, newStore backend config durability, rfl⟩)) := by
  induction count with
  | zero => rfl
  | succ count ih =>
    rw [List.replicate_succ]
    unfold openShards
    rw [ih]
    have opens : (openCollection arith backend config durability).run (fun _ => none) = _ :=
      run_openCollection_empty positive
    split
    next failed =>
      rw [opens] at failed
      cases failed
    next opened =>
      rw [opens] at opened
      cases opened
      rfl

def ShardedCollection.created (backend : IndexBackend) (config : CollectionConfig)
    (durability : Durability) (count : Nat) (counted : count ≠ 0) :
    ShardedCollection backend config where
  shards := List.replicate count ⟨newDirectory config, newStore backend config durability, rfl⟩
  nonempty := by simpa [List.replicate_eq_nil_iff] using counted

theorem openAll_created {durability : Durability} {count : Nat}
    (positive : config.dimension ≠ 0) (counted : count ≠ 0) :
    (ShardedCollection.openAll arith backend config durability
        (List.replicate count fun _ => none)).2 =
      .ok (.created backend config durability count counted) := by
  have some_ : (List.replicate count fun _ => none : List Directory) ≠ [] := by
    simpa [List.replicate_eq_nil_iff] using counted
  have created : Collection.new config = .ok (blank config) := if_neg positive
  unfold ShardedCollection.openAll
  rw [dif_neg some_]
  simp only [created]
  split
  next failed =>
    rw [openShards_empty positive] at failed
    cases failed
  next opened =>
    rw [openShards_empty positive] at opened
    cases opened
    rfl

theorem openAll_empty {durability : Durability} {count : Nat}
    (opens : (ShardedCollection.openAll arith backend config durability
      (List.replicate count fun _ => none)).2 = .ok sharded) :
    Collection.new config = .ok (blank config) ∧ sharded.shardCount = count ∧
      ∀ shard ∈ sharded.shards, shard.store.inner = blank config := by
  unfold ShardedCollection.openAll at opens
  split at opens
  · cases opens
  split at opens
  · cases opens
  next isNew =>
    have positive : config.dimension ≠ 0 := by
      intro isZero
      unfold Collection.new at isNew
      rw [if_pos isZero] at isNew
      cases isNew
    split at opens
    · cases opens
    next opened =>
      cases opens
      rw [openShards_empty positive] at opened
      cases opened
      exact ⟨if_neg positive, List.length_replicate,
        fun shard member => (List.eq_of_mem_replicate member) ▸ rfl⟩

/-- Sharding is invisible: after any requests that all succeeded, the shards together
hold what one collection holds that was given the same requests; every id is in its own
shard only, and each shard has counted the requests that concerned it. -/
theorem sharding_refines_collection {durability : Durability} {count : Nat}
    {requests : List Request}
    (opens : (ShardedCollection.openAll arith backend config durability
      (List.replicate count fun _ => none)).2 = .ok sharded)
    (succeeds : sharded.performAll arith requests = .ok after) :
    (∀ single, singleAfter arith config requests = .ok single → ∀ id found,
      (single.points.get id).map content = some found ↔
        ∃ shard ∈ after.shards, (shard.get id).map content = some found) ∧
    (requests.length < 2 ^ 64 → ∃ single, singleAfter arith config requests = .ok single) ∧
    after.shardCount = count ∧
    ∀ number shard, after.shards[number]? = some shard →
      (∀ id, shard.get id ≠ none → shardIndex id count = number) ∧
      shard.latestSequence.toNat = requests.countP (touches count number) := by
  obtain ⟨creates, isCount, isBlank⟩ := openAll_empty opens
  obtain ⟨sameCount, sequences⟩ := ShardedCollection.performAll_sequences succeeds
  have start : Holds sharded fun _ => none := by
    intro number shard isShard id
    rw [Shard.get, isBlank shard (List.mem_of_getElem? isShard), blank, PointMap.get_empty, ite_self]
    rfl
  have holds := start.performAll succeeds
  refine ⟨fun single performs id found => ?_, fun bounded => ?_, sameCount.trans isCount,
    fun number shard isShard => ⟨fun id stored => ?_, ?_⟩⟩
  · rw [singleAfter, creates] at performs
    have contents := congrFun (contents_performSingle performs) id
    simp only [blank, PointMap.get_empty, Option.map_none] at contents
    rw [contents]
    exact holds.union
  · rw [singleAfter, creates]
    exact exists_performSingle_all rfl (by simpa [blank] using bounded) succeeds
  · rw [← isCount, ← sameCount]
    exact holds.placed isShard stored
  · have within : number < sharded.shards.length := by
      have inside := (List.getElem?_eq_some_iff.mp isShard).1
      unfold ShardedCollection.shardCount at sameCount
      omega
    have before := List.getElem?_eq_getElem within
    rw [sequences number _ shard before isShard, isCount, Shard.latestSequence,
      PersistentCollection.latestSequence, Collection.latestSequence,
      isBlank _ (List.getElem_mem within)]
    simp [blank]

end Runs

/-- Two shards take a batch with one id twice and an id of the other shard. -/
theorem two_shards_refine_collection :
    let config : CollectionConfig := ⟨1, .dotProduct, by decide⟩
    let requests : List Request := [
      .upsert [⟨"a", [⟨0x3f800000⟩], ∅⟩, ⟨"b", [⟨0x3f800000⟩], ∅⟩, ⟨"a", [⟨0x40000000⟩], ∅⟩],
      .delete ["b", "c"]]
    ∃ sharded after : ShardedCollection .flat config,
      (ShardedCollection.openAll .normalised .flat config .sync
        (List.replicate 2 fun _ => none)).2 = .ok sharded ∧
      sharded.performAll .normalised requests = .ok after ∧
      ∀ number shard, after.shards[number]? = some shard →
        shard.latestSequence.toNat = requests.countP (touches 2 number) := by
  intro config requests
  have opens := @openAll_created .normalised .flat config .sync 2 (by decide) (by decide)
  cases performs : (ShardedCollection.created .flat config .sync 2 (by decide)).performAll
      .normalised requests with
  | error error =>
    have succeeds : ((ShardedCollection.created .flat config .sync 2 (by decide)).performAll
        .normalised requests).isOk = true := by
      decide +kernel
    rw [performs] at succeeds
    cases succeeds
  | ok after =>
    have refined := sharding_refines_collection opens performs
    exact ⟨_, after, opens, performs, fun number shard isShard =>
      (refined.2.2.2 number shard isShard).2⟩

end FocalVector.Sharding
