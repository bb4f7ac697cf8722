import FocalVector.Persistence.Search
import FocalVector.Sharding.ShardedCollection

/-!
Contract: searching all shards.

A search asks every shard for its `k` best points, sorts all answers together and keeps the
first `k`. The shards of a local collection answer in their own order; those of a distributed
one as their replies arrive, each with the log index it was read at. When every shard
returns its own best points, what is kept are the best points of all shards.

Owns: the search of a sharded and of a distributed collection, what they return in every
order of arrival, and the index they report.

Does not own: how a replica is found and asked.
-/

namespace FocalVector.Sharding

open FocalVector.Foundation FocalVector.Engine FocalVector.Persistence

/-! ## The shards of one process -/

section Local

variable (arith : SearchArithmetic) {backend : IndexBackend} {config : CollectionConfig}

abbrev SearchShards (backend : IndexBackend) (arith : SearchArithmetic)
    (config : CollectionConfig) : Type :=
  ShardedCollection (backend.withMetadata arith.toIntegerConversion) config

/-- `ShardedCollection::search`; the results are joined in the order of the shards. -/
def ShardedCollection.search (graphs : GraphSearch backend.Graph)
    (sharded : SearchShards backend arith config) (query : List F32) (k : Nat)
    (filter : Option Filter) (efSearch : Nat) : Result (List SearchHit) :=
  if k = 0 then
    .error (.invalidQuery "k must be greater than zero")
  else if query.length ≠ config.dimension then
    .error (.invalidDimension config.dimension query.length)
  else do
    let results ← sharded.shards.mapM fun shard =>
      shard.store.searchWithEf arith graphs query k filter efSearch
    return mergeParts SearchHit.rank k results

def Shard.hits (shard : Shard (backend.withMetadata arith.toIntegerConversion) config)
    (prepared : List F32) (filter : Option Filter) : Set SearchHit :=
  shard.store.inner.hits arith prepared (fun _ => True) filter

end Local

/-! ## The shards of a cluster -/

structure ShardSearchResult where
  hits : List SearchHit
  appliedIndex : Option UInt64

structure DistributedSearchResult where
  hits : List SearchHit
  minAppliedIndex : Option UInt64

/-- What has been gathered from the replies so far. -/
structure Gathered where
  hits : List SearchHit
  minAppliedIndex : Option UInt64
  allShardsReportedIndex : Bool

/-- The loop body over the replies. -/
def Gathered.add (gathered : Gathered) (result : ShardSearchResult) : Gathered where
  hits := gathered.hits ++ result.hits
  minAppliedIndex :=
    match result.appliedIndex with
    | some index => some ((gathered.minAppliedIndex.map (min · index)).getD index)
    | none => gathered.minAppliedIndex
  allShardsReportedIndex := gathered.allShardsReportedIndex && result.appliedIndex.isSome

def Gathered.receive (gathered : Gathered) (reply : Result ShardSearchResult) :
    Result Gathered := do
  return gathered.add (← reply)

/-- `search_result_with_ef`, from the replies in the order in which their tasks complete. -/
def searchResultWithEf (k efSearch : Nat) (arrivals : List (Result ShardSearchResult)) :
    Result DistributedSearchResult :=
  if k = 0 then
    .error (.invalidQuery "k must be greater than zero")
  else if efSearch < k then
    .error (.invalidQuery "ef_search must be at least k")
  else do
    let gathered ← arrivals.foldlM Gathered.receive ⟨[], none, true⟩
    return {
      hits := mergeParts SearchHit.rank k [gathered.hits]
      minAppliedIndex :=
        if gathered.allShardsReportedIndex then gathered.minAppliedIndex else none }

/-! ## What the merges return -/

/-- The least of the indexes, or nothing where one is missing. -/
def IsLeastIndex (indexes : List (Option UInt64)) : Option UInt64 → Prop
  | some least => (∀ index ∈ indexes, index.isSome) ∧ some least ∈ indexes ∧
      ∀ index, some index ∈ indexes → least ≤ index
  | none => none ∈ indexes

theorem IsLeastIndex.congr {indexes others : List (Option UInt64)} {least : Option UInt64}
    (isLeast : IsLeastIndex indexes least) (same : ∀ index, index ∈ indexes ↔ index ∈ others) :
    IsLeastIndex others least := by
  cases least with
  | none => exact (same none).mp isLeast
  | some least =>
    exact ⟨fun index member => isLeast.1 index ((same index).mpr member), (same _).mp isLeast.2.1,
      fun index member => isLeast.2.2 index ((same _).mpr member)⟩

theorem rank_ne_of_id {left right : SearchHit} (differ : left.id ≠ right.id) :
    left.rank ≠ right.rank :=
  fun same => differ (SearchHit.id_of_rank same)

theorem foldlM_receive (results : List ShardSearchResult) (gathered : Gathered) :
    (results.map Except.ok : List (Result ShardSearchResult)).foldlM Gathered.receive gathered =
      .ok (results.foldl Gathered.add gathered) := by
  induction results generalizing gathered with
  | nil => rfl
  | cons result rest ih => exact ih (gathered.add result)

theorem hits_foldl_add (results : List ShardSearchResult) (gathered : Gathered) :
    (results.foldl Gathered.add gathered).hits =
      gathered.hits ++ (results.map ShardSearchResult.hits).flatten := by
  induction results generalizing gathered with
  | nil => simp
  | cons result rest ih =>
    rw [List.foldl_cons, ih]
    simp [Gathered.add]

theorem allReported_foldl_add (results : List ShardSearchResult) (gathered : Gathered) :
    (results.foldl Gathered.add gathered).allShardsReportedIndex =
      (gathered.allShardsReportedIndex && results.all (·.appliedIndex.isSome)) := by
  induction results generalizing gathered with
  | nil => simp
  | cons result rest ih =>
    rw [List.foldl_cons, ih]
    simp [Gathered.add, Bool.and_assoc]

theorem min_add {gathered : Gathered} {result : ShardSearchResult} {index : UInt64}
    (isIndex : result.appliedIndex = some index) :
    ∃ least, (gathered.add result).minAppliedIndex = some least ∧
      (least = index ∨ gathered.minAppliedIndex = some least) ∧ least ≤ index ∧
      ∀ current, gathered.minAppliedIndex = some current → least ≤ current := by
  simp only [Gathered.add, isIndex, Option.some.injEq, exists_eq_left']
  cases gathered.minAppliedIndex with
  | none => exact ⟨.inl rfl, UInt64.le_refl _, nofun⟩
  | some current =>
    refine ⟨?_, Std.min_le_right, fun other same => Option.some.inj same ▸ Std.min_le_left⟩
    exact (Std.MinEqOr.min_eq_or current index).symm.imp id fun same => congrArg some same.symm

theorem min_foldl_add {results : List ShardSearchResult} {gathered : Gathered}
    (present : results ≠ [] ∨ gathered.minAppliedIndex.isSome)
    (reported : ∀ result ∈ results, result.appliedIndex.isSome) :
    ∃ least, (results.foldl Gathered.add gathered).minAppliedIndex = some least ∧
      (gathered.minAppliedIndex = some least ∨
        ∃ result ∈ results, result.appliedIndex = some least) ∧
      (∀ current, gathered.minAppliedIndex = some current → least ≤ current) ∧
      ∀ result ∈ results, ∀ index, result.appliedIndex = some index → least ≤ index := by
  induction results generalizing gathered with
  | nil =>
    obtain ⟨least, isLeast⟩ := Option.isSome_iff_exists.mp (present.resolve_left (by simp))
    refine ⟨least, isLeast, .inl isLeast, fun current same => ?_, nofun⟩
    rw [Option.some.inj (isLeast.symm.trans same)]
    exact UInt64.le_refl _
  | cons result rest ih =>
    obtain ⟨index, isIndex⟩ := Option.isSome_iff_exists.mp (reported result List.mem_cons_self)
    obtain ⟨first, isFirst, origin, below, belowGathered⟩ := @min_add gathered _ _ isIndex
    obtain ⟨least, isLeast, isOne, belowFirst, belowRest⟩ := ih
      (.inr (Option.isSome_iff_exists.mpr ⟨first, isFirst⟩))
      fun later member => reported later (List.mem_cons_of_mem _ member)
    have leastFirst := belowFirst first isFirst
    refine ⟨least, isLeast, ?_, ?_, ?_⟩
    · rcases isOne with same | ⟨later, member, isLater⟩
      · rw [Option.some.inj (same.symm.trans isFirst)]
        refine origin.symm.imp id fun isNew => ⟨result, List.mem_cons_self, ?_⟩
        rw [isIndex, isNew]
      · exact .inr ⟨later, List.mem_cons_of_mem _ member, isLater⟩
    · exact fun current same => UInt64.le_trans leastFirst (belowGathered current same)
    · intro later member other isOther
      rcases List.mem_cons.mp member with rfl | inRest
      · rw [Option.some.inj (isOther.symm.trans isIndex)]
        exact UInt64.le_trans leastFirst below
      · exact belowRest later inRest other isOther

theorem isLeastIndex_gathered {results : List ShardSearchResult} (nonempty : results ≠ []) :
    IsLeastIndex (results.map ShardSearchResult.appliedIndex)
      (if (results.foldl Gathered.add ⟨[], none, true⟩).allShardsReportedIndex then
        (results.foldl Gathered.add ⟨[], none, true⟩).minAppliedIndex else none) := by
  rw [allReported_foldl_add, Bool.true_and]
  split
  next all =>
    have reported : ∀ result ∈ results, result.appliedIndex.isSome := List.all_eq_true.mp all
    obtain ⟨least, isLeast, isOne, -, below⟩ :=
      @min_foldl_add results ⟨[], none, true⟩ (.inl nonempty) reported
    obtain ⟨result, member, isResult⟩ := isOne.resolve_left nofun
    rw [isLeast]
    refine ⟨?_, List.mem_map.mpr ⟨result, member, isResult⟩, ?_⟩
    · intro index isIndex
      obtain ⟨other, isOther, rfl⟩ := List.mem_map.mp isIndex
      exact reported other isOther
    · intro index isIndex
      obtain ⟨other, isOther, same⟩ := List.mem_map.mp isIndex
      exact below other isOther index same
  next missing =>
    have isMissing : ∃ result ∈ results, result.appliedIndex = none := by
      simpa using missing
    obtain ⟨result, member, isNone⟩ := isMissing
    exact List.mem_map.mpr ⟨result, member, isNone⟩

theorem isBest_merged {k : Nat} {parts : List (Set SearchHit × List SearchHit)}
    (each : ∀ part ∈ parts, IsBest SearchHit.rank k part.1 part.2)
    (apart : parts.Pairwise fun left right =>
      ∀ hit ∈ left.1, ∀ other ∈ right.1, hit.id ≠ other.id) :
    IsBest SearchHit.rank k {hit | ∃ part ∈ parts, hit ∈ part.1}
      (mergeParts SearchHit.rank k (parts.map Prod.snd)) :=
  isBest_mergeParts each (apart.imp fun differ hit isHit other isOther =>
    rank_ne_of_id (differ hit isHit other isOther))

section Local

variable {arith : SearchArithmetic} {backend : IndexBackend} {config : CollectionConfig}
  {graphs : GraphSearch backend.Graph} {sharded : SearchShards backend arith config}
  {query prepared : List F32} {k efSearch : Nat} {filter : Option Filter}

theorem ShardedCollection.search_eq (positive : k ≠ 0) (sized : query.length = config.dimension)
    (apart : sharded.shards.Pairwise fun left right =>
      ∀ hit ∈ left.hits arith prepared filter, ∀ other ∈ right.hits arith prepared filter,
        hit.id ≠ other.id)
    (exactly : ∀ shard ∈ sharded.shards, ∃ best,
      shard.store.searchWithEf arith graphs query k filter efSearch = .ok best ∧
        IsBest SearchHit.rank k (shard.hits arith prepared filter) best) :
    ∃ merged, sharded.search arith graphs query k filter efSearch = .ok merged ∧
      IsBest SearchHit.rank k
        {hit | ∃ shard ∈ sharded.shards, hit ∈ shard.hits arith prepared filter} merged := by
  let answer := fun shard : Shard (backend.withMetadata arith.toIntegerConversion) config =>
    ((shard.store.searchWithEf arith graphs query k filter efSearch).toOption).getD []
  have answers : ∀ shard ∈ sharded.shards,
      shard.store.searchWithEf arith graphs query k filter efSearch = .ok (answer shard) ∧
        IsBest SearchHit.rank k (shard.hits arith prepared filter) (answer shard) := by
    intro shard member
    obtain ⟨best, searched, isBest⟩ := exactly shard member
    have same : answer shard = best := by simp only [answer, searched]; rfl
    rw [same]
    exact ⟨searched, isBest⟩
  have merged := @isBest_merged k
    (sharded.shards.map fun shard => (shard.hits arith prepared filter, answer shard)) (by
      intro part isPart
      obtain ⟨shard, member, rfl⟩ := List.mem_map.mp isPart
      exact (answers shard member).2) (List.pairwise_map.mpr apart)
  rw [List.map_map] at merged
  refine ⟨_, ?_, merged.congr fun hit => by simp⟩
  unfold ShardedCollection.search
  rw [if_neg positive, if_neg (not_not.mpr sized),
    Checked.mapM_of_forall fun shard member => (answers shard member).1]
  rfl

end Local

theorem searchResultWithEf_ok {k efSearch : Nat} (positive : k ≠ 0) (wide : k ≤ efSearch)
    {results : List ShardSearchResult} (nonempty : results ≠ []) :
    ∃ least, IsLeastIndex (results.map ShardSearchResult.appliedIndex) least ∧
      searchResultWithEf k efSearch (results.map .ok) =
        .ok ⟨mergeParts SearchHit.rank k (results.map ShardSearchResult.hits), least⟩ := by
  refine ⟨_, isLeastIndex_gathered nonempty, ?_⟩
  unfold searchResultWithEf
  rw [if_neg positive, if_neg (not_lt.mpr wide), foldlM_receive]
  have joined : mergeParts SearchHit.rank k
      [(results.foldl Gathered.add ⟨[], none, true⟩).hits] =
        mergeParts SearchHit.rank k (results.map ShardSearchResult.hits) := by
    simp [mergeParts, hits_foldl_add]
  rw [← joined]
  rfl

/-- A distributed search whose shards each return their own best points returns the best of
all and the least index they were read at, in whatever order the replies arrive. -/
theorem searchResultWithEf_eq {k efSearch : Nat} (positive : k ≠ 0) (wide : k ≤ efSearch)
    {replies arrivals : List (Set SearchHit × ShardSearchResult)} (nonempty : replies ≠ [])
    (exactly : ∀ reply ∈ replies, IsBest SearchHit.rank k reply.1 reply.2.hits)
    (apart : replies.Pairwise fun left right =>
      ∀ hit ∈ left.1, ∀ other ∈ right.1, hit.id ≠ other.id)
    (arrive : arrivals.Perm replies) :
    ∃ result, searchResultWithEf k efSearch (arrivals.map fun reply => .ok reply.2) =
        .ok result ∧
      IsBest SearchHit.rank k {hit | ∃ reply ∈ replies, hit ∈ reply.1} result.hits ∧
      IsLeastIndex (replies.map (·.2.appliedIndex)) result.minAppliedIndex := by
  have apartArrivals := (arrive.pairwise_iff fun differ other isOther hit isHit =>
    (differ hit isHit other isOther).symm).mpr apart
  have merged := @isBest_merged k (arrivals.map fun reply => (reply.1, reply.2.hits)) (by
    intro part isPart
    obtain ⟨reply, member, rfl⟩ := List.mem_map.mp isPart
    exact exactly reply (arrive.mem_iff.mp member)) (List.pairwise_map.mpr apartArrivals)
  have arrivalsNonempty : arrivals.map Prod.snd ≠ [] :=
    fun isNil => nonempty (arrive.symm.trans (.of_eq (List.map_eq_nil_iff.mp isNil))).eq_nil
  obtain ⟨least, isLeast, searched⟩ := searchResultWithEf_ok positive wide arrivalsNonempty
  rw [List.map_map] at searched isLeast merged
  refine ⟨_, searched, ?_, isLeast.congr fun index => (arrive.map _).mem_iff⟩
  rw [List.map_map]
  exact merged.congr fun hit => by simp [arrive.mem_iff]

section Global

variable {arith : SearchArithmetic} {backend : IndexBackend} {config : CollectionConfig}

/-- Merging the own best points of shards without an id in common gives the best points of
all shards, for a sharded collection and, in every order of arrival, for a distributed one,
which reports the least applied index unless one is missing. -/
theorem merged_search_is_global (graphs : GraphSearch backend.Graph)
    (sharded : SearchShards backend arith config) (query prepared : List F32)
    (filter : Option Filter) (k efSearch : Nat) (positive : 1 ≤ k) :
    (query.length = config.dimension →
      sharded.shards.Pairwise (fun left right =>
        ∀ hit ∈ left.hits arith prepared filter, ∀ other ∈ right.hits arith prepared filter,
          hit.id ≠ other.id) →
      (∀ shard ∈ sharded.shards, ∃ best,
        shard.store.searchWithEf arith graphs query k filter efSearch = .ok best ∧
          IsBest SearchHit.rank k (shard.hits arith prepared filter) best) →
      ∃ merged, sharded.search arith graphs query k filter efSearch = .ok merged ∧
        IsBest SearchHit.rank k
          {hit | ∃ shard ∈ sharded.shards, hit ∈ shard.hits arith prepared filter} merged) ∧
    ∀ replies arrivals : List (Set SearchHit × ShardSearchResult),
      k ≤ efSearch → replies ≠ [] →
      (∀ reply ∈ replies, IsBest SearchHit.rank k reply.1 reply.2.hits) →
      replies.Pairwise (fun left right =>
        ∀ hit ∈ left.1, ∀ other ∈ right.1, hit.id ≠ other.id) →
      arrivals.Perm replies →
      ∃ result, searchResultWithEf k efSearch (arrivals.map fun reply => .ok reply.2) =
          .ok result ∧
        IsBest SearchHit.rank k {hit | ∃ reply ∈ replies, hit ∈ reply.1} result.hits ∧
        IsLeastIndex (replies.map (·.2.appliedIndex)) result.minAppliedIndex := by
  have notZero : k ≠ 0 := by omega
  constructor
  · intro sized apart exactly
    exact ShardedCollection.search_eq notZero sized apart exactly
  · intro replies arrivals wide nonempty exactly apart arrive
    exact searchResultWithEf_eq notZero wide nonempty exactly apart arrive

end Global

def soloShard (id : String) (value : F32) :
    Shard (IndexBackend.flat.withMetadata SearchArithmetic.unit.toIntegerConversion)
      lineConfig where
  disk := fun _ => none
  store :=
    { inner := ⟨lineConfig, .insertAll .empty [⟨id, [value], ∅, 1⟩], 1⟩
      durability := .sync
      indexes := []
      metadataIndex := none
      dirtyIds := {id} }
  sameConfig := rfl

theorem id_of_mem_hits_soloShard {id : String} {value : F32} {prepared : List F32} {hit : SearchHit}
    (isHit : hit ∈ (soloShard id value).hits .unit prepared none) : hit.id = id := by
  obtain ⟨point, live, -, -, rfl⟩ := isHit
  show point.id = id
  rcases PointMap.mem_of_get_insertAll live with member | found
  · rw [List.mem_singleton.mp member]
  · exact absurd found (by simp)

/-- The shards of `"a"` and of `"b"`. -/
def soloShards : SearchShards .flat .unit lineConfig where
  shards := [soloShard "a" ⟨0x3f800000⟩, soloShard "b" ⟨0x40000000⟩]
  nonempty := by simp

theorem soloShard_exact (id : String) (value : F32) :
    ∃ best, (soloShard id value).store.searchWithEf .unit flatSearch [⟨0x3f800000⟩] 1 none 1 =
        .ok best ∧
      IsBest SearchHit.rank 1 ((soloShard id value).hits .unit [⟨0x3f800000⟩] none) best :=
  Collection.search_eq rfl none

/-- Two shards are searched, and two replies are merged that come in either order. -/
theorem two_shards_merged :
    (∃ merged, soloShards.search .unit flatSearch [⟨0x3f800000⟩] 1 none 1 = .ok merged ∧
      IsBest SearchHit.rank 1
        {hit | ∃ shard ∈ soloShards.shards, hit ∈ shard.hits .unit [⟨0x3f800000⟩] none} merged) ∧
    ∀ arrivals : List (Set SearchHit × ShardSearchResult),
      arrivals.Perm [({⟨"a", ⟨0⟩, ∅, 1⟩}, ⟨[⟨"a", ⟨0⟩, ∅, 1⟩], some 7⟩),
        ({⟨"b", ⟨0⟩, ∅, 1⟩}, ⟨[⟨"b", ⟨0⟩, ∅, 1⟩], some 5⟩)] →
      ∃ result, searchResultWithEf 1 1 (arrivals.map fun reply => .ok reply.2) = .ok result ∧
        IsLeastIndex [some 7, some 5] result.minAppliedIndex := by
  obtain ⟨shards, replies⟩ := merged_search_is_global flatSearch soloShards [⟨0x3f800000⟩]
    [⟨0x3f800000⟩] none 1 1 le_rfl
  constructor
  · refine shards rfl ?_ ?_
    · simp only [soloShards, List.pairwise_cons, List.mem_singleton, forall_eq]
      refine ⟨fun hit isHit other isOther => ?_, by simp⟩
      rw [id_of_mem_hits_soloShard isHit, id_of_mem_hits_soloShard isOther]
      decide
    · simp only [soloShards, List.forall_mem_cons]
      exact ⟨soloShard_exact _ _, soloShard_exact _ _, nofun⟩
  · intro arrivals arrive
    have single : ∀ hit : SearchHit, IsBest SearchHit.rank 1 {hit} [hit] := fun hit =>
      (IsBest.take (List.pairwise_singleton _ hit)).congr fun _ => List.mem_singleton
    obtain ⟨result, searched, -, least⟩ := replies _ arrivals le_rfl (by simp) (by
      simp only [List.forall_mem_cons]
      exact ⟨single _, single _, nofun⟩) (by simp) arrive
    exact ⟨result, searched, least⟩

end FocalVector.Sharding
