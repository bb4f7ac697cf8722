import FocalVector.Foundation.Checked
import FocalVector.Sharding.MergedSearch
import FocalVector.Sharding.ShardRefinement

/-!
Contract: a sharded collection is searched as one collection.

The points of a collection are spread over the shards, and each shard numbers its own
requests. Until a shard is flushed it compares a query with all its points, so the merged
answer is the answer of one collection, but for the sequences.

Owns: that shards stay without indexes while they are only written, the hits of contents,
and that searches of both collections agree, errors included.

Does not own: searches of flushed shards, which ask approximate graphs.
-/

namespace FocalVector.Sharding

open FocalVector.Foundation FocalVector.Engine FocalVector.Persistence

/-! ## Shards that have not been flushed -/

section Unflushed

variable {arith : FloatArithmetic} {backend : IndexBackend} {config : CollectionConfig}

/-- The shard has no index to ask. -/
def Shard.Unflushed (shard : Shard backend config) : Prop :=
  shard.store.indexes = [] ∧ shard.store.metadataIndex = none

theorem Shard.Unflushed.perform {shard : Shard backend config} (unflushed : shard.Unflushed)
    (request : Request) : (shard.perform arith request).1.Unflushed := by
  unfold Shard.perform
  split
  next performs =>
    obtain ⟨write, -, -, rfl⟩ := Persistence.perform_eq_ok performs
    exact unflushed
  next => exact unflushed

theorem unflushed_commitBatches {α : Type} {request : List α → Request} {number : Nat}
    {shards : List (Shard backend config)} {batches : List (List α)}
    (unflushed : ∀ shard ∈ shards, shard.Unflushed) :
    ∀ shard ∈ (commitBatches arith request number shards batches).1, shard.Unflushed := by
  induction shards generalizing number batches with
  | nil => cases batches <;> exact unflushed
  | cons first shards ih =>
    cases batches with
    | nil => exact unflushed
    | cons batch batches =>
      obtain ⟨head, tail⟩ := List.forall_mem_cons.mp unflushed
      unfold commitBatches
      split
      · exact List.forall_mem_cons.mpr ⟨head, ih tail⟩
      · have performed : (first.perform arith (request batch)).1.Unflushed := head.perform _
        split
        next performs =>
          rw [performs] at performed
          exact List.forall_mem_cons.mpr ⟨performed, tail⟩
        next performs =>
          rw [performs] at performed
          exact List.forall_mem_cons.mpr ⟨performed, ih tail⟩

def ShardedCollection.Unflushed (sharded : ShardedCollection backend config) : Prop :=
  ∀ shard ∈ sharded.shards, shard.Unflushed

theorem ShardedCollection.Unflushed.perform {sharded : ShardedCollection backend config}
    (unflushed : sharded.Unflushed) (request : Request) :
    (sharded.perform arith request).1.Unflushed := by
  cases request with
  | upsert points =>
    simp only [ShardedCollection.perform, upsert]
    split
    · exact unflushed
    · split
      · exact unflushed
      · exact unflushed_commitBatches unflushed
  | delete ids =>
    simp only [ShardedCollection.perform, delete]
    split
    · exact unflushed
    · split
      · exact unflushed
      · exact unflushed_commitBatches unflushed

theorem ShardedCollection.Unflushed.performAll {sharded after : ShardedCollection backend config}
    {requests : List Request} (unflushed : sharded.Unflushed)
    (succeeds : sharded.performAll arith requests = .ok after) : after.Unflushed := by
  refine Checked.foldlM_keeps succeeds (fun request _ current next kept performs => ?_) unflushed
  have performed : (current.perform arith request).1.Unflushed := kept.perform request
  split at performs
  next isPerformed =>
    cases performs
    rwa [isPerformed] at performed
  next => cases performs

end Unflushed

/-! ## Hits of contents -/

/-- A hit without the sequence, which a collection counts for itself. -/
def unnumbered (hit : SearchHit) : SearchHit := { hit with sequence := 0 }

section Hits

variable {arith : SearchArithmetic} {backend : IndexBackend} {config : CollectionConfig}
  {prepared : List F32} {filter : Option Filter}

/-- The hits of everything that is stored, whichever shard stores it. -/
def contentHits (arith : SearchArithmetic) (metric : Metric) (prepared : List F32)
    (filter : Option Filter) (contents : String → Option Content) : Set SearchHit :=
  {hit | ∃ id found, contents id = some found ∧
    passes arith.toIntegerConversion filter found.2 = true ∧
    hit = ⟨id, metric.score arith prepared found.1, found.2, 0⟩}

theorem image_hits (collection : Collection) :
    Set.image unnumbered (collection.hits arith prepared (fun _ => True) filter) =
      contentHits arith collection.config.metric prepared filter fun id =>
        (collection.points.get id).map content := by
  ext hit
  constructor
  · rintro ⟨_, ⟨point, live, -, passed, rfl⟩, rfl⟩
    exact ⟨point.id, content point, by simp only [live, Option.map_some], passed, rfl⟩
  · rintro ⟨id, found, stored, passed, rfl⟩
    obtain ⟨point, live, rfl⟩ := Option.map_eq_some_iff.mp stored
    cases PointMap.id_of_get live
    exact ⟨_, ⟨point, live, trivial, passed, rfl⟩, rfl⟩

theorem Holds.image_hits {sharded : SearchShards backend arith config}
    {contents : String → Option Content} (holds : Holds sharded contents) :
    Set.image unnumbered
        {hit | ∃ shard ∈ sharded.shards, hit ∈ shard.hits arith prepared filter} =
      contentHits arith config.metric prepared filter contents := by
  have each : ∀ shard ∈ sharded.shards,
      Set.image unnumbered (shard.hits arith prepared filter) =
        contentHits arith config.metric prepared filter fun id => (shard.get id).map content := by
    intro shard _
    refine (Sharding.image_hits shard.store.inner).trans ?_
    rw [shard.sameConfig]
    rfl
  ext hit
  constructor
  · rintro ⟨numbered, ⟨shard, member, isHit⟩, rfl⟩
    have formed := Set.mem_image_of_mem unnumbered isHit
    rw [each shard member] at formed
    obtain ⟨id, found, stored, passed, same⟩ := formed
    exact ⟨id, found, holds.union.mpr ⟨shard, member, stored⟩, passed, same⟩
  · rintro ⟨id, found, stored, passed, same⟩
    obtain ⟨shard, member, stored⟩ := holds.union.mp stored
    have formed : hit ∈ Set.image unnumbered (shard.hits arith prepared filter) := by
      rw [each shard member]
      exact ⟨id, found, stored, passed, same⟩
    obtain ⟨numbered, isHit, rfl⟩ := formed
    exact ⟨numbered, ⟨shard, member, isHit⟩, rfl⟩

theorem Holds.apart {sharded : SearchShards backend arith config}
    {contents : String → Option Content} (holds : Holds sharded contents) :
    sharded.shards.Pairwise fun left right =>
      ∀ hit ∈ left.hits arith prepared filter, ∀ other ∈ right.hits arith prepared filter,
        hit.id ≠ other.id := by
  rw [List.pairwise_iff_getElem]
  rintro i j inside within before _ ⟨point, live, -, -, rfl⟩ _ ⟨other, found, -, -, rfl⟩ same
  have left := holds.placed (List.getElem?_eq_getElem inside)
    (Option.ne_none_iff_exists'.mpr ⟨point, live⟩)
  have right := holds.placed (List.getElem?_eq_getElem within)
    (Option.ne_none_iff_exists'.mpr ⟨other, found⟩)
  have sameId : point.id = other.id := same
  rw [sameId, right] at left
  omega

end Hits

/-! ## The search of both collections -/

section Search

variable {arith : SearchArithmetic} {backend : IndexBackend} {config : CollectionConfig}
  {graphs : GraphSearch backend.Graph} {query : List F32} {k efSearch : Nat} {filter : Option Filter}

theorem Shard.Unflushed.searchWithEf
    {shard : Shard (backend.withMetadata arith.toIntegerConversion) config}
    (unflushed : shard.Unflushed) (enough : k ≤ efSearch) :
    shard.store.searchWithEf arith graphs query k filter efSearch =
      shard.store.inner.search arith query k filter := by
  unfold PersistentCollection.searchWithEf
  rw [if_neg (not_lt.mpr enough)]
  split
  next isZero => rw [Collection.search, Collection.prepareQuery, if_pos isZero]; rfl
  next positive =>
    split
    next differs =>
      rw [Collection.search, Collection.prepareQuery, if_neg positive, if_pos differs]
      rfl
    next =>
      cases filter with
      | none =>
        rw [PersistentCollection.searchGraphs, unflushed.1]
        rfl
      | some filter =>
        simp only [PersistentCollection.searchFiltered, unflushed.2]

theorem config_performSingle {floats : FloatArithmetic} {requests : List Request}
    {single next : Collection} (performs : requests.foldlM (performSingle floats) single = .ok next) :
    next.config = single.config :=
  @Checked.foldlM_keeps _ _ _ _ _ (fun current => current.config = single.config) _ _ performs
    (fun _ _ _ _ kept performs => (performSingle_eq_ok performs).1.trans kept) rfl

theorem prepareQuery_config {left right : Collection} (same : left.config = right.config) :
    left.prepareQuery arith query k = right.prepareQuery arith query k := by
  unfold Collection.prepareQuery
  rw [same]

theorem ShardedCollection.search_refused {sharded : SearchShards backend arith config}
    {single : Collection} {error : Error} (sameConfig : single.config = config)
    (refused : single.prepareQuery arith query k = .error error)
    (each : ∀ shard ∈ sharded.shards,
      shard.store.searchWithEf arith graphs query k filter efSearch = .error error) :
    sharded.search arith graphs query k filter efSearch = .error error := by
  unfold Collection.prepareQuery at refused
  rw [sameConfig] at refused
  unfold search
  split
  next isZero =>
    rw [if_pos isZero] at refused
    cases refused
    rfl
  next positive =>
    rw [if_neg positive] at refused
    split
    next differs =>
      rw [if_pos differs] at refused
      cases refused
      rfl
    next =>
      obtain ⟨first, shards, isCons⟩ := List.exists_cons_of_ne_nil sharded.nonempty
      rw [isCons, List.mapM_cons, each first (isCons ▸ List.mem_cons_self)]
      rfl

end Search

section Runs

variable {arith : SearchArithmetic} {backend : IndexBackend} {config : CollectionConfig}
  {sharded after : SearchShards backend arith config} {durability : Durability} {count : Nat}
  {requests : List Request}

/-- Shards in new directories hold nothing and have no index, and writes add no index. -/
theorem holds_of_opened
    (opens : (ShardedCollection.openAll arith.toFloatArithmetic
      (backend.withMetadata arith.toIntegerConversion) config durability
      (List.replicate count fun _ => none)).2 = .ok sharded)
    (succeeds : sharded.performAll arith.toFloatArithmetic requests = .ok after) :
    Collection.new config = .ok (blank config) ∧
    Holds after (contentsAfter arith.toFloatArithmetic config (fun _ => none) requests) ∧
    after.Unflushed := by
  obtain ⟨creates, isCount, isBlank⟩ := openAll_empty opens
  have positive : config.dimension ≠ 0 := by
    intro isZero
    rw [Collection.new, if_pos isZero] at creates
    cases creates
  have counted : count ≠ 0 :=
    isCount ▸ (List.length_pos_iff.mpr sharded.nonempty).ne'
  rw [openAll_created positive counted] at opens
  cases opens
  refine ⟨creates, Holds.performAll (fun number shard isShard id => ?_) succeeds,
    ShardedCollection.Unflushed.performAll (fun shard member => ?_) succeeds⟩
  · rw [Shard.get, isBlank shard (List.mem_of_getElem? isShard), blank, PointMap.get_empty, ite_self]
    rfl
  · rw [List.eq_of_mem_replicate member]
    exact ⟨rfl, rfl⟩

/-- Sharding is invisible to a search: after any requests that all succeeded, the shards
return what one collection returns that was given the same requests, errors included;
only the sequences differ, which each shard counts for itself. -/
theorem sharded_search_refines_collection (graphs : GraphSearch backend.Graph) (query : List F32)
    {k efSearch : Nat} (filter : Option Filter) {single : Collection}
    (opens : (ShardedCollection.openAll arith.toFloatArithmetic
      (backend.withMetadata arith.toIntegerConversion) config durability
      (List.replicate count fun _ => none)).2 = .ok sharded)
    (succeeds : sharded.performAll arith.toFloatArithmetic requests = .ok after)
    (performs : singleAfter arith.toFloatArithmetic config requests = .ok single)
    (enough : k ≤ efSearch) :
    (after.search arith graphs query k filter efSearch).map (List.map unnumbered) =
      (single.search arith query k filter).map (List.map unnumbered) := by
  obtain ⟨creates, holds, unflushed⟩ := holds_of_opened opens succeeds
  rw [singleAfter, creates] at performs
  have sameConfig : single.config = config := config_performSingle performs
  have contents := contents_performSingle performs
  simp only [blank, PointMap.get_empty, Option.map_none] at contents
  cases prepares : single.prepareQuery arith query k with
  | error error =>
    rw [ShardedCollection.search_refused sameConfig prepares fun shard member => ?_,
      Collection.search, prepares]
    · rfl
    · rw [(unflushed shard member).searchWithEf enough, Collection.search,
        prepareQuery_config (shard.sameConfig.trans sameConfig.symm), prepares]
      rfl
  | ok prepared =>
    have accepted : k ≠ 0 ∧ query.length = config.dimension := by
      unfold Collection.prepareQuery at prepares
      rw [sameConfig] at prepares
      split at prepares
      · cases prepares
      next positive =>
        split at prepares
        · cases prepares
        next sized => exact ⟨positive, not_not.mp sized⟩
    have exactly : ∀ shard ∈ after.shards, ∃ best,
        shard.store.searchWithEf arith graphs query k filter efSearch = .ok best ∧
          IsBest SearchHit.rank k (shard.hits arith prepared filter) best := by
      intro shard member
      rw [(unflushed shard member).searchWithEf enough]
      exact Collection.search_eq
        ((prepareQuery_config (shard.sameConfig.trans sameConfig.symm)).trans prepares) filter
    obtain ⟨merged, searches, isMerged⟩ :=
      ShardedCollection.search_eq accepted.1 accepted.2 holds.apart exactly
    obtain ⟨best, found, isBest⟩ := Collection.search_eq prepares filter
    rw [searches, found]
    -- Without sequences both answers are the best hits of the same contents.
    have shards : IsBest SearchHit.rank k (Set.image unnumbered _) (merged.map unnumbered) :=
      isMerged.map fun _ => rfl
    have whole : IsBest SearchHit.rank k (Set.image unnumbered _) (best.map unnumbered) :=
      isBest.map fun _ => rfl
    rw [holds.image_hits] at shards
    rw [image_hits, sameConfig, contents] at whole
    exact congrArg Except.ok (shards.unique whole)

end Runs

/-- The points of two shards, one of them deleted, searched as those of one collection. -/
theorem two_shards_searched :
    let arith := SearchArithmetic.unit
    let requests : List Request := [
      .upsert [⟨"a", [⟨0x3f800000⟩], ∅⟩, ⟨"b", [⟨0x3f800000⟩], ∅⟩, ⟨"c", [⟨0x40000000⟩], ∅⟩],
      .delete ["b"]]
    ∃ (sharded after : SearchShards .flat arith lineConfig) (single : Collection),
      sharded.performAll arith.toFloatArithmetic requests = .ok after ∧
      singleAfter arith.toFloatArithmetic lineConfig requests = .ok single ∧
      (after.search arith flatSearch [⟨0x3f800000⟩] 2 none 2).map (List.map unnumbered) =
        (single.search arith [⟨0x3f800000⟩] 2 none).map (List.map unnumbered) := by
  intro arith requests
  let backend := IndexBackend.flat.withMetadata arith.toIntegerConversion
  have opens := @openAll_created arith.toFloatArithmetic backend lineConfig .sync 2 (by decide)
    (by decide)
  obtain ⟨after, succeeds⟩ := exists_ok_of_isOk (show ((ShardedCollection.created backend lineConfig
    .sync 2 (by decide)).performAll arith.toFloatArithmetic requests).isOk = true by decide +kernel)
  obtain ⟨single, performs⟩ : ∃ single,
      singleAfter arith.toFloatArithmetic lineConfig requests = .ok single := by
    rw [singleAfter, show Collection.new lineConfig = .ok (blank lineConfig) from rfl]
    exact exists_performSingle_all rfl (by decide) succeeds
  exact ⟨_, after, single, succeeds, performs,
    @sharded_search_refines_collection arith .flat lineConfig _ after .sync 2 requests flatSearch
      [⟨0x3f800000⟩] 2 2 none single opens succeeds performs (by decide)⟩

end FocalVector.Sharding
