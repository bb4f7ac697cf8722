import FocalVector.Raft.SearchRuns

/-!
Contract: a filtered search of a shard finds as many points as there are.

Nothing is assumed of the graph but that its searches return some of its nodes, none of them
twice. A round over the graph keeps the clean nodes that pass the filter; when they are fewer
than `k` the exact search of the candidates is added, so that together with the dirty points
as many hits are found as match, or `k`.

Owns: `OwnNodes`, and how many hits a filtered search returns in every state that a state
machine reaches.

Does not own: which of the matching points a graph finds.
-/

namespace FocalVector.Raft

open FocalVector.Foundation FocalVector.Engine FocalVector.Persistence

def OwnNodes (arith : SearchArithmetic) (indexes : ShardIndexes)
    (graphs : ShardGraphs indexes.Graph) : Prop :=
  ∀ dimension kind points graph, indexes.buildPreparedPoints dimension kind points = .ok graph →
    (points.map Prod.fst).Nodup → ∀ query prepared k efSearch, query.length = dimension →
      kind.prepare arith.toFloatArithmetic query = .ok prepared → 0 < k → k ≤ efSearch →
      ∃ ids, graphs.search graph query k efSearch = .ok ids ∧ ids.Nodup ∧
        ∀ id ∈ ids, id ∈ points.map Prod.fst

/-- As many hits of matching points as there are, or `k`, the best ones first. -/
structure Delivers (arith : SearchArithmetic) (collection : Collection) (prepared : List F32)
    (k : Nat) (filter : Filter) (hits : List SearchHit) : Prop where
  sorted : hits.Pairwise (SearchHit.rank · < SearchHit.rank ·)
  distinct : (hits.map SearchHit.id).Nodup
  current : ∀ hit ∈ hits,
    hit ∈ collection.hits arith prepared (fun _ => True) (some filter)
  count : hits.length = min k (collection.points.values.countP fun point =>
    filter.matchesMetadata arith.toIntegerConversion point.metadata)

section

variable {indexes : ShardIndexes} {arith : SearchArithmetic} {graphs : ShardGraphs indexes.Graph}
  {machine : SearchMachine indexes arith} {points : List StoredPoint}
  {graph : indexes.Graph} {query prepared : List F32} {filter : Filter}
  {k efSearch graphK : Nat} {collection : Collection}

/-! ## Counting hits -/

/-- The best of a set are at least as many as the items of a part of it, or `k`. -/
theorem le_length_of_isBest {items : Set SearchHit} {best part : List SearchHit}
    (isBest : IsBest SearchHit.rank k items best) (distinct : part.Nodup)
    (inside : ∀ hit ∈ part, hit ∈ items) : min k part.length ≤ best.length := by
  by_cases short : best.length < k
  · have all := (List.subperm_of_subset distinct fun hit member =>
      isBest.complete short (inside hit member)).length_le
    omega
  · omega

theorem Delivers.of_isBest {best : List SearchHit}
    (isBest : IsBest SearchHit.rank k
      (collection.hits arith prepared (fun _ => True) (some filter)) best) :
    Delivers arith collection prepared k filter best where
  sorted := isBest.sorted
  distinct := (List.nodup_map_iff_inj_on isBest.nodup).mpr fun left isLeft right isRight same =>
    Collection.eq_of_id (isBest.sound left isLeft) (isBest.sound right isRight) same
  current := isBest.sound
  count := Collection.length_of_isBest isBest

/-- Merged hits deliver when they hold `k` distinct ones or all of the exact result. -/
theorem Delivers.of_merge {found best part : List SearchHit}
    (live : ∀ hit ∈ found, hit ∈ collection.hits arith prepared (fun _ => True) (some filter))
    (isBest : IsBest SearchHit.rank k
      (collection.hits arith prepared (fun _ => True) (some filter)) best)
    (distinct : part.Nodup) (inside : ∀ hit ∈ part, hit ∈ found)
    (enough : min k best.length ≤ part.length) :
    Delivers arith collection prepared k filter (mergeHits found k) := by
  have merged := @Collection.isBest_mergeHits arith collection prepared k (some filter) _ found live
  have current : ∀ hit ∈ mergeHits found k,
      hit ∈ collection.hits arith prepared (fun _ => True) (some filter) :=
    fun hit member => live hit (merged.sound hit member)
  have whole := Delivers.of_isBest isBest
  have least := le_length_of_isBest merged distinct inside
  have most := le_length_of_isBest isBest merged.nodup current
  exact {
    sorted := merged.sorted
    distinct := (List.nodup_map_iff_inj_on merged.nodup).mpr fun left isLeft right isRight same =>
      Collection.eq_of_id (current left isLeft) (current right isRight) same
    current
    count := by
      have size := merged.size
      have bestSize := isBest.size
      rw [← whole.count]
      omega }

/-! ## The rounds over the graph -/

section Rounds

variable (own : OwnNodes arith indexes graphs) (indexed : IndexedOver machine points graph)
  (valid : ValidSearch arith machine.state.collection query k efSearch)
  (prepares : machine.state.collection.config.metric.prepare arith.toFloatArithmetic query =
    .ok prepared)
include own indexed valid prepares

/-- A round finds clean points that pass the filter, none of them twice. -/
theorem IndexedOver.ownHits (filter : Option Filter) (asked : 0 < graphK) :
    ∃ hits, machine.graphHits arith graphs graph query prepared filter efSearch graphK = .ok hits ∧
      hits.Nodup ∧ ∀ hit ∈ hits,
        hit ∈ machine.state.collection.hits arith prepared (fun _ => True) filter := by
  obtain ⟨ids, answers, once, found⟩ := own _ _ _ _ indexed.builds
    (by rw [List.map_map]; exact indexed.distinct) query prepared graphK (max efSearch graphK) valid.dimension prepares asked (le_max_right _ _)
  have each : ∀ id ∈ ids, machine.graphHit arith prepared filter id =
      .ok (cleanHit machine prepared filter id) := by
    intro id member
    obtain ⟨⟨_, vector⟩, isNode, rfl⟩ := List.mem_map.mp (found id member)
    obtain ⟨point, isPoint, same⟩ := List.mem_map.mp isNode
    cases same
    exact graphHit_eq fun clean => ⟨point, (indexed.current point clean).mp isPoint⟩
  refine ⟨_, graphHits_of_found answers each, nodup_cleanHits once, fun hit member => ?_⟩
  obtain ⟨id, -, produces⟩ := List.mem_filterMap.mp member
  obtain ⟨-, point, live, passed, rfl⟩ := cleanHit_eq_some.mp produces
  have sameId := PointMap.id_of_get live
  subst sameId
  exact ⟨point, live, trivial, passed, rfl⟩

theorem IndexedOver.ownLoop (filter : Option Filter) (graphK : Nat) :
    ∃ hits, machine.searchLoop arith graphs graph query prepared k filter efSearch graphK =
        .ok hits ∧ hits.Nodup ∧ ∀ hit ∈ hits,
          hit ∈ machine.state.collection.hits arith prepared (fun _ => True) filter := by
  induction remaining : (graphs.len graph - graphK) + (graphK - graphs.len graph)
    using Nat.strong_induction_on generalizing graphK with
  | _ remaining ih =>
    rw [ShardMachine.searchLoop]
    by_cases unasked : graphK = 0
    · rw [if_pos unasked]
      exact ⟨[], rfl, List.nodup_nil, by simp⟩
    rw [if_neg unasked]
    obtain ⟨hits, rounds, found⟩ :=
      indexed.ownHits own valid prepares filter (Nat.pos_of_ne_zero unasked)
    show ∃ hits, Except.bind (machine.graphHits arith graphs graph query prepared filter
      efSearch graphK) _ = .ok hits ∧ _
    rw [rounds]
    simp only [Except.bind]
    split
    next => exact ⟨hits, rfl, found⟩
    next goesOn =>
      rw [not_or, not_or] at goesOn
      have bounded := graphs.len_le graph
      refine ih _ ?_ _ rfl
      unfold saturatingMul
      omega

omit prepares in
theorem IndexedOver.searchGraph_delivers (filter : Filter) :
    ∃ prepared hits,
      machine.state.collection.config.metric.prepare arith.toFloatArithmetic query =
        .ok prepared ∧
      machine.searchGraph arith graphs graph query k (some (filter,
        (Engine.MetadataIndex.build arith.toIntegerConversion points).candidates filter \
          machine.dirtyIds)) efSearch = .ok hits ∧
      Delivers arith machine.state.collection prepared k filter hits := by
  obtain ⟨prepared, prepares, preparesQuery⟩ := valid.prepareQuery
  obtain ⟨hits, loops, distinct, isLive⟩ := indexed.ownLoop own valid prepares (some filter)
    (machine.graphCount arith graphs graph k (some filter) efSearch)
  obtain ⟨candidates, searchedCandidates, isCandidates⟩ := Collection.searchIds_eq preparesQuery
    ((Engine.MetadataIndex.build arith.toIntegerConversion points).candidates filter \
      machine.dirtyIds) (some filter)
  obtain ⟨dirty, searchedDirty, isDirty⟩ :=
    Collection.searchIds_eq preparesQuery machine.dirtyIds (some filter)
  obtain ⟨best, -, isBest⟩ := Collection.search_eq preparesQuery (some filter)
  have isSearch : ∀ more, machine.moreHits arith query k (some (filter,
      (Engine.MetadataIndex.build arith.toIntegerConversion points).candidates filter \
        machine.dirtyIds)) hits = .ok more →
      machine.searchGraph arith graphs graph query k (some (filter,
        (Engine.MetadataIndex.build arith.toIntegerConversion points).candidates filter \
          machine.dirtyIds)) efSearch = .ok (mergeHits (hits ++ more ++ dirty) k) := by
    intro more adds
    unfold ShardMachine.searchGraph
    simp only [Option.map_some]
    show Except.bind (machine.state.collection.config.metric.prepare _ query) _ = _
    rw [prepares]
    show Except.bind (machine.searchLoop arith graphs graph query prepared k _ efSearch _) _ = _
    rw [loops]
    show Except.bind (machine.moreHits arith query k _ hits) _ = _
    rw [adds]
    show Except.bind (machine.state.collection.searchIds arith query k machine.dirtyIds _) _ = _
    rw [searchedDirty]
    rfl
  have dirtyLive : ∀ hit ∈ dirty,
      hit ∈ machine.state.collection.hits arith prepared (fun _ => True) (some filter) :=
    fun hit member => Collection.mem_hits_of_chosen (isDirty.sound hit member)
  refine ⟨prepared, ?_⟩
  by_cases short : hits.length < k
  · -- The graph gave too little: the exact result is among the candidates and the dirty points.
    refine ⟨_, prepares, isSearch candidates ?_, Delivers.of_merge ?_ isBest isBest.nodup ?_ ?_⟩
    · simp only [ShardMachine.moreHits]
      rw [if_pos short, searchedCandidates]
    · intro hit member
      rcases List.mem_append.mp member with inside | isDirtyHit
      · rcases List.mem_append.mp inside with isFound | isCandidate
        · exact isLive hit isFound
        · exact Collection.mem_hits_of_chosen (isCandidates.sound hit isCandidate)
      · exact dirtyLive hit isDirtyHit
    · intro hit isHit
      by_cases clean : hit.id ∈ machine.dirtyIds
      · obtain ⟨point, live, -, passed, rfl⟩ := isBest.sound hit isHit
        exact List.mem_append_right _ (isBest.mem_of_subset isDirty
          (fun _ => Collection.mem_hits_of_chosen) ⟨point, live, clean, passed, rfl⟩ isHit)
      · exact List.mem_append_left _ (List.mem_append_right _
          (indexed.mem_of_candidates isCandidates isBest isHit clean))
    · exact min_le_right _ _
  · refine ⟨_, prepares, isSearch [] ?_, Delivers.of_merge ?_ isBest distinct ?_ ?_⟩
    · simp only [ShardMachine.moreHits]
      rw [if_neg short]
    · intro hit member
      rw [List.append_nil] at member
      exact (List.mem_append.mp member).elim (isLive hit) (dirtyLive hit)
    · exact fun hit member => List.mem_append_left _ (List.mem_append_left _ member)
    · exact (min_le_left _ _).trans (not_lt.mp short)

end Rounds

/-! ## Searching -/

theorem Fresh.searchIndexed_delivers (own : OwnNodes arith indexes graphs) (fresh : Fresh machine)
    (valid : ValidSearch arith machine.state.collection query k efSearch) (filter : Filter) :
    ∃ prepared hits,
      machine.state.collection.config.metric.prepare arith.toFloatArithmetic query =
        .ok prepared ∧
      machine.searchIndexed arith graphs query k (some filter) efSearch = .ok hits ∧
      Delivers arith machine.state.collection prepared k filter hits := by
  obtain ⟨prepared, prepares, preparesQuery⟩ := valid.prepareQuery
  obtain ⟨best, searched, isBest⟩ := Collection.search_eq preparesQuery (some filter)
  have exactly : ∃ prepared hits,
      machine.state.collection.config.metric.prepare arith.toFloatArithmetic query =
        .ok prepared ∧
      machine.state.collection.search arith query k (some filter) = .ok hits ∧
      Delivers arith machine.state.collection prepared k filter hits :=
    ⟨prepared, best, prepares, searched, .of_isBest isBest⟩
  unfold ShardMachine.searchIndexed
  rcases fresh.indexed with ⟨noIndex, -⟩ | ⟨points, graph, indexed⟩
  · rw [noIndex]
    exact exactly
  · rw [indexed.index, indexed.metadataIndex]
    simp only
    split
    · rw [indexed.searchCandidates_eq valid filter]
      exact exactly
    · exact indexed.searchGraph_delivers own valid filter

theorem searchIndexed_eq_searchGraph {metadataIndex : Engine.MetadataIndex} {candidates : IdSet}
    (indexed : machine.index = some graph) (metadata : machine.metadataIndex = some metadataIndex)
    (isCandidates : metadataIndex.candidates filter \ machine.dirtyIds = candidates)
    (many : max (saturatingMul k 16) 256 < candidates.size)
    (dense : graphs.len graph ≤ saturatingMul candidates.size 4) :
    machine.searchIndexed arith graphs query k (some filter) efSearch =
      machine.searchGraph arith graphs graph query k (some (filter, candidates)) efSearch := by
  unfold ShardMachine.searchIndexed
  rw [indexed, metadata]
  simp only [isCandidates]
  rw [if_neg (by omega)]

/-- In every state that a state machine reaches, from any directory, over graphs that return
any of their own nodes: once the indexes are refreshed, a filtered search returns as many hits
of matching points as there are, or `k`, each with the current score, metadata and sequence,
and a search that refreshes them first does so exactly when the refresh can build them. -/
theorem filtered_search_delivers_iff (own : OwnNodes arith indexes graphs) (json : SerdeJson)
    (config : CollectionConfig) (disk : Directory) {commands : List MachineCommand}
    (reached : ((⟨disk, none⟩ : MachineState (indexes.withMetadata
      arith.toIntegerConversion)).run arith.toFloatArithmetic json config commands).machine =
        some machine)
    (valid : ValidSearch arith machine.state.collection query k efSearch) (filter : Filter) :
    ∃ prepared,
      machine.state.collection.config.metric.prepare arith.toFloatArithmetic query =
        .ok prepared ∧
      (∃ hits, machine.searchIndexed arith graphs query k (some filter) efSearch = .ok hits ∧
        Delivers arith machine.state.collection prepared k filter hits) ∧
      ((∃ hits, machine.searchWithEf arith graphs query k (some filter) efSearch = .ok hits ∧
        Delivers arith machine.state.collection prepared k filter hits) ↔
          RefreshSucceeds machine) := by
  have fresh := fresh_of_run indexes arith reached
  obtain ⟨prepared, hits, prepares, searched, delivers⟩ :=
    fresh.searchIndexed_delivers own valid filter
  refine ⟨prepared, prepares, ⟨hits, searched, delivers⟩, ?_⟩
  unfold ShardMachine.searchWithEf
  rw [if_neg (not_lt.mpr valid.enough)]
  rcases fresh.refreshIndexIfNeeded_cases with
    ⟨succeeds, refreshed, refreshes, sameState, stillFresh⟩ | ⟨fails, error, refuses⟩
  · rw [refreshes]
    obtain ⟨again, found, preparesAgain, searchedAgain, deliversAgain⟩ :=
      stillFresh.searchIndexed_delivers own (sameState.symm ▸ valid) filter
    rw [sameState] at preparesAgain deliversAgain
    cases prepares.symm.trans preparesAgain
    exact ⟨fun _ => succeeds, fun _ => ⟨found, searchedAgain, deliversAgain⟩⟩
  · rw [refuses]
    exact ⟨nofun, fun succeeds => absurd succeeds fails⟩

end

/-! ## Graphs that answer with one node -/

/-- A graph whose first node has no links. -/
def ShardGraphs.unlinked : ShardGraphs ShardIndexes.scan.Graph :=
  { ShardGraphs.scan .unit with
    search := fun graph _ _ _ => .ok (graph.1.nodes.head?.toList.map Prod.fst) }

theorem ownNodes_unlinked (arith : SearchArithmetic) : OwnNodes arith .scan .unlinked := by
  intro dimension kind points graph builds distinct query prepared k efSearch _ _ _ _
  simp only [ShardIndexes.scan] at builds
  split at builds
  · cases builds
    refine ⟨_, rfl, ?_, fun id member => ?_⟩
    · cases points <;> simp
    · cases points with
      | nil => exact member
      | cons first rest => exact List.mem_cons.mpr (.inl (List.mem_singleton.mp member))
  · cases builds

def flaggedPoint (n : Nat) : UpsertPoint :=
  ⟨String.ofList [Char.ofNat (n + 256)], [⟨0x3f800000⟩],
    Std.ExtTreeMap.ofList [("kept", Value.boolean (decide (0 < n)))]⟩

def flaggedEntry : Entry :=
  ⟨⟨⟨1, 1⟩, 1⟩, .normal (.upsert "c" 1 ((List.range 258).map flaggedPoint))⟩

/-- All but the first of 258 indexed points match. The graph answers with the first, however many
nodes it is asked for, and the search falls back to the candidates. -/
theorem unlinked_points_are_delivered :
    let filter : Filter := .eq "kept" (.boolean true)
    ∃ machine graph candidates, scanRun .unit lineConfig [.restart,
        .perform (.apply [flaggedEntry]), .perform (.buildSnapshot 7 1),
        .perform (.apply [upsertEntry 2 ["p"]])] = some machine ∧
      machine.index = some graph ∧ candidates.size = 257 ∧
      machine.searchIndexed .unit .unlinked [⟨0x3f800000⟩] 2 (some filter) 2 =
        machine.searchGraph .unit .unlinked graph [⟨0x3f800000⟩] 2 (some (filter, candidates)) 2 ∧
      ∃ prepared hits,
        machine.searchWithEf .unit .unlinked [⟨0x3f800000⟩] 2 (some filter) 2 = .ok hits ∧
        Delivers .unit machine.state.collection prepared 2 filter hits := by
  intro filter
  let arith := SearchArithmetic.unit.toFloatArithmetic
  let indexes := ShardIndexes.scan.withMetadata SearchArithmetic.unit.toIntegerConversion
  let first : ShardMachine indexes :=
    (ShardMachine.created indexes lineConfig).afterEntry arith flaggedEntry
  let points := first.state.collection.snapshotStoredPoints
  let dirty : IdSet :=
    (∅ : IdSet).insertMany (changedIds arith first.state (upsertEntry 2 ["p"]))
  let candidates := MetadataIndex.candidates
    (MetadataIndex.build SearchArithmetic.unit.toIntegerConversion points) filter \ dirty
  have small : ∀ record ∈ recordsOf arith (.initial lineConfig) [flaggedEntry],
      4 * (JsonText.appliedRecord.serialize record).weight ≤ stateJournal.format.maxPayload := by
    decide +kernel
  -- One evaluation of the 258 points serves all of these.
  obtain ⟨short, count, finite, few, size⟩ : (JsonText.stateSnapshot.serialize
        (first.state.snapshot first.config)).weight ≤ 2 ^ 60 ∧
      points.length = 258 ∧
      (∀ point ∈ points, ∀ component ∈ point.vector, component.isFinite = true) ∧
      dirty.size < minReindexedPoints ∧ candidates.size = 257 := by
    decide +kernel
  obtain ⟨disk, runs, -⟩ :=
    @run_applied arith indexes lineConfig [flaggedEntry] first (by decide) rfl small
  have fits : (points.map fun point => (point.id, point.vector)).length ≤ usizeMax := by
    rw [List.length_map, count]
    decide
  obtain ⟨built, builds⟩ := (fresh_of_run .scan .unit (congrArg MachineState.machine
    runs)).buildIndexes_iff.mpr ⟨finite, _, ShardIndexes.scan_eq_ok fits _ _⟩
  obtain ⟨stored, reached⟩ := @run_indexed arith indexes lineConfig [flaggedEntry] first (by decide)
    rfl small [upsertEntry 2 ["p"]] 7 1 built builds short (by decide +kernel)
  obtain ⟨len, metadata⟩ := len_of_buildIndexes builds
  generalize isMachine : List.foldl _ _ _ = machine at reached
  have sameConfig : machine.state.collection.config = lineConfig := by
    rw [(fresh_of_run .scan .unit reached).sameConfig, ← isMachine]
    rfl
  have valid : ValidSearch .unit machine.state.collection [⟨0x3f800000⟩] 2 2 :=
    ⟨by decide, le_rfl, by rw [sameConfig]; rfl, _, by rw [sameConfig]; rfl⟩
  have indexed : machine.index = some built.1 ∧ machine.metadataIndex = some built.2 ∧
      machine.dirtyIds = dirty := by
    rw [← isMachine]
    exact ⟨rfl, rfl, rfl⟩
  have current : machine.beginRefresh = none :=
    ShardMachine.beginRefresh_of_few (by rw [indexed.2.2]; exact few)
  obtain ⟨prepared, -, -, delivers⟩ := filtered_search_delivers_iff (ownNodes_unlinked .unit)
    .spelled lineConfig _ reached valid filter
  obtain ⟨hits, searched, isDelivered⟩ := delivers.mpr (.inl current)
  refine ⟨machine, built.1, candidates, reached, indexed.1, size, ?_, prepared, hits, searched,
    isDelivered⟩
  refine searchIndexed_eq_searchGraph indexed.1 indexed.2.1 (by rw [← metadata, indexed.2.2]) ?_ ?_
  · rw [size]
    decide
  · rw [size]
    exact (len.trans count).trans_le (by decide)

/-- A point whose normalised vector is infinite makes every filtered search fail from the next
refresh on, although it matches. -/
theorem infinite_vector_delivers_nothing :
    ∃ machine, scanRun .smallest ⟨1, .cosine, by decide⟩
        [.restart, .perform (.apply overflowingLog)] = some machine ∧
      ValidSearch .smallest machine.state.collection [⟨1⟩] 1 1 ∧
      (machine.state.collection.points.values.countP fun point =>
        Filter.matchAll.matchesMetadata SearchArithmetic.smallest.toIntegerConversion
          point.metadata) = 1 ∧
      ∃ error, machine.searchWithEf .smallest (.scan .smallest) [⟨1⟩] 1 (some .matchAll) 1 =
        .error error := by
  obtain ⟨machine, reached, isMachine, valid⟩ := scanRun_overflowingLog
  have one : (machine.state.collection.points.values.countP fun point =>
      Filter.matchAll.matchesMetadata SearchArithmetic.smallest.toIntegerConversion
        point.metadata) = 1 := by
    rw [← isMachine]
    decide +kernel
  have fails : (machine.searchWithEf .smallest (.scan .smallest) [⟨1⟩] 1 (some .matchAll) 1).isOk =
      false := by
    rw [← isMachine]
    decide +kernel
  exact ⟨machine, reached, valid, one, exists_error_of_not_isOk fails⟩

end FocalVector.Raft
