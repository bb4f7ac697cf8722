import FocalVector.Engine.GraphSearch
import FocalVector.Engine.MetadataIndex
import FocalVector.Raft.StateMachine
import Mathlib.Data.List.Count
import Mathlib.Data.List.ReduceOption

/-!
Contract: searching a replicated shard.

The graph and the metadata index of a shard are built from its points now and then,
and the ids that changed since are dirty. A search first refreshes the indexes when
many ids are dirty. It then asks the graph for as many more nodes as there are dirty
ids, and with a filter for twice as many again until enough of them pass, and adds
the dirty points from an exact search.

Owns: the search of a shard, and its exactness over a graph that returns its best
nodes and was built from points that agree with the live ones.

Does not own: why the indexes of a running shard are of that kind.
-/

namespace FocalVector.Raft

open FocalVector.Foundation FocalVector.Engine FocalVector.Persistence

def ShardIndexes.withMetadata (indexes : ShardIndexes) (conversion : IntegerConversion) :
    ShardIndexes :=
  { indexes with
    MetadataIndex := Engine.MetadataIndex
    buildMetadata := Engine.MetadataIndex.build conversion }

abbrev SearchMachine (indexes : ShardIndexes) (arith : SearchArithmetic) : Type :=
  ShardMachine (indexes.withMetadata arith.toIntegerConversion)

/-- The graphs of a shard as searches use them; a length is a machine word. -/
structure ShardGraphs (Graph : Type) extends GraphSearch Graph where
  len : Graph → Nat
  len_le : ∀ graph, len graph ≤ usizeMax

/-! ## The search -/

section Search

variable {indexes : ShardIndexes} (arith : SearchArithmetic) (graphs : ShardGraphs indexes.Graph)

namespace ShardMachine

/-- The loop body of `search_with_ef` over the nodes that the graph returned. -/
def graphHit (machine : SearchMachine indexes arith) (prepared : List F32)
    (filter : Option Filter) (id : String) : Result (Option SearchHit) :=
  if id ∈ machine.dirtyIds then
    .ok none
  else
    match machine.state.collection.points.get id with
    | none => .error (.corruptStorage s!"HNSW point {id} is missing from the Raft state machine")
    | some point =>
      if passes arith.toIntegerConversion filter point.metadata then
        .ok (some (point.hit arith machine.state.collection.config.metric prepared))
      else
        .ok none

/-- One round of the loop over `graph_k`. -/
def graphHits (machine : SearchMachine indexes arith) (index : indexes.Graph)
    (query prepared : List F32) (filter : Option Filter) (efSearch graphK : Nat) :
    Result (List SearchHit) := do
  let found ← graphs.search index query graphK (max efSearch graphK)
  let hits ← found.mapM (machine.graphHit arith prepared filter)
  return hits.reduceOption

/-- The loop over `graph_k`. -/
def searchLoop (machine : SearchMachine indexes arith) (index : indexes.Graph)
    (query prepared : List F32) (k : Nat) (filter : Option Filter) (efSearch graphK : Nat) :
    Result (List SearchHit) :=
  if graphK = 0 then
    .ok []
  else do
    let hits ← machine.graphHits arith graphs index query prepared filter efSearch graphK
    if filter.isNone ∨ k ≤ hits.length ∨ graphK = graphs.len index then
      return hits
    else
      searchLoop machine index query prepared k filter efSearch
        (min (saturatingMul graphK 2) (graphs.len index))
termination_by (graphs.len index - graphK) + (graphK - graphs.len index)
decreasing_by
  have bounded := graphs.len_le index
  unfold saturatingMul
  omega

def graphCount (machine : SearchMachine indexes arith) (index : indexes.Graph) (k : Nat)
    (filter : Option Filter) (efSearch : Nat) : Nat :=
  let rerank := if graphs.vectorStorage index = .scalarInt8 then saturatingMul k 4 else k
  let wanted := if filter.isSome then max efSearch (saturatingMul rerank 8) else rerank
  min (saturatingAdd wanted machine.dirtyIds.size) (graphs.len index)

/-- The candidates, where a filter let too few nodes pass. -/
def moreHits (machine : SearchMachine indexes arith) (query : List F32) (k : Nat)
    (filtered : Option (Filter × IdSet)) (hits : List SearchHit) : Result (List SearchHit) :=
  match filtered with
  | some (filter, candidates) =>
    if hits.length < k then
      machine.state.collection.searchIds arith query k candidates (some filter)
    else
      .ok []
  | none => .ok []

/-- The part of `search_with_ef` that asks the graph. -/
def searchGraph (machine : SearchMachine indexes arith) (index : indexes.Graph)
    (query : List F32) (k : Nat) (filtered : Option (Filter × IdSet)) (efSearch : Nat) :
    Result (List SearchHit) := do
  let filter := filtered.map Prod.fst
  let prepared ← machine.state.collection.config.metric.prepare arith.toFloatArithmetic query
  let hits ← machine.searchLoop arith graphs index query prepared k filter efSearch
    (machine.graphCount arith graphs index k filter efSearch)
  let more ← machine.moreHits arith query k filtered hits
  let dirty ← machine.state.collection.searchIds arith query k machine.dirtyIds filter
  return mergeHits (hits ++ more ++ dirty) k

/-- `search_with_ef` once the indexes were refreshed. -/
def searchIndexed (machine : SearchMachine indexes arith) (query : List F32) (k : Nat)
    (filter : Option Filter) (efSearch : Nat) : Result (List SearchHit) :=
  match machine.index with
  | none => machine.state.collection.search arith query k filter
  | some index =>
    match filter with
    | none => machine.searchGraph arith graphs index query k none efSearch
    | some filter =>
      match machine.metadataIndex with
      | none => machine.state.collection.search arith query k (some filter)
      | some metadataIndex => do
          let candidates := MetadataIndex.candidates metadataIndex filter \ machine.dirtyIds
          if saturatingMul candidates.size 4 < graphs.len index ∨
              candidates.size ≤ max (saturatingMul k 16) 256 then
            let hits ← machine.state.collection.searchIds arith query k candidates (some filter)
            let dirty ← machine.state.collection.searchIds arith query k machine.dirtyIds
              (some filter)
            return mergeHits (hits ++ dirty) k
          else
            machine.searchGraph arith graphs index query k (some (filter, candidates)) efSearch

end ShardMachine

/-- `refresh_index_if_needed`, without anything happening meanwhile. -/
def ShardMachine.refreshIndexIfNeeded (machine : ShardMachine indexes) :
    Result (ShardMachine indexes) :=
  match machine.beginRefresh with
  | none => .ok machine
  | some (sequence, points) => machine.finishRefresh sequence points

def ShardMachine.searchWithEf (machine : SearchMachine indexes arith) (query : List F32) (k : Nat)
    (filter : Option Filter) (efSearch : Nat) : Result (List SearchHit) :=
  if efSearch < k then
    .error (.invalidQuery "ef_search must be at least k")
  else do
    let machine ← machine.refreshIndexIfNeeded
    machine.searchIndexed arith graphs query k filter efSearch

end Search

/-! ## Indexes that agree with the live points -/

structure BuildsNodes (indexes : ShardIndexes) (graphs : ShardGraphs indexes.Graph)
    (dimension : indexes.Graph → Nat) (metric : indexes.Graph → Metric)
    (nodes : indexes.Graph → List (String × List F32)) : Prop where
  built : ∀ size kind points graph, indexes.buildPreparedPoints size kind points = .ok graph →
    (nodes graph).Perm points ∧ dimension graph = size ∧ metric graph = kind ∧
      graphs.len graph = points.length

section Exact

variable {indexes : ShardIndexes} {arith : SearchArithmetic} {graphs : ShardGraphs indexes.Graph}
  {dimension : indexes.Graph → Nat} {metric : indexes.Graph → Metric}

/-- The indexes were built from points that agree with the live ones, but for the
dirty ids. -/
structure IndexedOver (machine : SearchMachine indexes arith) (points : List StoredPoint)
    (graph : indexes.Graph) : Prop where
  index : machine.index = some graph
  metadataIndex : machine.metadataIndex =
    some (Engine.MetadataIndex.build arith.toIntegerConversion points)
  builds : indexes.buildPreparedPoints machine.state.collection.config.dimension
    machine.state.collection.config.metric
    (points.map fun point => (point.id, point.vector)) = .ok graph
  distinct : (points.map StoredPoint.id).Nodup
  current : ∀ point, point.id ∉ machine.dirtyIds →
    (point ∈ points ↔ machine.state.collection.points.get point.id = some point)

def aheadOf (arith : SearchArithmetic) (metric : Metric) (prepared : List F32)
    (points : List StoredPoint) (rank : Int ×ₗ String) : Nat :=
  points.countP fun point => (point.hit arith metric prepared).rank < rank

variable {machine : SearchMachine indexes arith} {points : List StoredPoint}
  {graph : indexes.Graph} {query prepared : List F32} {filter : Option Filter}
  {k efSearch graphK : Nat}

theorem lt_of_aheadOf_lt {kind : Metric} {left right : Int ×ₗ String}
    (fewer : aheadOf arith kind prepared points left < aheadOf arith kind prepared points right) :
    left < right := by
  by_contra notBefore
  have more : aheadOf arith kind prepared points right ≤ aheadOf arith kind prepared points left :=
    List.countP_mono_left fun point _ before => by
      simp only [decide_eq_true_eq] at before ⊢
      exact lt_of_lt_of_le before (not_lt.mp notBefore)
  omega

theorem aheadOf_lt_length {kind : Metric} {point : StoredPoint} (member : point ∈ points) :
    aheadOf arith kind prepared points (point.hit arith kind prepared).rank < points.length :=
  List.countP_lt_length_iff.mpr ⟨point, member, by simp⟩

/-- A clean indexed point that passes the filter, with fewer than `graphK` points
ahead of it. -/
def FoundWithin (machine : SearchMachine indexes arith) (points : List StoredPoint)
    (prepared : List F32) (filter : Option Filter) (graphK : Nat) (hit : SearchHit) : Prop :=
  ∃ point ∈ points, point.id ∉ machine.dirtyIds ∧
    passes arith.toIntegerConversion filter point.metadata = true ∧
    hit = point.hit arith machine.state.collection.config.metric prepared ∧
    aheadOf arith machine.state.collection.config.metric prepared points hit.rank < graphK

theorem FoundWithin.live (indexed : IndexedOver machine points graph) {hit : SearchHit}
    (found : FoundWithin machine points prepared filter graphK hit) :
    hit ∈ machine.state.collection.hits arith prepared (fun _ => True) filter := by
  obtain ⟨point, member, clean, passed, rfl, -⟩ := found
  exact ⟨point, (indexed.current point clean).mp member, trivial, passed, rfl⟩

def cleanHit (machine : SearchMachine indexes arith) (prepared : List F32)
    (filter : Option Filter) (id : String) : Option SearchHit :=
  if id ∈ machine.dirtyIds then none
  else ((machine.state.collection.points.get id).filter fun point =>
    passes arith.toIntegerConversion filter point.metadata).map
      (StoredPoint.hit arith machine.state.collection.config.metric prepared)

theorem cleanHit_eq_some {id : String} {hit : SearchHit} :
    cleanHit machine prepared filter id = some hit ↔ id ∉ machine.dirtyIds ∧ ∃ point,
      machine.state.collection.points.get id = some point ∧
      passes arith.toIntegerConversion filter point.metadata = true ∧
      point.hit arith machine.state.collection.config.metric prepared = hit := by
  unfold cleanHit
  by_cases dirty : id ∈ machine.dirtyIds
  · simp [dirty]
  · simp [dirty, Option.filter_eq_some_iff, and_assoc]

theorem graphHit_eq {id : String} (live : id ∉ machine.dirtyIds →
      ∃ point, machine.state.collection.points.get id = some point) :
    machine.graphHit arith prepared filter id = .ok (cleanHit machine prepared filter id) := by
  unfold ShardMachine.graphHit cleanHit
  by_cases dirty : id ∈ machine.dirtyIds
  · rw [if_pos dirty, if_pos dirty]
  · obtain ⟨point, isLive⟩ := live dirty
    rw [if_neg dirty, if_neg dirty, isLive]
    by_cases passed : passes arith.toIntegerConversion filter point.metadata = true
    · simp [passed]
    · simp [passed]

theorem graphHits_of_found {index : indexes.Graph} {ids : List String}
    (answers : graphs.search index query graphK (max efSearch graphK) = .ok ids)
    (each : ∀ id ∈ ids, machine.graphHit arith prepared filter id =
      .ok (cleanHit machine prepared filter id)) :
    machine.graphHits arith graphs index query prepared filter efSearch graphK =
      .ok (ids.filterMap (cleanHit machine prepared filter)) := by
  unfold ShardMachine.graphHits
  show Except.bind (graphs.search index query graphK (max efSearch graphK)) _ = _
  rw [answers]
  show Except.bind (ids.mapM (machine.graphHit arith prepared filter)) _ = _
  rw [Checked.mapM_of_forall each]
  show Except.ok (ids.map (cleanHit machine prepared filter)).reduceOption = _
  rw [List.reduceOption, List.filterMap_map]
  rfl

theorem nodup_cleanHits {ids : List String} (once : ids.Nodup) :
    (ids.filterMap (cleanHit machine prepared filter)).Nodup := by
  refine once.filterMap fun left right hit isLeft isRight => ?_
  obtain ⟨-, point, live, -, rfl⟩ := cleanHit_eq_some.mp isLeft
  obtain ⟨-, other, isLive, -, same⟩ := cleanHit_eq_some.mp isRight
  rw [← PointMap.id_of_get live, ← PointMap.id_of_get isLive]
  exact (congrArg SearchHit.id same).symm

variable {perfect : PerfectSearch arith graphs.toGraphSearch dimension metric}

section Rounds

variable (keeps : BuildsNodes indexes graphs dimension metric perfect.nodes)
  (indexed : IndexedOver machine points graph)
  (sized : query.length = machine.state.collection.config.dimension)
  (prepares : machine.state.collection.config.metric.prepare arith.toFloatArithmetic query =
    .ok prepared)
include keeps indexed sized prepares

theorem IndexedOver.search_eq {graphK bound : Nat} (asked : 0 < graphK) (enough : graphK ≤ bound) :
    ∃ ids, graphs.search graph query graphK bound = .ok ids ∧ ids.Nodup ∧ ∀ id, id ∈ ids ↔
      ∃ point ∈ points, point.id = id ∧ aheadOf arith machine.state.collection.config.metric
        prepared points (point.hit arith machine.state.collection.config.metric prepared).rank <
          graphK := by
  obtain ⟨isNodes, sameDimension, sameMetric, -⟩ := keeps.built _ _ _ _ indexed.builds
  have distinct : ((perfect.nodes graph).map Prod.fst).Nodup := by
    refine ((isNodes.map Prod.fst).nodup_iff).mpr ?_
    rw [List.map_map]
    exact indexed.distinct
  rw [← sameMetric] at prepares ⊢
  obtain ⟨ids, answers, once, found⟩ := perfect.search_eq distinct asked enough
    (sized.trans sameDimension.symm) prepares
  have ahead : ∀ rank, perfect.ahead graph prepared rank =
      aheadOf arith (metric graph) prepared points rank := by
    intro rank
    unfold PerfectSearch.ahead aheadOf
    rw [isNodes.countP_eq, List.countP_map]
    rfl
  refine ⟨ids, answers, once, fun id => (found id).trans ⟨?_, ?_⟩⟩
  · rintro ⟨vector, isNode, few⟩
    obtain ⟨point, member, same⟩ := List.mem_map.mp (isNodes.mem_iff.mp isNode)
    cases same
    exact ⟨point, member, rfl, ahead _ ▸ few⟩
  · rintro ⟨point, member, rfl, few⟩
    exact ⟨point.vector, isNodes.mem_iff.mpr (List.mem_map_of_mem member), (ahead _).symm ▸ few⟩

/-- A round finds the clean points that pass the filter, none of them twice. -/
theorem IndexedOver.graphHits_eq (filter : Option Filter) (efSearch : Nat) {graphK : Nat}
    (asked : 0 < graphK) :
    ∃ hits, machine.graphHits arith graphs graph query prepared filter efSearch graphK = .ok hits ∧
      hits.Nodup ∧ ∀ hit, hit ∈ hits ↔ FoundWithin machine points prepared filter graphK hit := by
  obtain ⟨ids, answers, once, found⟩ :=
    indexed.search_eq keeps sized prepares asked (le_max_right efSearch graphK)
  have each : ∀ id ∈ ids, machine.graphHit arith prepared filter id =
      .ok (cleanHit machine prepared filter id) := by
    intro id member
    obtain ⟨point, isPoint, rfl, -⟩ := (found id).mp member
    exact graphHit_eq fun clean => ⟨point, (indexed.current point clean).mp isPoint⟩
  refine ⟨_, graphHits_of_found answers each, nodup_cleanHits once, fun hit => ?_⟩
  rw [List.mem_filterMap]
  constructor
  · rintro ⟨id, member, produces⟩
    obtain ⟨clean, point, live, passed, rfl⟩ := cleanHit_eq_some.mp produces
    obtain ⟨other, isPoint, rfl, few⟩ := (found id).mp member
    have isLive := (indexed.current other clean).mp isPoint
    cases live.symm.trans isLive
    exact ⟨point, isPoint, clean, passed, rfl, few⟩
  · rintro ⟨point, isPoint, clean, passed, rfl, few⟩
    exact ⟨point.id, (found point.id).mpr ⟨point, isPoint, rfl, few⟩,
      cleanHit_eq_some.mpr ⟨clean, point, (indexed.current point clean).mp isPoint, passed, rfl⟩⟩

/-- The loop ends with the points found within some number of nodes: those it was
started with when there is no filter, and otherwise so many that `k` points passed or
nothing is left. -/
theorem IndexedOver.searchLoop_eq (k : Nat) (filter : Option Filter) (efSearch : Nat) {graphK : Nat}
    (within : graphK ≤ graphs.len graph) (asked : graphK = 0 → graphs.len graph = 0) :
    ∃ hits reached, machine.searchLoop arith graphs graph query prepared k filter efSearch graphK =
        .ok hits ∧ hits.Nodup ∧
      (∀ hit, hit ∈ hits ↔ FoundWithin machine points prepared filter reached hit) ∧
      (filter = none → reached = graphK) ∧
      (filter ≠ none → k ≤ hits.length ∨ reached = graphs.len graph) := by
  induction remaining : graphs.len graph - graphK using Nat.strong_induction_on
    generalizing graphK with
  | _ remaining ih =>
    rw [ShardMachine.searchLoop]
    by_cases unasked : graphK = 0
    · rw [if_pos unasked]
      refine ⟨[], graphK, rfl, List.nodup_nil, fun hit => ⟨nofun, ?_⟩, fun _ => rfl, fun _ => ?_⟩
      · rintro ⟨point, -, -, -, -, few⟩
        omega
      · exact .inr (unasked.trans (asked unasked).symm)
    rw [if_neg unasked]
    obtain ⟨hits, rounds, distinct, found⟩ :=
      indexed.graphHits_eq keeps sized prepares filter efSearch (Nat.pos_of_ne_zero unasked)
    show ∃ hits reached, Except.bind (machine.graphHits arith graphs graph query prepared filter
      efSearch graphK) _ = .ok hits ∧ _
    rw [rounds]
    simp only [Except.bind]
    split
    next stops =>
      refine ⟨hits, graphK, rfl, distinct, found, fun _ => rfl, fun filtered => ?_⟩
      exact stops.resolve_left (by simpa using filtered)
    next goesOn =>
      rw [not_or, not_or] at goesOn
      have bounded := graphs.len_le graph
      have grows : graphK < min (saturatingMul graphK 2) (graphs.len graph) := by
        unfold saturatingMul
        omega
      obtain ⟨more, reached, loops, rest⟩ := ih
        (graphs.len graph - min (saturatingMul graphK 2) (graphs.len graph)) (by omega)
        (min_le_right _ _) (by omega) rfl
      refine ⟨more, reached, loops, rest.1, rest.2.1, fun unfiltered => ?_, rest.2.2.2⟩
      exact absurd (Option.isNone_iff_eq_none.mpr unfiltered) goesOn.1

end Rounds

/-! ## Covering the exact result -/

section Covers

variable {best : List SearchHit} {hit : SearchHit} (indexed : IndexedOver machine points graph)
include indexed

theorem IndexedOver.length_dirty_le :
    (points.filter fun point => point.id ∈ machine.dirtyIds).length ≤ machine.dirtyIds.size := by
  have distinct : ((points.filter fun point => point.id ∈ machine.dirtyIds).map
      StoredPoint.id).Nodup := indexed.distinct.sublist (List.filter_sublist.map _)
  have within : (points.filter fun point => point.id ∈ machine.dirtyIds).map StoredPoint.id ⊆
      machine.dirtyIds.toList := by
    intro id member
    obtain ⟨point, isPoint, rfl⟩ := List.mem_map.mp member
    exact Std.ExtTreeSet.mem_toList.mpr (by simpa using (List.mem_filter.mp isPoint).2)
  have counted := (List.subperm_of_subset distinct within).length_le
  rwa [List.length_map, Std.ExtTreeSet.length_toList] at counted

section

variable
  (isBest : IsBest SearchHit.rank k (machine.state.collection.hits arith prepared (fun _ => True) none) best)
  (isHit : hit ∈ best)

include isBest isHit

/-- Fewer than `k` clean nodes are ahead of one of the `k` best hits. -/
theorem IndexedOver.clean_ahead_lt :
    ((points.filter fun point => !decide (point.id ∈ machine.dirtyIds)).countP fun point =>
      (point.hit arith machine.state.collection.config.metric prepared).rank < hit.rank) < k := by
  rw [List.countP_eq_length_filter,
    ← List.length_map (StoredPoint.hit arith machine.state.collection.config.metric prepared)]
  refine isBest.ahead_lt isHit (List.Nodup.of_map SearchHit.id ?_) ?_
  · rw [List.map_map]
    exact indexed.distinct.sublist ((List.filter_sublist.trans List.filter_sublist).map _)
  · intro other member
    obtain ⟨point, isAhead, rfl⟩ := List.mem_map.mp member
    rw [List.mem_filter, List.mem_filter] at isAhead
    have clean : point.id ∉ machine.dirtyIds := by simpa using isAhead.1.2
    exact ⟨⟨point, (indexed.current point clean).mp isAhead.1.1, trivial, rfl, rfl⟩,
      by simpa using isAhead.2⟩

theorem IndexedOver.aheadOf_lt :
    aheadOf arith machine.state.collection.config.metric prepared points hit.rank <
      k + machine.dirtyIds.size := by
  have clean := indexed.clean_ahead_lt isBest isHit
  have dirty := indexed.length_dirty_le
  have counted : ((points.filter fun point => point.id ∈ machine.dirtyIds).countP fun point =>
      (point.hit arith machine.state.collection.config.metric prepared).rank < hit.rank) ≤ _ :=
    List.countP_le_length
  unfold aheadOf
  rw [List.countP_eq_countP_filter_add _ _ fun point => decide (point.id ∈ machine.dirtyIds)]
  omega

end

theorem IndexedOver.mem_of_clean (isBest : IsBest SearchHit.rank k
      (machine.state.collection.hits arith prepared (fun _ => True) filter) best)
    (isHit : hit ∈ best) (clean : hit.id ∉ machine.dirtyIds) :
    ∃ point ∈ points, point.id ∉ machine.dirtyIds ∧
      passes arith.toIntegerConversion filter point.metadata = true ∧
      hit = point.hit arith machine.state.collection.config.metric prepared := by
  obtain ⟨point, live, -, passed, rfl⟩ := isBest.sound hit isHit
  exact ⟨point, (indexed.current point clean).mpr live, clean, passed, rfl⟩

theorem IndexedOver.foundWithin_of_enough (isBest : IsBest SearchHit.rank k
      (machine.state.collection.hits arith prepared (fun _ => True) none) best)
    (isHit : hit ∈ best) (clean : hit.id ∉ machine.dirtyIds)
    (enough : k + machine.dirtyIds.size ≤ graphK ∨ graphK = points.length) :
    FoundWithin machine points prepared none graphK hit := by
  obtain ⟨point, member, isClean, passed, rfl⟩ := indexed.mem_of_clean isBest isHit clean
  refine ⟨point, member, isClean, passed, rfl, ?_⟩
  rcases enough with many | all
  · exact lt_of_lt_of_le (indexed.aheadOf_lt isBest isHit) many
  · exact all ▸ aheadOf_lt_length member

/-- With a filter, `k` points that passed are enough. -/
theorem IndexedOver.mem_of_enough {hits : List SearchHit} {reached : Nat}
    (isBest : IsBest SearchHit.rank k
      (machine.state.collection.hits arith prepared (fun _ => True) filter) best)
    (distinct : hits.Nodup)
    (found : ∀ hit, hit ∈ hits ↔ FoundWithin machine points prepared filter reached hit)
    (enough : k ≤ hits.length ∨ reached = points.length) (isHit : hit ∈ best)
    (clean : hit.id ∉ machine.dirtyIds) : hit ∈ hits := by
  by_contra missing
  obtain ⟨point, member, isClean, passed, rfl⟩ := indexed.mem_of_clean isBest isHit clean
  -- What was found is ahead of what was not.
  have beyond : reached ≤ aheadOf arith machine.state.collection.config.metric prepared points
      (point.hit arith machine.state.collection.config.metric prepared).rank := by
    by_contra few
    exact missing ((found _).mpr ⟨point, member, isClean, passed, rfl, not_le.mp few⟩)
  rcases enough with many | all
  · have fewer := isBest.ahead_lt isHit distinct fun other isFound => by
      obtain ⟨-, -, -, -, -, few⟩ := (found other).mp isFound
      exact ⟨((found other).mp isFound).live indexed, lt_of_aheadOf_lt (few.trans_le beyond)⟩
    omega
  · have inside : aheadOf arith machine.state.collection.config.metric prepared points
      (point.hit arith machine.state.collection.config.metric prepared).rank < points.length :=
      aheadOf_lt_length member
    omega

end Covers

/-! ## Exactness -/

theorem graphCount_le (machine : SearchMachine indexes arith) (graph : indexes.Graph) (k : Nat)
    (filter : Option Filter) (efSearch : Nat) :
    machine.graphCount arith graphs graph k filter efSearch ≤ graphs.len graph :=
  min_le_right _ _

variable (graphs) in
/-- The number of nodes to ask for only saturates where it exceeds all nodes. -/
theorem le_graphCount (machine : SearchMachine indexes arith) (graph : indexes.Graph) (k : Nat)
    (filter : Option Filter) {efSearch : Nat} (wide : k ≤ efSearch) :
    k + machine.dirtyIds.size ≤ machine.graphCount arith graphs graph k filter efSearch ∨
      machine.graphCount arith graphs graph k filter efSearch = graphs.len graph := by
  have bounded := graphs.len_le graph
  unfold ShardMachine.graphCount saturatingAdd saturatingMul
  simp only
  split <;> split <;> omega

theorem moreHits_eq
    (preparesQuery : machine.state.collection.prepareQuery arith query k = .ok prepared)
    (filtered : Option (Filter × IdSet)) (hits : List SearchHit) :
    ∃ more, machine.moreHits arith query k filtered hits = .ok more ∧ ∀ hit ∈ more,
      hit ∈ machine.state.collection.hits arith prepared (fun _ => True)
        (filtered.map Prod.fst) := by
  cases filtered with
  | none => exact ⟨[], rfl, nofun⟩
  | some pair =>
    obtain ⟨filter, candidates⟩ := pair
    simp only [ShardMachine.moreHits]
    split
    · obtain ⟨more, searched, isMore⟩ :=
        Collection.searchIds_eq preparesQuery candidates (some filter)
      exact ⟨more, searched, fun hit member =>
        Collection.mem_hits_of_chosen (isMore.sound hit member)⟩
    · exact ⟨[], rfl, nofun⟩

section Whole

variable (keeps : BuildsNodes indexes graphs dimension metric perfect.nodes)
  (indexed : IndexedOver machine points graph)
  (valid : ValidSearch arith machine.state.collection query k efSearch)
include keeps indexed valid

/-- Asking the graph gives the exact result, whatever other live points are added. -/
theorem IndexedOver.searchGraph_eq (filtered : Option (Filter × IdSet)) :
    machine.searchGraph arith graphs graph query k filtered efSearch =
      machine.state.collection.search arith query k (filtered.map Prod.fst) := by
  obtain ⟨prepared, prepares, preparesQuery⟩ := valid.prepareQuery
  obtain ⟨-, -, -, size⟩ := keeps.built _ _ _ _ indexed.builds
  rw [List.length_map] at size
  have wide := valid.enough
  have positive := valid.positive
  have enough := le_graphCount graphs machine graph k (filtered.map Prod.fst) wide
  obtain ⟨hits, reached, loops, distinct, found, unfiltered, isFiltered⟩ :=
    indexed.searchLoop_eq keeps valid.dimension prepares k (filtered.map Prod.fst) efSearch
      (graphCount_le machine graph k (filtered.map Prod.fst) efSearch) (by omega)
  obtain ⟨dirty, searchedDirty, isDirty⟩ := Collection.searchIds_eq preparesQuery machine.dirtyIds
    (filtered.map Prod.fst)
  obtain ⟨best, searched, isBest⟩ :=
    Collection.search_eq preparesQuery (filtered.map Prod.fst)
  obtain ⟨more, adds, isLive⟩ := moreHits_eq preparesQuery filtered hits
  have covers : ∀ hit ∈ best, hit.id ∉ machine.dirtyIds → hit ∈ hits ++ more := by
    intro hit isHit clean
    apply List.mem_append_left
    cases filtered with
    | none =>
      rw [size, ← unfiltered rfl] at enough
      exact (found hit).mpr (indexed.foundWithin_of_enough isBest isHit clean enough)
    | some pair =>
      have stopped := isFiltered (by simp)
      rw [size] at stopped
      exact indexed.mem_of_enough isBest distinct found stopped isHit clean
  have merged : mergeHits (hits ++ more ++ dirty) k = best := by
    refine Collection.mergeHits_eq (fun hit member => ?_) isDirty isBest covers
    rcases List.mem_append.mp member with isFound | isMore
    · exact ((found hit).mp isFound).live indexed
    · exact isLive hit isMore
  unfold ShardMachine.searchGraph
  simp only
  show Except.bind (machine.state.collection.config.metric.prepare _ query) _ = _
  rw [prepares]
  show Except.bind (machine.searchLoop arith graphs graph query prepared k _ efSearch _) _ = _
  rw [loops]
  show Except.bind (machine.moreHits arith query k filtered hits) _ = _
  rw [adds]
  show Except.bind (machine.state.collection.searchIds arith query k machine.dirtyIds _) _ = _
  rw [searchedDirty, searched, ← merged]
  rfl

omit keeps valid in
theorem IndexedOver.mem_of_candidates {filter : Filter} {hits best : List SearchHit} {hit : SearchHit}
    (isHits : IsBest SearchHit.rank k (machine.state.collection.hits arith prepared
      (· ∈ (Engine.MetadataIndex.build arith.toIntegerConversion points).candidates filter \
        machine.dirtyIds) (some filter)) hits)
    (isBest : IsBest SearchHit.rank k
      (machine.state.collection.hits arith prepared (fun _ => True) (some filter)) best)
    (isHit : hit ∈ best) (clean : hit.id ∉ machine.dirtyIds) : hit ∈ hits := by
  have candidates := MetadataIndex.exact_candidates arith.toIntegerConversion indexed.distinct filter
  obtain ⟨point, member, isClean, passed, rfl⟩ := indexed.mem_of_clean isBest isHit clean
  refine isBest.mem_of_subset isHits (fun _ => Collection.mem_hits_of_chosen)
    ⟨point, (indexed.current point isClean).mp member, ?_, passed, rfl⟩ isHit
  exact Std.ExtTreeSet.mem_diff_iff.mpr
    ⟨(candidates.mem_iff indexed.distinct member).mpr passed, isClean⟩

omit keeps in
theorem IndexedOver.searchCandidates_eq (filter : Filter) :
    (do
      let hits ← machine.state.collection.searchIds arith query k
        ((Engine.MetadataIndex.build arith.toIntegerConversion points).candidates filter \
          machine.dirtyIds) (some filter)
      let dirty ← machine.state.collection.searchIds arith query k machine.dirtyIds (some filter)
      return mergeHits (hits ++ dirty) k) =
      machine.state.collection.search arith query k (some filter) := by
  obtain ⟨prepared, -, preparesQuery⟩ := valid.prepareQuery
  obtain ⟨hits, searchedHits, isHits⟩ := Collection.searchIds_eq preparesQuery
    ((Engine.MetadataIndex.build arith.toIntegerConversion points).candidates filter \
      machine.dirtyIds) (some filter)
  obtain ⟨dirty, searchedDirty, isDirty⟩ :=
    Collection.searchIds_eq preparesQuery machine.dirtyIds (some filter)
  obtain ⟨best, searched, isBest⟩ := Collection.search_eq preparesQuery (some filter)
  have merged : mergeHits (hits ++ dirty) k = best :=
    Collection.mergeHits_eq
      (fun hit member => Collection.mem_hits_of_chosen (isHits.sound hit member)) isDirty isBest
      fun hit isHit clean => indexed.mem_of_candidates isHits isBest isHit clean
  show Except.bind (machine.state.collection.searchIds arith query k _ (some filter)) _ = _
  rw [searchedHits]
  show Except.bind (machine.state.collection.searchIds arith query k machine.dirtyIds _) _ = _
  rw [searchedDirty, searched, ← merged]
  rfl

theorem IndexedOver.searchIndexed_eq (filter : Option Filter) :
    machine.searchIndexed arith graphs query k filter efSearch =
      machine.state.collection.search arith query k filter := by
  unfold ShardMachine.searchIndexed
  rw [indexed.index]
  cases filter with
  | none => exact indexed.searchGraph_eq keeps valid none
  | some filter =>
    rw [indexed.metadataIndex]
    simp only
    split
    · exact indexed.searchCandidates_eq valid filter
    · exact indexed.searchGraph_eq keeps valid (some (filter, _))

end Whole

end Exact

end FocalVector.Raft
