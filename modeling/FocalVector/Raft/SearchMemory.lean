import FocalVector.Persistence.SearchMemory
import FocalVector.Raft.SearchRuns

/-!
Contract: the memory that a search of a replicated shard asks for.

A search over the graph allocates room for the nodes it asks the graph for and for `k` more
hits; an exact search allocates a heap of `k` points. A replica takes `k` from the request
as it is, so the allocation can be larger than any allocation may be, and the search panics
before it has looked at a point.

Owns: `searchWithEf` of a shard with its allocations, and for the three searches of the engine
when one of them is too large.

Does not own: the limits of the other servers.
-/

namespace FocalVector.Raft

open FocalVector.Foundation FocalVector.Engine FocalVector.Persistence

namespace ShardMachine

section

variable {indexes : ShardIndexes} (heap : PointHeap) (arith : SearchArithmetic)
  (graphs : ShardGraphs indexes.Graph) (machine : SearchMachine indexes arith) (query : List F32)
  (k : Nat)

def heapSearchAll (filter : Option Filter) : Checked Error (List SearchHit) :=
  machine.state.collection.heapSearch heap arith machine.state.collection.points.values query k
    filter

def heapSearchSome (ids : IdSet) (filter : Option Filter) : Checked Error (List SearchHit) :=
  machine.state.collection.heapSearchIds heap arith ids.toList query k filter

/-- The candidates, where a filter let too few nodes pass. -/
def heapMoreHits (filtered : Option (Filter × IdSet)) (hits : List SearchHit) :
    Checked Error (List SearchHit) :=
  match filtered with
  | some (filter, candidates) =>
    if hits.length < k then
      machine.heapSearchSome heap arith query k candidates (some filter)
    else
      .ok []
  | none => .ok []

/-- The part of `search_with_ef` that asks the graph, with its allocations. -/
def heapSearchGraph (index : indexes.Graph) (filtered : Option (Filter × IdSet))
    (efSearch : Nat) : Checked Error (List SearchHit) := do
  let filter := filtered.map Prod.fst
  let graphK := machine.graphCount arith graphs index k filter efSearch
  Checked.capacity (saturatingAdd graphK k) SearchHit.bytes
  let prepared ← Checked.ofResult
    (machine.state.collection.config.metric.prepare arith.toFloatArithmetic query)
  let hits ← Checked.ofResult
    (machine.searchLoop arith graphs index query prepared k filter efSearch graphK)
  let more ← machine.heapMoreHits heap arith query k filtered hits
  let dirty ← machine.heapSearchSome heap arith query k machine.dirtyIds filter
  return mergeHits (hits ++ more ++ dirty) k

/-- `search_with_ef` once the indexes were refreshed, with its allocations. -/
def heapSearchIndexed (filter : Option Filter) (efSearch : Nat) :
    Checked Error (List SearchHit) :=
  match machine.index with
  | none => machine.heapSearchAll heap arith query k filter
  | some index =>
    match filter with
    | none => machine.heapSearchGraph heap arith graphs query k index none efSearch
    | some filter =>
      match machine.metadataIndex with
      | none => machine.heapSearchAll heap arith query k (some filter)
      | some metadataIndex => do
          let candidates := MetadataIndex.candidates metadataIndex filter \ machine.dirtyIds
          if saturatingMul candidates.size 4 < graphs.len index ∨
              candidates.size ≤ max (saturatingMul k 16) 256 then
            let hits ← machine.heapSearchSome heap arith query k candidates (some filter)
            let dirty ← machine.heapSearchSome heap arith query k machine.dirtyIds
              (some filter)
            return mergeHits (hits ++ dirty) k
          else
            machine.heapSearchGraph heap arith graphs query k index (some (filter, candidates))
              efSearch

/-- `search_with_ef`, with its allocations -/
def heapSearchWithEf (filter : Option Filter) (efSearch : Nat) : Checked Error (List SearchHit) :=
  if efSearch < k then
    .error (.error (.invalidQuery "ef_search must be at least k"))
  else do
    let refreshed ← Checked.ofResult (machine.refreshIndexIfNeeded)
    refreshed.heapSearchIndexed heap arith graphs query k filter efSearch

def GraphFits (index : indexes.Graph) (filter : Option Filter) (efSearch : Nat) : Prop :=
  saturatingAdd (machine.graphCount arith graphs index k filter efSearch) k * SearchHit.bytes <
    2 ^ 63

def SearchFits (filter : Option Filter) (efSearch : Nat) : Prop :=
  match machine.index, filter, machine.metadataIndex with
  | some index, none, _ => machine.GraphFits arith graphs k index none efSearch
  | some index, some filter, some metadataIndex =>
    let candidates := MetadataIndex.candidates metadataIndex filter \ machine.dirtyIds
    if saturatingMul candidates.size 4 < graphs.len index ∨
        candidates.size ≤ max (saturatingMul k 16) 256 then
      Collection.HeapFits k
    else
      machine.GraphFits arith graphs k index (some filter) efSearch
  | _, _, _ => Collection.HeapFits k

end

variable {indexes : ShardIndexes} {heap : PointHeap} {arith : SearchArithmetic}
  {graphs : ShardGraphs indexes.Graph} {machine : SearchMachine indexes arith} {query : List F32}
  {k efSearch : Nat}

/-- Room for `k` hits is more than the heap needs. -/
theorem heapFits_of_graph {filter : Option Filter} {index : indexes.Graph} (positive : 0 < k)
    (fits : machine.GraphFits arith graphs k index filter efSearch) : Collection.HeapFits k := by
  unfold GraphFits saturatingAdd usizeMax SearchHit.bytes at fits
  unfold Collection.HeapFits RankedPoint.bytes
  omega

section Valid

variable (valid : ValidSearch arith machine.state.collection query k efSearch)
include valid

theorem settles_heapSearchAll (filter : Option Filter) :
    (machine.heapSearchAll heap arith query k filter).Settles ↔ Collection.HeapFits k := by
  obtain ⟨prepared, -, prepares⟩ := valid.prepareQuery
  exact Collection.settles_heapSearch.trans
    ⟨fun fits => fits prepared prepares, fun fits _ _ => fits⟩

theorem settles_heapSearchSome (ids : IdSet) (filter : Option Filter) :
    (machine.heapSearchSome heap arith query k ids filter).Settles ↔ Collection.HeapFits k := by
  obtain ⟨prepared, -, prepares⟩ := valid.prepareQuery
  exact Collection.settles_heapSearchIds.trans
    ⟨fun fits => fits prepared prepares, fun fits _ _ => fits⟩

theorem settles_heapSearchGraph (index : indexes.Graph) (filtered : Option (Filter × IdSet)) :
    (machine.heapSearchGraph heap arith graphs query k index filtered efSearch).Settles ↔
      machine.GraphFits arith graphs k index (filtered.map Prod.fst) efSearch := by
  unfold heapSearchGraph
  simp only
  rw [Checked.settles_capacity_bind]
  refine and_iff_left_of_imp fun fits => ?_
  have heapFits := heapFits_of_graph (Nat.pos_of_ne_zero valid.positive) fits
  rw [Checked.settles_ofResult_bind]
  intro prepared _
  rw [Checked.settles_ofResult_bind]
  intro hits _
  rw [Checked.settles_bind]
  constructor
  · unfold heapMoreHits
    split
    · split
      · exact (settles_heapSearchSome valid _ _).mpr heapFits
      · trivial
    · trivial
  · intro more _
    rw [Checked.settles_bind]
    exact ⟨(settles_heapSearchSome valid _ _).mpr heapFits, fun _ _ => trivial⟩

theorem settles_heapSearchIndexed (filter : Option Filter) :
    (machine.heapSearchIndexed heap arith graphs query k filter efSearch).Settles ↔
      machine.SearchFits arith graphs k filter efSearch := by
  unfold heapSearchIndexed SearchFits
  cases machine.index with
  | none => exact settles_heapSearchAll valid filter
  | some index =>
    cases filter with
    | none => exact settles_heapSearchGraph valid index none
    | some filter =>
      cases machine.metadataIndex with
      | none => exact settles_heapSearchAll valid (some filter)
      | some metadataIndex =>
        simp only
        split
        · rw [Checked.settles_bind, settles_heapSearchSome valid]
          refine and_iff_left_of_imp fun fits hits _ => ?_
          rw [Checked.settles_bind, settles_heapSearchSome valid]
          exact ⟨fits, fun _ _ => trivial⟩
        · exact settles_heapSearchGraph valid index (some (filter, _))

end Valid

theorem state_refreshIndexIfNeeded {refreshed : SearchMachine indexes arith}
    (refreshes : machine.refreshIndexIfNeeded = .ok refreshed) :
    refreshed.state = machine.state := by
  unfold refreshIndexIfNeeded at refreshes
  split at refreshes
  · cases refreshes
    rfl
  next sequence points _ =>
    unfold finishRefresh at refreshes
    cases builds : buildIndexes (indexes.withMetadata arith.toIntegerConversion) machine.config
        points with
    | error error => simp [builds, bind, Except.bind] at refreshes
    | ok built =>
      simp only [builds, bind, Except.bind] at refreshes
      split at refreshes
      · cases refreshes
        rfl
      · cases refreshes
        rfl

theorem settles_heapSearchWithEf
    (valid : ValidSearch arith machine.state.collection query k efSearch)
    (filter : Option Filter) :
    (machine.heapSearchWithEf heap arith graphs query k filter efSearch).Settles ↔
      ∀ refreshed : SearchMachine indexes arith, machine.refreshIndexIfNeeded = .ok refreshed →
        refreshed.SearchFits arith graphs k filter efSearch := by
  unfold heapSearchWithEf
  rw [if_neg (not_lt.mpr valid.enough), Checked.settles_ofResult_bind]
  refine forall₂_congr fun refreshed refreshes => settles_heapSearchIndexed ?_ filter
  rw [state_refreshIndexIfNeeded refreshes]
  exact valid

section Connection

variable {filter : Option Filter}

theorem heapSearchAll_of_fits (fits : Collection.HeapFits k) :
    machine.heapSearchAll heap arith query k filter =
      Checked.ofResult (machine.state.collection.search arith query k filter) :=
  Collection.heapSearch_of_fits fits (.refl _)

theorem heapSearchSome_of_fits (fits : Collection.HeapFits k) (ids : IdSet) :
    machine.heapSearchSome heap arith query k ids filter =
      Checked.ofResult (machine.state.collection.searchIds arith query k ids filter) :=
  Collection.heapSearchIds_of_fits fits (.refl _)

theorem heapSearchGraph_of_fits {index : indexes.Graph} {filtered : Option (Filter × IdSet)}
    (positive : 0 < k)
    (fits : machine.GraphFits arith graphs k index (filtered.map Prod.fst) efSearch) :
    machine.heapSearchGraph heap arith graphs query k index filtered efSearch =
      Checked.ofResult (machine.searchGraph arith graphs index query k filtered efSearch) := by
  have heapFits := heapFits_of_graph positive fits
  have more : ∀ hits, machine.heapMoreHits heap arith query k filtered hits =
      Checked.ofResult (machine.moreHits arith query k filtered hits) := by
    intro hits
    unfold heapMoreHits moreHits
    split
    · split
      · exact heapSearchSome_of_fits heapFits _
      · rfl
    · rfl
  unfold heapSearchGraph searchGraph
  simp only
  rw [Checked.bind_ok (Checked.capacity_of_lt fits)]
  simp only [more, heapSearchSome_of_fits heapFits, Checked.ofResult_bind]
  rfl

/-- Where the requests can be met the allocations change nothing. -/
theorem heapSearchIndexed_of_fits (positive : 0 < k)
    (fits : machine.SearchFits arith graphs k filter efSearch) :
    machine.heapSearchIndexed heap arith graphs query k filter efSearch =
      Checked.ofResult (machine.searchIndexed arith graphs query k filter efSearch) := by
  unfold heapSearchIndexed searchIndexed
  unfold SearchFits at fits
  cases isIndex : machine.index with
  | none =>
    rw [isIndex] at fits
    exact heapSearchAll_of_fits fits
  | some index =>
    rw [isIndex] at fits
    cases filter with
    | none => exact heapSearchGraph_of_fits positive fits
    | some filter =>
      cases isMetadata : machine.metadataIndex with
      | none =>
        rw [isMetadata] at fits
        exact heapSearchAll_of_fits fits
      | some metadataIndex =>
        rw [isMetadata] at fits
        simp only at fits ⊢
        split
        next exact =>
          rw [if_pos exact] at fits
          simp only [heapSearchSome_of_fits fits, Checked.ofResult_bind]
          rfl
        next graph =>
          rw [if_neg graph] at fits
          exact heapSearchGraph_of_fits positive fits

end Connection

end ShardMachine

/-! ## The three searches -/

/-- The searches of the engine return a result or an error exactly when the memory they ask
for is no more than an allocation may have: a heap of `k` points and one more, room for the
`k` hits of every segment and of the dirty points, or room for the nodes of the graph and
`k` hits. -/
theorem searches_settle_iff (heap : PointHeap) (arith : SearchArithmetic) (query : List F32)
    (k efSearch : Nat) (filter : Option Filter) :
    (∀ (collection : Collection) (order : List StoredPoint),
      ValidSearch arith collection query k efSearch →
        ((collection.heapSearch heap arith order query k filter).Settles ↔ k + 1 < 2 ^ 59)) ∧
    (∀ (backend : IndexBackend) (graphs : GraphSearch backend.Graph)
        (store : SearchStore backend arith),
      ValidSearch arith store.inner query k efSearch →
        ((store.heapSearchWithEf heap arith graphs query k filter efSearch).Settles ↔
          store.SearchFits arith k filter)) ∧
    ∀ (indexes : ShardIndexes) (graphs : ShardGraphs indexes.Graph)
        (machine : SearchMachine indexes arith),
      ValidSearch arith machine.state.collection query k efSearch →
        ((machine.heapSearchWithEf heap arith graphs query k filter efSearch).Settles ↔
          ∀ refreshed : SearchMachine indexes arith, machine.refreshIndexIfNeeded = .ok refreshed →
            refreshed.SearchFits arith graphs k filter efSearch) := by
  refine ⟨fun collection order valid => ?_, fun backend graphs store valid => ?_,
    fun indexes graphs machine valid => ?_⟩
  · obtain ⟨prepared, -, prepares⟩ := valid.prepareQuery
    rw [Collection.settles_heapSearch, ← Collection.heapFits_iff]
    exact ⟨fun fits => fits prepared prepares, fun fits _ _ => fits⟩
  · exact PersistentCollection.settles_heapSearchWithEf valid filter
  · exact ShardMachine.settles_heapSearchWithEf valid filter

def emptyIndexes : ShardIndexes := ⟨Unit, fun _ _ _ => .ok (), Unit, fun _ => ()⟩

def emptyGraphs : ShardGraphs emptyIndexes.Graph where
  vectorStorage _ := .f32
  search _ _ _ _ := .ok []
  len _ := 0
  len_le _ := Nat.zero_le _

def emptyShard : SearchMachine emptyIndexes .unit where
  config := lineConfig
  state := ⟨⟨lineConfig, .empty, 0⟩, none, .initial, ∅⟩
  index := none
  metadataIndex := none
  dirtyIds := ∅
  currentSnapshot := none

/-- Two of three points are in the graph, and the third one was written later. -/
def indexedShard : SearchMachine .scan .unit where
  config := lineConfig
  state := advance SearchArithmetic.unit.toFloatArithmetic (.initial lineConfig)
    (upsertEntry 1 ["p", "q", "r"])
  index := some ⟨⟨1, .dotProduct, ["p", "q"].map fun id => (id, [⟨0x3f800000⟩])⟩, by decide⟩
  metadataIndex := none
  dirtyIds := .ofList ["r"]
  currentSnapshot := none

theorem validSearch_indexedShard :
    ValidSearch .unit indexedShard.state.collection [⟨0x3f800000⟩] 10 10 :=
  ⟨by decide, le_rfl, rfl, [⟨0x3f800000⟩], rfl⟩

theorem searchFits_indexedShard {refreshed : SearchMachine .scan .unit}
    (refreshes : indexedShard.refreshIndexIfNeeded = .ok refreshed) :
    refreshed.SearchFits .unit (.scan .unit) 10 none 10 := by
  cases refreshes
  show ShardMachine.GraphFits _ _ _ _ _ _ _
  unfold ShardMachine.GraphFits
  decide +kernel

/-- Ten hits can be asked for. -/
theorem ten_hits_settle :
    (indexedShard.heapSearchWithEf (.ordered RankedPoint.rank) .unit (.scan .unit) [⟨0x3f800000⟩]
      10 none 10).Settles :=
  ((searches_settle_iff (.ordered RankedPoint.rank) .unit [⟨0x3f800000⟩] 10 10 none).2.2
    .scan (.scan .unit) indexedShard validSearch_indexedShard).mpr fun _ => searchFits_indexedShard

/-- The largest `k` panics, on an empty collection and on a replica without points. -/
theorem largest_k_panics :
    emptyShard.state.collection.heapSearch (.ordered RankedPoint.rank) .unit [] [⟨0x3f800000⟩]
        (2 ^ 64 - 1) none = Checked.panic .capacity ∧
      emptyShard.heapSearchWithEf (.ordered RankedPoint.rank) .unit emptyGraphs [⟨0x3f800000⟩]
        (2 ^ 64 - 1) none (2 ^ 64 - 1) = Checked.panic .capacity :=
  ⟨rfl, rfl⟩

/-- The heap and the buffers decide only whether a search panics: one that does not, ends as the
plain search does, whatever order the map and the heap keep the points in. -/
theorem settled_searches_agree (heap : PointHeap) (arith : SearchArithmetic) (query : List F32)
    (k efSearch : Nat) (filter : Option Filter) :
    (∀ (collection : Collection) (order : List StoredPoint), order.Perm collection.points.values →
      ValidSearch arith collection query k efSearch →
      (collection.heapSearch heap arith order query k filter).Settles →
        collection.heapSearch heap arith order query k filter =
          Checked.ofResult (collection.search arith query k filter)) ∧
    (∀ (backend : IndexBackend) (graphs : GraphSearch backend.Graph)
        (store : SearchStore backend arith), ValidSearch arith store.inner query k efSearch →
      (store.heapSearchWithEf heap arith graphs query k filter efSearch).Settles →
        store.heapSearchWithEf heap arith graphs query k filter efSearch =
          Checked.ofResult (store.searchWithEf arith graphs query k filter efSearch)) ∧
    ∀ (indexes : ShardIndexes) (graphs : ShardGraphs indexes.Graph)
        (machine : SearchMachine indexes arith),
      ValidSearch arith machine.state.collection query k efSearch →
      (machine.heapSearchWithEf heap arith graphs query k filter efSearch).Settles →
        machine.heapSearchWithEf heap arith graphs query k filter efSearch =
          Checked.ofResult (machine.searchWithEf arith graphs query k filter efSearch) := by
  refine ⟨fun collection order same valid settles => ?_, fun backend graphs store valid settles => ?_,
    fun indexes graphs machine valid settles => ?_⟩
  · obtain ⟨prepared, -, prepares⟩ := valid.prepareQuery
    exact Collection.heapSearch_of_fits (Collection.settles_heapSearch.mp settles prepared prepares)
      same
  · exact PersistentCollection.heapSearchWithEf_of_fits
      ((PersistentCollection.settles_heapSearchWithEf valid filter).mp settles)
  · have fits := (ShardMachine.settles_heapSearchWithEf valid filter).mp settles
    unfold ShardMachine.heapSearchWithEf ShardMachine.searchWithEf
    rw [if_neg (not_lt.mpr valid.enough), if_neg (not_lt.mpr valid.enough)]
    cases refreshes : machine.refreshIndexIfNeeded with
    | error error => rfl
    | ok refreshed =>
      exact ShardMachine.heapSearchIndexed_of_fits (Nat.pos_of_ne_zero valid.positive)
        (fits refreshed refreshes)

/-- Ten hits of a replica with three points are the three. -/
theorem ten_hits_agree : ∃ hits, hits.map SearchHit.id = ["p", "q", "r"] ∧
    indexedShard.heapSearchWithEf (.ordered RankedPoint.rank) .unit (.scan .unit) [⟨0x3f800000⟩] 10
      none 10 = .ok hits := by
  have found : (indexedShard.searchWithEf .unit (.scan .unit) [⟨0x3f800000⟩] 10 none 10).map
      (List.map SearchHit.id) = .ok ["p", "q", "r"] := by decide +kernel
  have agrees := (settled_searches_agree (.ordered RankedPoint.rank) .unit [⟨0x3f800000⟩] 10 10
    none).2.2 .scan (.scan .unit) indexedShard validSearch_indexedShard
      ((ShardMachine.settles_heapSearchWithEf validSearch_indexedShard none).mpr
        fun _ => searchFits_indexedShard)
  cases searched : indexedShard.searchWithEf .unit (.scan .unit) [⟨0x3f800000⟩] 10 none 10 with
  | error error =>
    rw [searched] at found
    cases found
  | ok hits =>
    rw [searched] at found agrees
    exact ⟨hits, Except.ok.inj found, agrees⟩

end FocalVector.Raft
