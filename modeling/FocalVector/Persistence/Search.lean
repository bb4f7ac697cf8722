import FocalVector.Engine.GraphSearch
import FocalVector.Engine.MetadataIndex
import FocalVector.Persistence.Store

/-!
Contract: searching a persistent collection.

A search with a filter asks the metadata index for candidates and scores them
and the dirty ids exactly. A search without one asks the graph of every segment
for its nearest nodes, drops those that are gone, dirty or newer than the
segment, and scores the others and the dirty ids exactly.

Owns: `searchWithEf`, its exactness with a filter over a current metadata index,
and what it shows without one, whatever the graphs answer.

Does not own: the graphs, or their search on a graphics card.
-/

namespace FocalVector.Persistence

open FocalVector.Foundation FocalVector.Engine

def IndexBackend.withMetadata (backend : IndexBackend) (conversion : IntegerConversion) :
    IndexBackend :=
  { backend with
    MetadataIndex := Engine.MetadataIndex
    buildMetadata := MetadataIndex.build conversion }

/-- Return the first nodes of an index without links. -/
def flatSearch : GraphSearch FlatGraph where
  vectorStorage _ := .f32
  search graph _ k _ := .ok (graph.ids.take k)

abbrev SearchStore (backend : IndexBackend) (arith : SearchArithmetic) : Type :=
  PersistentCollection (backend.withMetadata arith.toIntegerConversion)

namespace PersistentCollection

variable {backend : IndexBackend} (arith : SearchArithmetic)

/-- A hit of a graph, unless the point is gone, dirty or newer than the segment. -/
def currentHit (store : SearchStore backend arith) (prepared : List F32) (sequence : UInt64) (id : String) : Option SearchHit :=
  match store.inner.points.get id with
  | none => none
  | some point =>
    if id ∈ store.dirtyIds ∨ sequence < point.sequence then none
    else some (point.hit arith store.inner.config.metric prepared)

def graphCount (graphs : GraphSearch backend.Graph) (k : Nat)
    (graph : backend.Graph) : Nat :=
  let rerank := if graphs.vectorStorage graph = .scalarInt8 then saturatingMul k 4 else k
  min rerank (backend.len graph)

def askGraph (graphs : GraphSearch backend.Graph) (query : List F32) (k efSearch : Nat)
    (graph : backend.Graph) : Result (List String) :=
  let count := graphCount graphs k graph
  if count = 0 then .ok [] else graphs.search graph query count (max efSearch count)

/-- The loop body of `search_with_ef` over the segments. -/
def segmentHits (graphs : GraphSearch backend.Graph) (store : SearchStore backend arith)
    (query prepared : List F32) (k efSearch : Nat)
    (segment : IndexSegment (backend.withMetadata arith.toIntegerConversion)) :
    Result (List SearchHit) := do
  let found ← askGraph graphs query k efSearch segment.index
  return found.filterMap (store.currentHit arith prepared segment.sequence)

def searchFiltered (store : SearchStore backend arith)
    (query : List F32) (k : Nat) (filter : Filter) : Result (List SearchHit) :=
  match store.metadataIndex with
  | none => store.inner.search arith query k (some filter)
  | some index => do
      let candidates := MetadataIndex.candidates index filter \ store.dirtyIds
      let hits ← store.inner.searchIds arith query k candidates (some filter)
      let dirty ← store.inner.searchIds arith query k store.dirtyIds (some filter)
      return mergeHits (hits ++ dirty) k

def searchGraphs (graphs : GraphSearch backend.Graph)
    (store : SearchStore backend arith)
    (query : List F32) (k efSearch : Nat) : Result (List SearchHit) :=
  if store.indexes.isEmpty then
    store.inner.search arith query k none
  else do
    let prepared ← store.inner.config.metric.prepare arith.toFloatArithmetic query
    let hits ← store.indexes.mapM (store.segmentHits arith graphs query prepared k efSearch)
    let dirty ← store.inner.searchIds arith query k store.dirtyIds none
    return mergeHits (hits.flatten ++ dirty) k

def searchWithEf (graphs : GraphSearch backend.Graph)
    (store : SearchStore backend arith)
    (query : List F32) (k : Nat) (filter : Option Filter) (efSearch : Nat) :
    Result (List SearchHit) :=
  if efSearch < k then
    .error (.invalidQuery "ef_search must be at least k")
  else if k = 0 then
    .error (.invalidQuery "k must be greater than zero")
  else if query.length ≠ store.inner.config.dimension then
    .error (.invalidDimension store.inner.config.dimension query.length)
  else
    match filter with
    | some filter => store.searchFiltered arith query k filter
    | none => store.searchGraphs arith graphs query k efSearch

end PersistentCollection

section

variable {backend : IndexBackend} {arith : SearchArithmetic} {graphs : GraphSearch backend.Graph}
  {store : SearchStore backend arith} {query prepared : List F32} {k efSearch : Nat}

namespace PersistentCollection

theorem searchWithEf_eq (valid : ValidSearch arith store.inner query k efSearch)
    (filter : Option Filter) :
    store.searchWithEf arith graphs query k filter efSearch =
      match filter with
      | some filter => store.searchFiltered arith query k filter
      | none => store.searchGraphs arith graphs query k efSearch := by
  unfold searchWithEf
  rw [if_neg (not_lt.mpr valid.enough), if_neg valid.positive,
    if_neg (not_not.mpr valid.dimension)]

/-! ## Searching with a filter -/

/-- Points that agree with the live ones, but for the dirty ids. -/
def Agrees {backend : IndexBackend} (store : PersistentCollection backend) (base : PointMap) :
    Prop :=
  ∀ id, id ∉ store.dirtyIds → base.get id = store.inner.points.get id

/-- The metadata index was built from points that agree with the live ones. -/
def IndexCurrent {backend : IndexBackend} (store : PersistentCollection backend) : Prop :=
  ∀ index, store.metadataIndex = some index →
    ∃ base : PointMap, index = backend.buildMetadata base.values ∧ store.Agrees base

theorem IndexCurrent.searchFiltered_eq (current : IndexCurrent store)
    (valid : ValidSearch arith store.inner query k efSearch) (filter : Filter) :
    store.searchFiltered arith query k filter = store.inner.search arith query k (some filter) := by
  unfold searchFiltered
  cases indexed : store.metadataIndex with
  | none => rfl
  | some index =>
    obtain ⟨base, rfl, agrees⟩ := current index indexed
    obtain ⟨prepared, -, prepares⟩ := valid.prepareQuery
    have exact := MetadataIndex.exact_candidates arith.toIntegerConversion
      base.values_ids_nodup filter
    obtain ⟨hits, found, isHits⟩ := Collection.searchIds_eq prepares
      (MetadataIndex.candidates (MetadataIndex.build arith.toIntegerConversion base.values) filter \
        store.dirtyIds) (some filter)
    obtain ⟨dirty, dirtyFound, isDirty⟩ :=
      Collection.searchIds_eq prepares store.dirtyIds (some filter)
    obtain ⟨best, searched, isBest⟩ := Collection.search_eq prepares (some filter)
    have merged : mergeHits (hits ++ dirty) k = best := by
      refine (Collection.isBest_mergeHits_union isHits isDirty).unique
        (isBest.congr fun hit => exists_congr fun point => and_congr_right fun live => ?_)
      refine and_congr_left fun ⟨passed, _⟩ => ⟨fun _ => ?_, fun _ => trivial⟩
      by_cases isDirty : point.id ∈ store.dirtyIds
      · exact .inr isDirty
      · have indexed : point ∈ base.values := by
          rw [PointMap.mem_values, agrees point.id isDirty, live]
        exact .inl (Std.ExtTreeSet.mem_diff_iff.mpr
          ⟨(exact.mem_iff base.values_ids_nodup indexed).mpr passed, isDirty⟩)
    rw [searched, ← merged]
    show (store.inner.searchIds arith query k (MetadataIndex.candidates (MetadataIndex.build
      arith.toIntegerConversion base.values) filter \ store.dirtyIds) (some filter)).bind _ = _
    rw [found]
    show (store.inner.searchIds arith query k store.dirtyIds (some filter)).bind _ = _
    rw [dirtyFound]
    rfl

/-! ## Searching without a filter -/

variable (graphs store query k efSearch) in
/-- The id of a point that a graph finds and that is neither dirty nor newer than
the segment. -/
def FoundInGraph (id : String) : Prop :=
  ∃ segment ∈ store.indexes, ∃ ids, askGraph graphs query k efSearch segment.index = .ok ids ∧
    id ∈ ids ∧ id ∉ store.dirtyIds ∧
      ∀ point, store.inner.points.get id = some point → point.sequence ≤ segment.sequence

theorem currentHit_eq_some {sequence : UInt64} {id : String} {hit : SearchHit} :
    store.currentHit arith prepared sequence id = some hit ↔
      id ∉ store.dirtyIds ∧ ∃ point, store.inner.points.get id = some point ∧
        point.sequence ≤ sequence ∧ hit = point.hit arith store.inner.config.metric prepared := by
  unfold currentHit
  cases store.inner.points.get id with
  | none => simp
  | some point =>
    simp only [Option.some.injEq, exists_eq_left', ← UInt64.not_lt]
    split
    next dropped => exact ⟨nofun, fun kept => (dropped.elim kept.1 kept.2.1).elim⟩
    next kept =>
      rw [not_or] at kept
      rw [Option.some.injEq, eq_comm]
      exact ⟨fun same => ⟨kept.1, kept.2, same⟩, fun same => same.2.2⟩

variable (store prepared) in
theorem mapM_segmentHits {segments : List (IndexSegment (backend.withMetadata
      arith.toIntegerConversion))}
    (answered : ∀ segment ∈ segments, ∃ ids, askGraph graphs query k efSearch segment.index = .ok ids) :
    ∃ found, segments.mapM (store.segmentHits arith graphs query prepared k efSearch) = .ok found ∧
      ∀ hit, hit ∈ found.flatten ↔ ∃ segment ∈ segments, ∃ ids,
        askGraph graphs query k efSearch segment.index = .ok ids ∧ ∃ id ∈ ids,
          store.currentHit arith prepared segment.sequence id = some hit := by
  induction segments with
  | nil => exact ⟨[], rfl, by simp⟩
  | cons segment rest ih =>
    obtain ⟨ids, answers⟩ := answered segment List.mem_cons_self
    obtain ⟨found, loops, members⟩ := ih fun later member =>
      answered later (List.mem_cons_of_mem _ member)
    refine ⟨ids.filterMap (store.currentHit arith prepared segment.sequence) :: found, ?_,
      fun hit => ?_⟩
    · rw [List.mapM_cons, loops]
      unfold segmentHits
      rw [answers]
      rfl
    · simp only [List.flatten_cons, List.mem_append, members, List.mem_cons, exists_eq_or_imp,
        answers, Except.ok.injEq, exists_eq_left', List.mem_filterMap]

theorem searchGraphs_eq (valid : ValidSearch arith store.inner query k efSearch)
    (indexed : store.indexes ≠ [])
    (prepares : store.inner.config.metric.prepare arith.toFloatArithmetic query = .ok prepared)
    (answered : ∀ segment ∈ store.indexes, ∃ ids,
      askGraph graphs query k efSearch segment.index = .ok ids) :
    ∃ best, store.searchGraphs arith graphs query k efSearch = .ok best ∧
      IsBest SearchHit.rank k (store.inner.hits arith prepared
        (fun id => FoundInGraph graphs store query k efSearch id ∨ id ∈ store.dirtyIds) none) best := by
  obtain ⟨prepared', prepares', preparesQuery⟩ := valid.prepareQuery
  cases prepares.symm.trans prepares'
  obtain ⟨found, loops, members⟩ := mapM_segmentHits store prepared answered
  obtain ⟨dirty, searched, isDirty⟩ := Collection.searchIds_eq preparesQuery store.dirtyIds none
  have graphHits : ∀ hit, hit ∈ found.flatten ↔ hit ∈ store.inner.hits arith prepared
      (FoundInGraph graphs store query k efSearch) none := by
    intro hit
    rw [members]
    constructor
    · rintro ⟨segment, member, ids, answers, id, isFound, current⟩
      obtain ⟨clean, point, live, older, rfl⟩ := currentHit_eq_some.mp current
      have sameId := PointMap.id_of_get live
      subst sameId
      refine ⟨point, live, ⟨segment, member, ids, answers, isFound, clean, ?_⟩, rfl, rfl⟩
      intro other found
      rw [live] at found
      exact Option.some.inj found ▸ older
    · rintro ⟨point, live, ⟨segment, member, ids, answers, isFound, clean, older⟩, -, rfl⟩
      exact ⟨segment, member, ids, answers, point.id, isFound,
        currentHit_eq_some.mpr ⟨clean, point, live, older point live, rfl⟩⟩
  refine ⟨_, ?_, Collection.isBest_mergeHits_append graphHits isDirty⟩
  unfold searchGraphs
  rw [if_neg (by simpa using indexed), prepares]
  show Except.bind (store.indexes.mapM (store.segmentHits arith graphs query prepared k efSearch))
    _ = _
  rw [loops]
  show (store.inner.searchIds arith query k store.dirtyIds none).bind _ = _
  rw [searched]
  rfl

end PersistentCollection

end

end FocalVector.Persistence
