import FocalVector.Engine.ExactSearch
import FocalVector.Persistence.Search

/-!
Contract: the memory that a search of a persistent collection asks for.

A search over the graphs of several segments allocates room for `k` hits of each of them and
of the dirty points before it asks the first graph; every other search only allocates the
heaps of the exact searches. The requests depend on `k`, which the caller chooses, and not
on how many points there are.

Owns: `searchWithEf` with its allocations, and when one of them is too large.

Does not own: the memory of the graphs.
-/

namespace FocalVector.Persistence

open FocalVector.Foundation FocalVector.Engine

namespace PersistentCollection

section

variable {backend : IndexBackend} (heap : PointHeap) (arith : SearchArithmetic)
  (graphs : GraphSearch backend.Graph) (store : SearchStore backend arith) (query : List F32)
  (k : Nat)

def heapSearchAll (filter : Option Filter) : Checked Error (List SearchHit) :=
  store.inner.heapSearch heap arith store.inner.points.values query k filter

def heapSearchSome (ids : IdSet) (filter : Option Filter) : Checked Error (List SearchHit) :=
  store.inner.heapSearchIds heap arith ids.toList query k filter

def heapSearchFiltered (filter : Filter) : Checked Error (List SearchHit) :=
  match store.metadataIndex with
  | none => store.heapSearchAll heap arith query k (some filter)
  | some index => do
      let candidates := MetadataIndex.candidates index filter \ store.dirtyIds
      let hits ← store.heapSearchSome heap arith query k candidates (some filter)
      let dirty ← store.heapSearchSome heap arith query k store.dirtyIds (some filter)
      return mergeHits (hits ++ dirty) k

def heapSearchGraphs (efSearch : Nat) : Checked Error (List SearchHit) :=
  if store.indexes.isEmpty then
    store.heapSearchAll heap arith query k none
  else do
    Checked.capacity (saturatingMul k (store.indexes.length + 1)) SearchHit.bytes
    let prepared ← Checked.ofResult
      (store.inner.config.metric.prepare arith.toFloatArithmetic query)
    let hits ← Checked.ofResult
      (store.indexes.mapM (store.segmentHits arith graphs query prepared k efSearch))
    let dirty ← store.heapSearchSome heap arith query k store.dirtyIds none
    return mergeHits (hits.flatten ++ dirty) k

/-- `search_with_ef`, with its allocations -/
def heapSearchWithEf (filter : Option Filter) (efSearch : Nat) : Checked Error (List SearchHit) :=
  if efSearch < k then
    .error (.error (.invalidQuery "ef_search must be at least k"))
  else if k = 0 then
    .error (.error (.invalidQuery "k must be greater than zero"))
  else if query.length ≠ store.inner.config.dimension then
    .error (.error (.invalidDimension store.inner.config.dimension query.length))
  else
    match filter with
    | some filter => store.heapSearchFiltered heap arith query k filter
    | none => store.heapSearchGraphs heap arith graphs query k efSearch

def SearchFits (filter : Option Filter) : Prop :=
  if filter.isNone ∧ store.indexes ≠ [] then
    saturatingMul k (store.indexes.length + 1) * SearchHit.bytes < 2 ^ 63
  else
    Collection.HeapFits k

end

variable {backend : IndexBackend} {heap : PointHeap} {arith : SearchArithmetic}
  {graphs : GraphSearch backend.Graph} {store : SearchStore backend arith} {query : List F32}
  {k efSearch : Nat}

theorem settles_heapSearchSome {ids : IdSet} {filter : Option Filter} :
    (store.heapSearchSome heap arith query k ids filter).Settles ↔
      ∀ prepared, store.inner.prepareQuery arith query k = .ok prepared → Collection.HeapFits k :=
  Collection.settles_heapSearchIds

theorem settles_heapSearchFiltered (valid : ValidSearch arith store.inner query k efSearch)
    (filter : Filter) :
    (store.heapSearchFiltered heap arith query k filter).Settles ↔ Collection.HeapFits k := by
  obtain ⟨prepared, -, prepares⟩ := valid.prepareQuery
  have heapOnly : (∀ prepared, store.inner.prepareQuery arith query k = .ok prepared →
      Collection.HeapFits k) ↔ Collection.HeapFits k :=
    ⟨fun fits => fits prepared prepares, fun fits _ _ => fits⟩
  unfold heapSearchFiltered
  cases store.metadataIndex with
  | none => exact Collection.settles_heapSearch.trans heapOnly
  | some index =>
    rw [Checked.settles_bind, settles_heapSearchSome, heapOnly]
    refine and_iff_left_of_imp fun fits hits _ => ?_
    rw [Checked.settles_bind, settles_heapSearchSome, heapOnly]
    exact ⟨fits, fun _ _ => trivial⟩

theorem heapFits_of_segments (positive : 0 < k) (nonempty : store.indexes ≠ [])
    (fits : saturatingMul k (store.indexes.length + 1) * SearchHit.bytes < 2 ^ 63) :
    Collection.HeapFits k := by
  have segments := List.length_pos_iff.mpr nonempty
  have many : k * 2 ≤ k * (store.indexes.length + 1) := Nat.mul_le_mul_left k (by omega)
  unfold saturatingMul usizeMax SearchHit.bytes at fits
  unfold Collection.HeapFits RankedPoint.bytes
  omega

theorem settles_heapSearchGraphs (valid : ValidSearch arith store.inner query k efSearch)
    (nonempty : store.indexes ≠ []) :
    (store.heapSearchGraphs heap arith graphs query k efSearch).Settles ↔
      saturatingMul k (store.indexes.length + 1) * SearchHit.bytes < 2 ^ 63 := by
  have positive := Nat.pos_of_ne_zero valid.positive
  unfold heapSearchGraphs
  rw [if_neg (by simpa using nonempty), Checked.settles_capacity_bind]
  refine and_iff_left_of_imp fun fits => ?_
  have heapFits := heapFits_of_segments positive nonempty fits
  rw [Checked.settles_ofResult_bind]
  intro prepared _
  rw [Checked.settles_ofResult_bind]
  intro hits _
  rw [Checked.settles_bind, settles_heapSearchSome]
  exact ⟨fun _ _ => heapFits, fun _ _ => trivial⟩

/-- A search of a valid query ends by itself exactly when its requests can be met. -/
theorem settles_heapSearchWithEf (valid : ValidSearch arith store.inner query k efSearch)
    (filter : Option Filter) :
    (store.heapSearchWithEf heap arith graphs query k filter efSearch).Settles ↔
      store.SearchFits arith k filter := by
  obtain ⟨prepared, -, prepares⟩ := valid.prepareQuery
  unfold heapSearchWithEf SearchFits
  rw [if_neg (not_lt.mpr valid.enough), if_neg valid.positive,
    if_neg (not_not.mpr valid.dimension)]
  cases filter with
  | some filter =>
    rw [if_neg (by simp)]
    exact settles_heapSearchFiltered valid filter
  | none =>
    by_cases segments : store.indexes = []
    · rw [if_neg fun both => both.2 segments]
      have whole : store.heapSearchGraphs heap arith graphs query k efSearch =
          store.heapSearchAll heap arith query k none := if_pos (by simp [segments])
      simp only
      rw [whole]
      exact Collection.settles_heapSearch.trans
        ⟨fun fits => fits prepared prepares, fun fits _ _ => fits⟩
    · rw [if_pos ⟨rfl, segments⟩]
      exact settles_heapSearchGraphs valid segments

/-- Where the requests can be met the allocations change nothing. -/
theorem heapSearchWithEf_of_fits {filter : Option Filter} (fits : store.SearchFits arith k filter) :
    store.heapSearchWithEf heap arith graphs query k filter efSearch =
      Checked.ofResult (store.searchWithEf arith graphs query k filter efSearch) := by
  have all : ∀ filter, Collection.HeapFits k →
      store.heapSearchAll heap arith query k filter =
        Checked.ofResult (store.inner.search arith query k filter) :=
    fun _ heapFits => Collection.heapSearch_of_fits heapFits (.refl _)
  have some : ∀ ids filter, Collection.HeapFits k →
      store.heapSearchSome heap arith query k ids filter =
        Checked.ofResult (store.inner.searchIds arith query k ids filter) :=
    fun _ _ heapFits => Collection.heapSearchIds_of_fits heapFits (.refl _)
  unfold heapSearchWithEf searchWithEf
  split
  next => rfl
  split
  next => rfl
  next positive =>
    split
    next => rfl
    cases filter with
    | some filter =>
      have heapFits : Collection.HeapFits k := by simpa [SearchFits] using fits
      simp only
      unfold heapSearchFiltered searchFiltered
      cases store.metadataIndex with
      | none => exact all _ heapFits
      | some index =>
        simp only [some _ _ heapFits, Checked.ofResult_bind]
        rfl
    | none =>
      simp only
      unfold heapSearchGraphs searchGraphs
      unfold SearchFits at fits
      by_cases segments : store.indexes = []
      · rw [if_neg fun both => both.2 segments] at fits
        rw [if_pos (by simp [segments]), if_pos (by simp [segments])]
        exact all _ fits
      · rw [if_pos ⟨rfl, segments⟩] at fits
        have heapFits := heapFits_of_segments (Nat.pos_of_ne_zero positive) segments fits
        rw [if_neg (by simpa using segments), if_neg (by simpa using segments),
          Checked.bind_ok (Checked.capacity_of_lt fits)]
        simp only [some _ _ heapFits, Checked.ofResult_bind]
        rfl

end PersistentCollection

end FocalVector.Persistence
