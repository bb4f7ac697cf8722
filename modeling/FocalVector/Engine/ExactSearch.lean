import FocalVector.Engine.Search
import FocalVector.Foundation.Checked
import FocalVector.Foundation.MaxHeap

/-!
Contract: the exact search with the heap and the iteration order of the engine.

The engine goes through the points in the order of a hash map, keeps the best ones in a
binary heap whose top is the worst of them, and sorts what is left. The search of a
collection is stated with ordered lists in place of maps and heaps; here the heap is any
queue that gives out its greatest item and the points come in any order, and the result is
the same. The heap is allocated for `k` points before the first one is looked at.

Owns: `RankedPoint`, `topRanked`, the search with a heap and when its allocation fails.

Does not own: the memory of one point.
-/

namespace FocalVector.Engine

open FocalVector.Foundation

structure RankedPoint where
  point : StoredPoint
  score : F32

namespace RankedPoint

/-- The order of the heap: the better point is the smaller one. -/
def rank (ranked : RankedPoint) : Int ×ₗ String :=
  toLex (-ranked.score.totalPlace, ranked.point.id)

def hit (ranked : RankedPoint) : SearchHit where
  id := ranked.point.id
  score := ranked.score
  metadata := ranked.point.metadata
  sequence := ranked.point.sequence

def bytes : Nat := 16

end RankedPoint

def SearchHit.bytes : Nat := 64

abbrev PointHeap : Type 1 := MaxHeap RankedPoint RankedPoint.rank

variable (heap : PointHeap)

def topRanked (k : Nat) (ranked : List RankedPoint) : List SearchHit :=
  (heap.keepSmallest k ranked).map RankedPoint.hit

namespace Collection

variable (arith : SearchArithmetic) (collection : Collection)

def rankPoint (query : List F32) (point : StoredPoint) : RankedPoint :=
  ⟨point, collection.config.metric.score arith query point.vector⟩

/-- `top_k`, with the allocation of the heap -/
def heapTopK (query : List F32) (k : Nat) (points : List StoredPoint) :
    Checked Error (List SearchHit) := do
  Checked.capacity (min (k + 1) (2 ^ 64 - 1)) RankedPoint.bytes
  return topRanked heap k (points.map (collection.rankPoint arith query))

/-- `search`, on the points in the order of the map -/
def heapSearch (order : List StoredPoint) (query : List F32) (k : Nat) (filter : Option Filter) :
    Checked Error (List SearchHit) := do
  let prepared ← Checked.ofResult (collection.prepareQuery arith query k)
  collection.heapTopK heap arith prepared k
    (order.filter fun point => passes arith.toIntegerConversion filter point.metadata)

/-- `search_ids`, on the ids in the order of the set -/
def heapSearchIds (order : List String) (query : List F32) (k : Nat) (filter : Option Filter) :
    Checked Error (List SearchHit) := do
  let prepared ← Checked.ofResult (collection.prepareQuery arith query k)
  collection.heapTopK heap arith prepared k
    ((order.filterMap collection.points.get).filter fun point =>
      passes arith.toIntegerConversion filter point.metadata)

end Collection

/-! ## What the heap keeps -/

variable {heap} {k : Nat}

theorem RankedPoint.ranks_nodup {ranked : List RankedPoint}
    (distinct : (ranked.map fun entry => entry.point.id).Nodup) :
    (ranked.map RankedPoint.rank).Nodup := by
  refine List.Nodup.of_map (fun key : Int ×ₗ String => (ofLex key).2) ?_
  rw [List.map_map]
  exact distinct

theorem topRanked_eq {ranked : List RankedPoint}
    (distinct : (ranked.map fun entry => entry.point.id).Nodup) :
    topRanked heap k ranked =
      ((ranked.insertionSort (RankedPoint.rank · ≤ RankedPoint.rank ·)).take k).map
        RankedPoint.hit := by
  have ranks := RankedPoint.ranks_nodup distinct
  rw [topRanked, MaxHeap.keepSmallest_eq_keepBest ranks, keepBest_eq_take ranks]

namespace Collection

variable {arith : SearchArithmetic} {collection : Collection} {query prepared : List F32}
  {filter : Option Filter}

variable {points : List StoredPoint}

/-- The heap finds what the ordered list finds. -/
theorem topRanked_eq_topK (distinct : (points.map StoredPoint.id).Nodup) :
    topRanked heap k (points.map (collection.rankPoint arith query)) =
      collection.topK arith query k points := by
  have ranks : ((points.map (collection.rankPoint arith query)).map RankedPoint.rank).Nodup :=
    RankedPoint.ranks_nodup (by rwa [List.map_map])
  rw [topRanked, MaxHeap.keepSmallest_eq_keepBest ranks]
  have formed : IsBest SearchHit.rank k (Set.image RankedPoint.hit _)
      ((keepBest RankedPoint.rank k (points.map (collection.rankPoint arith query))).map
        RankedPoint.hit) := (isBest_keepBest ranks).map fun _ => rfl
  refine (formed.congr fun hit => ?_).unique (isBest_topK distinct)
  simp only [Set.mem_image, Set.mem_ofPred_eq, List.mem_map, exists_exists_and_eq_and]
  exact exists_congr fun point => and_congr_right fun _ => eq_comm

/-- The allocation of the heap for a search of `k` hits. -/
def HeapFits (k : Nat) : Prop := min (k + 1) (2 ^ 64 - 1) * RankedPoint.bytes < 2 ^ 63

instance (k : Nat) : Decidable (HeapFits k) := by
  unfold HeapFits
  infer_instance

theorem heapFits_iff : HeapFits k ↔ k + 1 < 2 ^ 59 := by
  unfold HeapFits RankedPoint.bytes
  omega

theorem settles_heapTopK :
    (collection.heapTopK heap arith query k points).Settles ↔ HeapFits k := by
  unfold heapTopK
  rw [Checked.settles_capacity_bind]
  exact and_iff_left trivial

theorem heapTopK_perm_filter {left right : List StoredPoint} (same : left.Perm right)
    (distinct : (left.map StoredPoint.id).Nodup) (keep : StoredPoint → Bool) :
    collection.heapTopK heap arith query k (left.filter keep) =
      collection.heapTopK heap arith query k (right.filter keep) := by
  have kept := same.filter keep
  have keptDistinct : ((left.filter keep).map StoredPoint.id).Nodup :=
    distinct.sublist (List.filter_sublist.map _)
  unfold heapTopK
  rw [topRanked_eq_topK keptDistinct, topRanked_eq_topK ((kept.map _).nodup_iff.mp keptDistinct),
    topK_perm kept keptDistinct]

variable {order : List StoredPoint}

/-- A search whose heap can be allocated is the search of the ordered list. -/
theorem heapTopK_filter (fits : HeapFits k)
    (same : order.Perm points) (distinct : (points.map StoredPoint.id).Nodup)
    (keep : StoredPoint → Bool) :
    collection.heapTopK heap arith query k (order.filter keep) =
      .ok (collection.topK arith query k (points.filter keep)) := by
  have keptDistinct : ((points.filter keep).map StoredPoint.id).Nodup :=
    distinct.sublist (List.filter_sublist.map _)
  rw [heapTopK_perm_filter same ((same.map _).nodup_iff.mpr distinct)]
  unfold heapTopK
  rw [Checked.bind_ok (Checked.capacity_of_lt fits), topRanked_eq_topK keptDistinct]
  rfl

theorem settles_heapSearch : (collection.heapSearch heap arith order query k filter).Settles ↔
      ∀ prepared, collection.prepareQuery arith query k = .ok prepared → HeapFits k := by
  unfold heapSearch
  rw [Checked.settles_ofResult_bind]
  exact forall₂_congr fun _ _ => settles_heapTopK

theorem settles_heapSearchIds {order : List String} :
    (collection.heapSearchIds heap arith order query k filter).Settles ↔
      ∀ prepared, collection.prepareQuery arith query k = .ok prepared → HeapFits k := by
  unfold heapSearchIds
  rw [Checked.settles_ofResult_bind]
  exact forall₂_congr fun _ _ => settles_heapTopK

theorem heapSearch_of_fits (fits : HeapFits k)
    (same : order.Perm collection.points.values) :
    collection.heapSearch heap arith order query k filter =
      Checked.ofResult (collection.search arith query k filter) := by
  unfold heapSearch search
  cases collection.prepareQuery arith query k with
  | error error => rfl
  | ok prepared =>
    exact heapTopK_filter fits same collection.points.values_ids_nodup _

theorem heapSearchIds_of_fits {ids : IdSet} {order : List String} (fits : HeapFits k)
    (same : order.Perm ids.toList) :
    collection.heapSearchIds heap arith order query k filter =
      Checked.ofResult (collection.searchIds arith query k ids filter) := by
  unfold heapSearchIds searchIds
  cases collection.prepareQuery arith query k with
  | error error => rfl
  | ok prepared =>
    exact heapTopK_filter fits (same.filterMap collection.points.get) (filterMap_get_nodup ids) _

theorem heapTopK_eq (distinct : (points.map StoredPoint.id).Nodup) :
    collection.heapTopK heap arith query k points =
      if k + 1 < 2 ^ 59 then
        .ok ((((points.map (collection.rankPoint arith query)).insertionSort
          (RankedPoint.rank · ≤ RankedPoint.rank ·)).take k).map RankedPoint.hit)
      else Checked.panic .capacity := by
  have kept := @topRanked_eq heap k (points.map (collection.rankPoint arith query))
    (by rwa [List.map_map])
  unfold heapTopK
  by_cases fits : k + 1 < 2 ^ 59
  · rw [if_pos fits, Checked.bind_ok (Checked.capacity_of_lt (heapFits_iff.mpr fits)), kept]
    rfl
  · have large : ¬ min (k + 1) (2 ^ 64 - 1) * RankedPoint.bytes < 2 ^ 63 :=
      heapFits_iff.not.mpr fits
    rw [if_neg fits, Checked.capacity, if_neg large]
    rfl

variable (heap) in
/-- `top_k` returns the first points in the order of score and id, whatever the scores are and
in whatever order the points come, and panics when its heap cannot be allocated. So a search
of the collection or of some ids has one result for all orders of its map and its sets. -/
theorem exact_search :
    (∀ (arith : SearchArithmetic) (collection : Collection) (query : List F32) (k : Nat)
        (points : List StoredPoint), (points.map StoredPoint.id).Nodup →
      collection.heapTopK heap arith query k points =
        if k + 1 < 2 ^ 59 then
          .ok ((((points.map (collection.rankPoint arith query)).insertionSort
            (RankedPoint.rank · ≤ RankedPoint.rank ·)).take k).map RankedPoint.hit)
        else Checked.panic .capacity) ∧
    (∀ (k : Nat) (ranked : List RankedPoint), (ranked.map fun entry => entry.point.id).Nodup →
      topRanked heap k ranked =
        ((ranked.insertionSort (RankedPoint.rank · ≤ RankedPoint.rank ·)).take k).map
          RankedPoint.hit) ∧
    (∀ (arith : SearchArithmetic) (collection : Collection) (left right : List StoredPoint)
        (query : List F32) (k : Nat) (filter : Option Filter),
      left.Perm collection.points.values → right.Perm collection.points.values →
      collection.heapSearch heap arith left query k filter =
        collection.heapSearch heap arith right query k filter) ∧
    ∀ (arith : SearchArithmetic) (collection : Collection) (ids : IdSet) (left right : List String)
        (query : List F32) (k : Nat) (filter : Option Filter),
      left.Perm ids.toList → right.Perm ids.toList →
      collection.heapSearchIds heap arith left query k filter =
        collection.heapSearchIds heap arith right query k filter := by
  refine ⟨fun arith collection query k points => heapTopK_eq, fun k ranked => topRanked_eq, ?_, ?_⟩
  · intro arith collection left right query k filter isLeft isRight
    unfold heapSearch
    congr 1
    funext prepared
    exact heapTopK_perm_filter (isLeft.trans isRight.symm)
      ((isLeft.map _).nodup_iff.mpr collection.points.values_ids_nodup) _
  · intro arith collection ids left right query k filter isLeft isRight
    unfold heapSearchIds
    congr 1
    funext prepared
    exact heapTopK_perm_filter ((isLeft.trans isRight.symm).filterMap _)
      (((isLeft.filterMap _).map _).nodup_iff.mpr (filterMap_get_nodup ids)) _

/-- Of three points, the best one is found first, and of two with one score the one with the
smaller id. -/
theorem tied_points_by_id :
    let collection : Collection := ⟨⟨1, .dotProduct, by decide⟩, .empty, 3⟩
    (collection.heapTopK (.ordered RankedPoint.rank) .unit [⟨0x3f800000⟩] 2
        [⟨"b", [⟨0x3f800000⟩], ∅, 1⟩, ⟨"a", [⟨0x3f800000⟩], ∅, 2⟩,
          ⟨"c", [⟨0x40000000⟩], ∅, 3⟩]).map (·.map fun hit => (hit.id, hit.score)) =
      .ok [("c", ⟨0x40000000⟩), ("a", ⟨0x3f800000⟩)] := by
  intro collection
  rw [(exact_search (.ordered RankedPoint.rank)).1 _ _ _ _ _ (by decide), if_pos (by decide)]
  exact congrArg Except.ok (by decide +kernel)

/-- The heap for the largest `k` cannot be allocated, so that `top_k` panics without having
looked at a point. -/
theorem unallocatable_heap_panics :
    let collection : Collection := ⟨⟨1, .dotProduct, by decide⟩, .empty, 1⟩
    collection.heapTopK (.ordered RankedPoint.rank) .unit [⟨0x3f800000⟩] (2 ^ 64 - 1)
      [⟨"a", [⟨0x3f800000⟩], ∅, 1⟩] = Checked.panic .capacity := rfl

end Collection

end FocalVector.Engine
