import FocalVector.Engine.Filter
import FocalVector.Foundation.TopK
import Mathlib.Data.Prod.Lex
import Mathlib.Data.String.Basic

/-!
Contract: exact search in a collection.

A hit carries the score, the metadata and the sequence of a point. Hits are
ranked by falling score and then by id, in the total order of the bits of a
score, so that also NaN scores have a place. A search keeps the k best hits of a
stream of points in a bounded queue; the order of the stream, which is that of a
hash table, does not matter.

Owns: `Metric.score`, `SearchHit`, the searches of a collection, the merge of
hits, and what they find.

Does not own: approximate indexes.
-/

namespace FocalVector.Engine

open FocalVector.Foundation

/-! ## Scores -/

/-- The arithmetic of a search: what preparing and scoring a vector need, and the
conversion of integers. -/
structure SearchArithmetic extends FloatArithmetic, IntegerConversion where
  add32 : F32 → F32 → F32
  sub32 : F32 → F32 → F32

def SearchArithmetic.unit : SearchArithmetic where
  toFloatArithmetic := { FloatArithmetic.normalised with
    mul32 := fun left right => if left.bits = 0x3f800000 then right else left }
  ofInteger _ := ⟨0⟩
  ofInteger_finite := IntegerConversion.zero.ofInteger_finite
  add32 left right := if left.bits = 0 ∨ left.bits = 0x80000000 then right else left
  sub32 left _ := left

/-- An arithmetic that is exact on the smallest positive number, whose inverse is not
a single-precision number. -/
def SearchArithmetic.smallest : SearchArithmetic :=
  { SearchArithmetic.unit with
    widen := fun _ => ⟨0x36a0000000000000⟩
    mul64 := fun _ _ => ⟨0x2d50000000000000⟩
    add64 := fun _ right => right
    sqrt := fun _ => ⟨0x36a0000000000000⟩
    recip := fun _ => ⟨0x4940000000000000⟩
    narrow := fun _ => ⟨0x7f800000⟩
    mul32 := fun _ right => right }

/-- `-value` -/
def F32.neg (value : F32) : F32 := ⟨value.bits ^^^ 0x80000000⟩

/-- The place of a number in the order of `total_cmp`, which compares the bits as
a signed word, with the others flipped where the sign is set. -/
def F32.totalPlace (value : F32) : Int :=
  if value.bits < 0x80000000 then value.bits.toNat else 0x7fffffff - value.bits.toNat

section Scores

variable (arith : SearchArithmetic)

/-- `sum::<f32>()`, which starts from negative zero. -/
def sum32 (values : List F32) : F32 := values.foldl arith.add32 ⟨0x80000000⟩

/-- Four running sums over chunks of four components, and what is left of the
vectors. -/
def laneSums (term : F32 → F32 → F32) (sums : F32 × F32 × F32 × F32) :
    List F32 → List F32 → List F32 × List F32 × List F32
  | l0 :: l1 :: l2 :: l3 :: left, r0 :: r1 :: r2 :: r3 :: right =>
    laneSums term (arith.add32 sums.1 (term l0 r0), arith.add32 sums.2.1 (term l1 r1),
      arith.add32 sums.2.2.1 (term l2 r2), arith.add32 sums.2.2.2 (term l3 r3)) left right
  | left, right => ([sums.1, sums.2.1, sums.2.2.1, sums.2.2.2], left, right)

/-- Add up a term for each pair of components, in the order of the engine. -/
def sumTerms (term : F32 → F32 → F32) (left right : List F32) : F32 :=
  let zero : F32 := ⟨0⟩
  let (sums, leftRest, rightRest) := laneSums arith term (zero, zero, zero, zero) left right
  arith.add32 (sum32 arith sums) (sum32 arith (leftRest.zipWith term rightRest))

def dotProduct (left right : List F32) : F32 := sumTerms arith arith.mul32 left right

def squaredDistance (left right : List F32) : F32 :=
  sumTerms arith (fun left right =>
    let delta := arith.sub32 left right
    arith.mul32 delta delta) left right

def Metric.score : Metric → List F32 → List F32 → F32
  | .cosine, query, candidate => Engine.dotProduct arith query candidate
  | .dotProduct, query, candidate => Engine.dotProduct arith query candidate
  | .euclidean, query, candidate => (squaredDistance arith query candidate).neg

end Scores

/-! ## Hits -/

structure SearchHit where
  id : String
  score : F32
  metadata : Metadata
  sequence : UInt64

def SearchHit.rank (hit : SearchHit) : Int ×ₗ String := toLex (-hit.score.totalPlace, hit.id)

def StoredPoint.hit (arith : SearchArithmetic) (metric : Metric) (query : List F32)
    (point : StoredPoint) : SearchHit where
  id := point.id
  score := metric.score arith query point.vector
  metadata := point.metadata
  sequence := point.sequence

/-- Sort hits, drop repeated ids and keep the first `k`. -/
def mergeHits (hits : List SearchHit) (k : Nat) : List SearchHit :=
  mergeBest SearchHit.rank k SearchHit.id hits

def passes (conversion : IntegerConversion) (filter : Option Filter) (metadata : Metadata) : Bool :=
  filter.all (Filter.matchesMetadata conversion metadata)

namespace Collection

variable (arith : SearchArithmetic)

/-- The `k` best of a stream of points. The heap of the engine, whose top is its
worst point, is a list here, with the worst point last. -/
def topK (collection : Collection) (query : List F32) (k : Nat) (points : List StoredPoint) :
    List SearchHit :=
  keepBest SearchHit.rank k (points.map (StoredPoint.hit arith collection.config.metric query))

def prepareQuery (collection : Collection) (query : List F32) (k : Nat) : Result (List F32) :=
  if k = 0 then
    .error (.invalidQuery "k must be greater than zero")
  else if query.length ≠ collection.config.dimension then
    .error (.invalidDimension collection.config.dimension query.length)
  else
    collection.config.metric.prepare arith.toFloatArithmetic query

def search (collection : Collection) (query : List F32) (k : Nat) (filter : Option Filter) :
    Result (List SearchHit) := do
  let prepared ← collection.prepareQuery arith query k
  return collection.topK arith prepared k
    (collection.points.values.filter fun point =>
      passes arith.toIntegerConversion filter point.metadata)

/-- `search_ids`: search only among some ids. -/
def searchIds (collection : Collection) (query : List F32) (k : Nat) (ids : IdSet)
    (filter : Option Filter) : Result (List SearchHit) := do
  let prepared ← collection.prepareQuery arith query k
  return collection.topK arith prepared k
    ((ids.toList.filterMap collection.points.get).filter fun point =>
      passes arith.toIntegerConversion filter point.metadata)

end Collection

/-- A query that a collection takes, and bounds that a search takes. -/
structure ValidSearch (arith : SearchArithmetic) (collection : Collection) (query : List F32)
    (k efSearch : Nat) : Prop where
  positive : k ≠ 0
  enough : k ≤ efSearch
  dimension : query.length = collection.config.dimension
  prepared : ∃ prepared,
    collection.config.metric.prepare arith.toFloatArithmetic query = .ok prepared

theorem ValidSearch.prepareQuery {arith : SearchArithmetic} {collection : Collection}
    {query : List F32} {k efSearch : Nat}
    (valid : ValidSearch arith collection query k efSearch) :
    ∃ prepared, collection.config.metric.prepare arith.toFloatArithmetic query = .ok prepared ∧
      collection.prepareQuery arith query k = .ok prepared := by
  obtain ⟨prepared, prepares⟩ := valid.prepared
  refine ⟨prepared, prepares, ?_⟩
  unfold Collection.prepareQuery
  rw [if_neg valid.positive, if_neg (not_not.mpr valid.dimension), prepares]

/-! ## What a search finds -/

theorem SearchHit.id_of_rank {left right : SearchHit} (same : left.rank = right.rank) :
    left.id = right.id :=
  congrArg (fun key : Int ×ₗ String => (ofLex key).2) same

namespace Collection

variable {arith : SearchArithmetic} {collection : Collection} {query prepared : List F32} {k : Nat}
  {filter : Option Filter}

/-- The hits of the live points that a choice of ids and a filter let pass. -/
def hits (arith : SearchArithmetic) (collection : Collection) (query : List F32)
    (chosen : String → Prop) (filter : Option Filter) : Set SearchHit :=
  {hit | ∃ point, collection.points.get point.id = some point ∧ chosen point.id ∧
    passes arith.toIntegerConversion filter point.metadata = true ∧
    hit = point.hit arith collection.config.metric query}

variable {chosen others : String → Prop}

theorem eq_of_id {other : Option Filter} {left right : SearchHit}
    (isLeft : left ∈ collection.hits arith query chosen filter)
    (isRight : right ∈ collection.hits arith query others other) (same : left.id = right.id) :
    left = right := by
  obtain ⟨point, found, -, -, rfl⟩ := isLeft
  obtain ⟨point', found', -, -, rfl⟩ := isRight
  have sameId : point.id = point'.id := same
  rw [sameId, found'] at found
  rw [Option.some.inj found]

theorem mem_hits_of_chosen {hit : SearchHit}
    (isHit : hit ∈ collection.hits arith query chosen filter) :
    hit ∈ collection.hits arith query (fun _ => True) filter := by
  obtain ⟨point, found, -, passed, same⟩ := isHit
  exact ⟨point, found, trivial, passed, same⟩

theorem isBest_topK {points : List StoredPoint} (distinct : (points.map StoredPoint.id).Nodup) :
    IsBest SearchHit.rank k
      {hit | ∃ point ∈ points, hit = point.hit arith collection.config.metric query}
      (collection.topK arith query k points) := by
  have ranks : ((points.map (StoredPoint.hit arith collection.config.metric query)).map
      SearchHit.rank).Nodup := by
    refine List.Nodup.of_map (fun key : Int ×ₗ String => (ofLex key).2) ?_
    rw [List.map_map, List.map_map]
    exact distinct
  refine (isBest_keepBest ranks).congr fun hit => ?_
  simp [eq_comm]

/-- The order of the points of a search does not matter. -/
theorem topK_perm {left right : List StoredPoint} (perm : left.Perm right)
    (distinct : (left.map StoredPoint.id).Nodup) :
    collection.topK arith query k left = collection.topK arith query k right :=
  (isBest_topK distinct).unique ((isBest_topK ((perm.map _).nodup_iff.mp distinct)).congr
    fun hit => by simp only [Set.mem_ofPred_eq, perm.mem_iff])

theorem search_eq (valid : collection.prepareQuery arith query k = .ok prepared)
    (filter : Option Filter) :
    ∃ best, collection.search arith query k filter = .ok best ∧
      IsBest SearchHit.rank k (collection.hits arith prepared (fun _ => True) filter) best := by
  unfold search
  rw [valid]
  refine ⟨_, rfl, (isBest_topK ?_).congr fun hit => ?_⟩
  · exact collection.points.values_ids_nodup.sublist (List.filter_sublist.map _)
  · simp only [hits, Set.mem_ofPred_eq, List.mem_filter, PointMap.mem_values, true_and, and_assoc]

theorem length_of_isBest {best : List SearchHit}
    (isBest : IsBest SearchHit.rank k (collection.hits arith prepared (fun _ => True) filter) best) :
    best.length = min k (collection.points.values.countP fun point =>
      passes arith.toIntegerConversion filter point.metadata) := by
  have listed := isBest.congr fun hit =>
    show _ ↔ hit ∈ {hit | hit ∈ (collection.points.values.filter fun point =>
        passes arith.toIntegerConversion filter point.metadata).map
          (StoredPoint.hit arith collection.config.metric prepared)} by
      simp only [Collection.hits, true_and, Set.mem_ofPred_eq, List.mem_map, List.mem_filter,
        PointMap.mem_values, and_assoc, eq_comm]
  have distinct : ((collection.points.values.filter fun point =>
      passes arith.toIntegerConversion filter point.metadata).map
        (StoredPoint.hit arith collection.config.metric prepared)).Nodup := by
    refine List.Nodup.of_map SearchHit.id ?_
    rw [List.map_map]
    exact collection.points.values_ids_nodup.sublist (List.filter_sublist.map _)
  rw [listed.length_eq distinct, List.length_map, List.countP_eq_length_filter]

theorem length_search (valid : collection.prepareQuery arith query k = .ok prepared) {hits : List SearchHit}
    (searched : collection.search arith query k none = .ok hits) :
    hits.length = min k collection.points.values.length := by
  obtain ⟨best, searchedBest, isBest⟩ := search_eq valid none
  cases searched.symm.trans searchedBest
  rw [length_of_isBest isBest]
  exact congrArg _ (List.countP_eq_length.mpr fun _ _ => rfl)

theorem mem_filterMap_get {ids : IdSet} {point : StoredPoint} :
    point ∈ ids.toList.filterMap collection.points.get ↔
      collection.points.get point.id = some point ∧ point.id ∈ ids := by
  rw [List.mem_filterMap]
  constructor
  · rintro ⟨id, member, found⟩
    have sameId := PointMap.id_of_get found
    subst sameId
    exact ⟨found, Std.ExtTreeSet.mem_toList.mp member⟩
  · rintro ⟨found, member⟩
    exact ⟨point.id, Std.ExtTreeSet.mem_toList.mpr member, found⟩

theorem filterMap_get_nodup (ids : IdSet) :
    ((ids.toList.filterMap collection.points.get).map StoredPoint.id).Nodup := by
  have distinct : ids.toList.Nodup :=
    Std.ExtTreeSet.distinct_toList.imp fun differ same => differ (Std.compare_eq_iff_eq.mpr same)
  generalize ids.toList = list at distinct
  induction list with
  | nil => exact List.nodup_nil
  | cons id rest ih =>
    rw [List.nodup_cons] at distinct
    cases found : collection.points.get id with
    | none =>
      rw [List.filterMap_cons_none found]
      exact ih distinct.2
    | some point =>
      rw [List.filterMap_cons_some found, List.map_cons, List.nodup_cons]
      refine ⟨fun repeated => distinct.1 ?_, ih distinct.2⟩
      obtain ⟨other, member, sameId⟩ := List.mem_map.mp repeated
      obtain ⟨source, isSource, isOther⟩ := List.mem_filterMap.mp member
      rw [← PointMap.id_of_get found, ← sameId, PointMap.id_of_get isOther]
      exact isSource

theorem searchIds_eq (valid : collection.prepareQuery arith query k = .ok prepared) (ids : IdSet)
    (filter : Option Filter) :
    ∃ best, collection.searchIds arith query k ids filter = .ok best ∧
      IsBest SearchHit.rank k (collection.hits arith prepared (· ∈ ids) filter) best := by
  unfold searchIds
  rw [valid]
  refine ⟨_, rfl, (isBest_topK ?_).congr fun hit => ?_⟩
  · exact (filterMap_get_nodup ids).sublist (List.filter_sublist.map _)
  · simp only [hits, Set.mem_ofPred_eq, List.mem_filter, mem_filterMap_get, and_assoc]

theorem isBest_mergeHits {chosen : String → Prop} {found : List SearchHit}
    (live : ∀ hit ∈ found, hit ∈ collection.hits arith prepared chosen filter) :
    IsBest SearchHit.rank k {hit | hit ∈ found} (mergeHits found k) :=
  isBest_mergeBest (fun left isLeft right isRight => eq_of_id (live left isLeft) (live right isRight))
    fun _ _ => SearchHit.id_of_rank

theorem mem_hits_or {hit : SearchHit} :
    hit ∈ collection.hits arith prepared (fun id => chosen id ∨ others id) filter ↔
      hit ∈ collection.hits arith prepared chosen filter ∪
        collection.hits arith prepared others filter := by
  constructor
  · rintro ⟨point, found, isChosen | isOther, passed, same⟩
    · exact .inl ⟨point, found, isChosen, passed, same⟩
    · exact .inr ⟨point, found, isOther, passed, same⟩
  · rintro (⟨point, found, isChosen, passed, same⟩ | ⟨point, found, isOther, passed, same⟩)
    · exact ⟨point, found, .inl isChosen, passed, same⟩
    · exact ⟨point, found, .inr isOther, passed, same⟩

theorem mem_hits_of_append {left right : List SearchHit}
    (inLeft : ∀ hit ∈ left, hit ∈ collection.hits arith prepared chosen filter)
    (inRight : ∀ hit ∈ right, hit ∈ collection.hits arith prepared others filter) :
    ∀ hit ∈ left ++ right,
      hit ∈ collection.hits arith prepared (fun id => chosen id ∨ others id) filter := by
  refine List.forall_mem_append.mpr ⟨fun hit member => ?_, fun hit member => ?_⟩
  · exact mem_hits_or.mpr (.inl (inLeft hit member))
  · exact mem_hits_or.mpr (.inr (inRight hit member))

theorem isBest_mergeHits_append {left right : List SearchHit}
    (isLeft : ∀ hit, hit ∈ left ↔ hit ∈ collection.hits arith prepared chosen filter)
    (isRight : IsBest SearchHit.rank k (collection.hits arith prepared others filter) right) :
    IsBest SearchHit.rank k
      (collection.hits arith prepared (fun id => chosen id ∨ others id) filter)
      (mergeHits (left ++ right) k) := by
  have live := mem_hits_of_append (fun hit => (isLeft hit).mp) isRight.sound
  refine (isRight.absorb ((isBest_mergeHits live).congr fun hit => ?_)).congr fun hit =>
    mem_hits_or.symm
  rw [Set.mem_ofPred_eq, List.mem_append, isLeft, Set.mem_union, Set.mem_ofPred_eq]

theorem isBest_mergeHits_union {left right : List SearchHit}
    (isLeft : IsBest SearchHit.rank k (collection.hits arith prepared chosen filter) left)
    (isRight : IsBest SearchHit.rank k (collection.hits arith prepared others filter) right) :
    IsBest SearchHit.rank k
      (collection.hits arith prepared (fun id => chosen id ∨ others id) filter)
      (mergeHits (left ++ right) k) := by
  have live := mem_hits_of_append isLeft.sound isRight.sound
  have merged : IsBest SearchHit.rank k ({hit | hit ∈ left} ∪ {hit | hit ∈ right})
      (mergeHits (left ++ right) k) :=
    (isBest_mergeHits live).congr fun hit => List.mem_append
  have absorbed := isRight.absorb merged
  rw [Set.union_comm] at absorbed
  refine (isLeft.absorb absorbed).congr fun hit => ?_
  rw [mem_hits_or, Set.union_comm]

theorem mergeHits_eq {found dirty best : List SearchHit} {ids : IdSet}
    (live : ∀ hit ∈ found, hit ∈ collection.hits arith prepared (fun _ => True) filter)
    (isDirty : IsBest SearchHit.rank k (collection.hits arith prepared (· ∈ ids) filter) dirty)
    (isBest : IsBest SearchHit.rank k (collection.hits arith prepared (fun _ => True) filter) best)
    (covers : ∀ hit ∈ best, hit.id ∉ ids → hit ∈ found) :
    mergeHits (found ++ dirty) k = best := by
  have smaller : collection.hits arith prepared (· ∈ ids) filter ⊆
      collection.hits arith prepared (fun _ => True) filter := by
    rintro hit ⟨point, isLive, -, rest⟩
    exact ⟨point, isLive, trivial, rest⟩
  have sound : ∀ hit ∈ found ++ dirty,
      hit ∈ collection.hits arith prepared (fun _ => True) filter := by
    intro hit member
    rcases List.mem_append.mp member with inFound | inDirty
    · exact live hit inFound
    · exact smaller (isDirty.sound hit inDirty)
  apply (isBest.eq_iff (isBest_mergeHits sound) sound).mpr
  intro hit isHit
  obtain ⟨point, isLive, -, rest⟩ := isBest.sound hit isHit
  rw [Set.mem_ofPred_eq, List.mem_append]
  by_cases inIds : hit.id ∈ ids
  · have sameId : hit.id = point.id := congrArg SearchHit.id rest.2
    exact .inr (isBest.mem_of_subset isDirty smaller ⟨point, isLive, sameId ▸ inIds, rest⟩ isHit)
  · exact .inl (covers hit isHit inIds)

end Collection

end FocalVector.Engine
