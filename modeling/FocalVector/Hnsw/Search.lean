import FocalVector.Hnsw.Graph

/-!
Contract: searching a graph.

A search walks greedily through the upper layers and then searches the lowest layer for as
many nodes as it is asked to consider. It works on every graph whose links and vectors are
in place, whatever the links are: that is all the decoder of a stored graph makes sure of.

Owns: `greedyClosest`, `searchLayer`, `search`, the condition under which they return, and
what a layer search finds.

Does not own: which nodes can be reached in a graph that was built.
-/

namespace FocalVector.Hnsw

open FocalVector.Foundation FocalVector.Engine

structure HnswHit where
  id : String
  score : F32
deriving DecidableEq

/-- What a layer search works on: the marks, the nodes to expand and the best nodes found,
the best ones first. The heaps of the source are ordered lists here. -/
structure LayerSearch where
  workspace : BuildWorkspace
  frontier : List HeapItem
  results : List HeapItem

/-- `push` of a heap -/
def pushItem (items : List HeapItem) (item : HeapItem) : List HeapItem :=
  items.orderedInsert (·.rank ≤ ·.rank) item

/-- Whether a node is among the best ones so far, or there is room for it. -/
def LayerSearch.qualifies (search : LayerSearch) (ef : Nat) (item : HeapItem) : Checking Bool :=
  if search.results.length < ef then
    return true
  else do
    let worst ← Checked.expect search.results.getLast?
    return decide (item.rank < worst.rank)

namespace HnswIndex

section

variable (arith : HnswArithmetic) (index : HnswIndex) (query : PreparedVector)

def closer (best : Nat × F32) (neighbor : Nat) : Checking (Nat × F32) := do
  let score ← index.score arith query neighbor
  let id ← Checked.get index.ids neighbor
  let bestId ← Checked.get index.ids best.1
  return if scoredRank score id < scoredRank best.2 bestId then (neighbor, score) else best

def closestNeighbor (layer current : Nat) : Checking Nat := do
  let score ← index.score arith query current
  let links ← index.neighbors current layer
  let best ← links.foldlM (index.closer arith query) (current, score)
  return best.1

def greedyLoop (layer : Nat) : Nat → Nat → Checking Nat
  | 0, _ => .error .unfinished
  | fuel + 1, current => do
      let best ← index.closestNeighbor arith query layer current
      if best = current then return current else greedyLoop layer fuel best

/-- `greedy_closest`: no walk moves to more nodes than there are. -/
def greedyClosest (start layer : Nat) : Checking Nat :=
  index.greedyLoop arith query layer (index.nodes.length + 1) start

/-- Walk through some layers, from the highest down to the one above `bottom`. -/
def descend (bottom : Nat) : Nat → Nat → Checking Nat
  | 0, current => return current
  | layers + 1, current => do
      let next ← index.greedyClosest arith query current (bottom + layers + 1)
      descend bottom layers next

def visitNeighbor (ef : Nat) (search : LayerSearch) (neighbor : Nat) : Checking LayerSearch := do
  let (fresh, workspace) ← search.workspace.visit neighbor
  if fresh then
    let item : HeapItem := ⟨neighbor, ← index.score arith query neighbor⟩
    if ← search.qualifies ef item then
      let results := pushItem search.results item
      return { workspace
               frontier := pushItem search.frontier item
               results := if ef < results.length then results.dropLast else results }
    else
      return { search with workspace }
  else
    return { search with workspace }

/-- Expand the best node of the frontier, at most so many times. -/
def searchLoop (ef layer : Nat) : Nat → LayerSearch → Checking LayerSearch
  | 0, _ => .error .unfinished
  | fuel + 1, search =>
    match search.frontier with
    | [] => return search
    | candidate :: rest => do
        let worst ← Checked.expect search.results.getLast?
        if ef ≤ search.results.length ∧ worst.rank < candidate.rank then
          return search
        let links ← index.neighbors candidate.index layer
        let next ← links.foldlM (index.visitNeighbor arith query ef)
          { search with frontier := rest }
        searchLoop ef layer fuel next

/-- `search_layer`: no search expands more nodes than there are. -/
def searchLayer (entry ef layer : Nat) (workspace : BuildWorkspace) :
    Checking (List HeapItem × BuildWorkspace) := do
  let workspace := workspace.begin index.nodes.length
  let item : HeapItem := ⟨entry, ← index.score arith query entry⟩
  let (_, workspace) ← workspace.visit entry
  let search ← index.searchLoop arith query ef layer (index.nodes.length + 1)
    ⟨workspace, [item], [item]⟩
  let items ← index.sortItems search.results
  return (items, search.workspace)

end

/-- `search_layer_for_build`, which is the same loop. -/
def searchLayerForBuild (arith : HnswArithmetic) (index : HnswIndex) (query : PreparedVector)
    (entry ef layer : Nat) (workspace : BuildWorkspace) :
    Checking (List HeapItem × BuildWorkspace) :=
  index.searchLayer arith query entry ef layer workspace

/-- `take_search_workspace` -/
def takeSearchWorkspace (pool : List BuildWorkspace) : BuildWorkspace × List BuildWorkspace :=
  (pool.getLast?.getD .new, pool.dropLast)

/-- `return_search_workspace` -/
def returnSearchWorkspace (pool : List BuildWorkspace) (workspace : BuildWorkspace) :
    List BuildWorkspace :=
  if pool.length < 8 then pool ++ [workspace] else pool

/-- `search`, with the pool of marks before and after it. -/
def search (arith : HnswArithmetic) (index : HnswIndex) (pool : List BuildWorkspace)
    (query : List F32) (k efSearch : Nat) : Checking (List HnswHit × List BuildWorkspace) := do
  if k = 0 then
    .error (.error (.invalidQuery "k must be greater than zero"))
  else if efSearch < k then
    .error (.error (.invalidQuery "ef_search must be at least k"))
  else if query.length ≠ index.dimension then
    .error (.error (.invalidDimension index.dimension query.length))
  else do
    let prepared ← Checked.ofResult (index.metric.prepare arith.toFloatArithmetic query)
    let query := PreparedVector.new arith prepared index.vectorStorage
    match index.entryPoint with
    | none => return ([], pool)
    | some entry => do
        let current ← index.descend arith query 0 index.maxLevel entry
        let (workspace, pool) := takeSearchWorkspace pool
        let (candidates, workspace) ← index.searchLayer arith query current efSearch 0 workspace
        let hits ← (candidates.take k).mapM fun item => do
          let id ← Checked.get index.ids item.index
          return ⟨id, item.score⟩
        return (hits, returnSearchWorkspace pool workspace)

/-! ## Graphs that can be searched -/

/-- Every link leads to a node, and every node has a vector and an id of its own. -/
structure Searchable (index : HnswIndex) : Prop where
  named : index.ids.length = index.nodes.length
  distinct : index.ids.Nodup
  linked : ∀ node < index.nodes.length, ∀ layer, ∃ links,
    index.neighbors node layer = .ok links ∧ ∀ link ∈ links, link < index.nodes.length
  stored : ∃ vectors : List PreparedVector, vectors.length = index.nodes.length ∧
    index.vectors.Holds index.dimension vectors
  bounded : index.nodes.length * index.dimension < 2 ^ 64
  entered : ∀ entry, index.entryPoint = some entry → entry < index.nodes.length

theorem Searchable.of_compaction {index final : HnswIndex} (building : index.compactGraph = none)
    (compacts : index.finalizeCompactGraph = .ok final) (layered : Layered index.nodes)
    (linked : ∀ node ∈ index.nodes, ∀ list ∈ node.neighbors, ∀ link ∈ list,
      link < index.nodes.length)
    (named : index.ids.length = index.nodes.length) (distinct : index.ids.Nodup)
    (stored : ∃ vectors : List PreparedVector, vectors.length = index.nodes.length ∧
      index.vectors.Holds index.dimension vectors)
    (bounded : index.nodes.length * index.dimension < 2 ^ 64)
    (entered : ∀ entry, index.entryPoint = some entry → entry < index.nodes.length) :
    Searchable final := by
  have sameLists := neighbors_finalizeCompactGraph layered building compacts
  obtain ⟨-, -, rfl⟩ := finalizeCompactGraph_eq_ok building compacts
  have sameLength := (length_compactNodes 0 0 index.nodes).1
  rw [← sameLength] at named stored bounded entered
  refine ⟨named, distinct, fun node inside layer => ?_, stored, bounded, entered⟩
  obtain ⟨stored, isNode, found⟩ := @Checked.exists_get Error _ index.nodes node (sameLength ▸ inside)
  rw [sameLists]
  unfold neighbors
  rw [Checked.bind_ok found, building]
  split
  · exact ⟨[], rfl, nofun⟩
  refine ⟨_, rfl, fun link isLink => ?_⟩
  cases isLayer : stored.neighbors[layer]? with
  | none => simp [isLayer] at isLink
  | some list =>
    rw [isLayer] at isLink
    exact sameLength ▸ linked stored (List.mem_of_getElem? isNode) list
      (List.mem_of_getElem? isLayer) link isLink

def linksAt (index : HnswIndex) (layer node : Nat) : List Nat :=
  ((index.neighbors node layer).toOption).getD []

def scoreAt (arith : HnswArithmetic) (index : HnswIndex) (query : PreparedVector) (node : Nat) :
    F32 :=
  ((index.score arith query node).toOption).getD ⟨0⟩

def itemAt (arith : HnswArithmetic) (index : HnswIndex) (query : PreparedVector) (node : Nat) :
    HeapItem :=
  ⟨node, index.scoreAt arith query node⟩

def itemHit (index : HnswIndex) (item : HeapItem) : HnswHit :=
  ⟨(index.ids[item.index]?).getD "", item.score⟩

/-- The order of the items that a search returns. -/
def idRank (index : HnswIndex) (item : HeapItem) : Int ×ₗ String :=
  scoredRank item.score ((index.ids[item.index]?).getD "")

/-- The order of nodes in a greedy walk. -/
def nearness (arith : HnswArithmetic) (index : HnswIndex) (query : PreparedVector) (node : Nat) :
    Int ×ₗ String :=
  index.idRank (index.itemAt arith query node)

/-- The query has the form of the vectors of the graph. -/
def Takes (index : HnswIndex) (query : PreparedVector) : Prop :=
  query.Fits index.vectorStorage index.dimension

variable {arith : HnswArithmetic} {index : HnswIndex} {query : PreparedVector}
  {node layer : Nat}

namespace Searchable

section

variable (searchable : Searchable index)

include searchable

theorem neighbors_eq (inside : node < index.nodes.length)
    (layer : Nat) :
    index.neighbors node layer = .ok (index.linksAt layer node) ∧
      ∀ link ∈ index.linksAt layer node, link < index.nodes.length := by
  obtain ⟨links, returns, bounded⟩ := searchable.linked node inside layer
  have same : index.linksAt layer node = links := by rw [linksAt, returns]; rfl
  rw [same]
  exact ⟨returns, bounded⟩

theorem vector_returns (inside : node < index.nodes.length) :
    ∃ vector, index.vector node = .ok vector ∧ index.Takes vector := by
  obtain ⟨vectors, count, holds⟩ := searchable.stored
  have found := List.getElem?_eq_getElem (count ▸ inside : node < vectors.length)
  refine ⟨_, holds.get ?_ found, holds.fits (List.mem_of_getElem? found)⟩
  rw [count]
  exact searchable.bounded

theorem score_eq (arith : HnswArithmetic) (takes : index.Takes query)
    (inside : node < index.nodes.length) :
    index.score arith query node = .ok (index.scoreAt arith query node) := by
  obtain ⟨vector, returns, fits⟩ := searchable.vector_returns inside
  obtain ⟨score, scored⟩ := scoreVectors_returns arith index.metric takes fits
  have whole : index.score arith query node = .ok score := by
    rw [HnswIndex.score, Checked.bind_ok returns, scored]
  rw [scoreAt, whole]
  rfl

theorem id_eq (inside : node < index.nodes.length) :
    (Checked.get index.ids node : Checking String) = .ok ((index.ids[node]?).getD "") := by
  obtain ⟨id, found, reads⟩ :=
    @Checked.exists_get Error _ index.ids node (searchable.named.symm ▸ inside)
  rw [reads, found]
  rfl

theorem id_mem (inside : node < index.nodes.length) :
    (index.ids[node]?).getD "" ∈ index.ids := by
  rw [← searchable.named] at inside
  rw [List.getElem?_eq_getElem inside]
  exact List.getElem_mem inside

theorem id_inj {other : Nat} (inside : node < index.nodes.length)
    (otherInside : other < index.nodes.length)
    (same : (index.ids[node]?).getD "" = (index.ids[other]?).getD "") : node = other := by
  rw [← searchable.named] at inside otherInside
  rw [List.getElem?_eq_getElem inside, List.getElem?_eq_getElem otherInside] at same
  exact (List.Nodup.getElem_inj_iff searchable.distinct).mp same

theorem idRank_inj {left right : HeapItem}
    (leftInside : left.index < index.nodes.length) (rightInside : right.index < index.nodes.length)
    (same : index.idRank left = index.idRank right) : left.index = right.index :=
  searchable.id_inj leftInside rightInside (congrArg (fun rank => (ofLex rank).2) same)

/-! ### The greedy walk -/

theorem closer_eq (takes : index.Takes query) {best neighbor : Nat}
    (isBest : best < index.nodes.length) (inside : neighbor < index.nodes.length) :
    index.closer arith query (best, index.scoreAt arith query best) neighbor =
      .ok (better (index.nearness arith query) best neighbor,
        index.scoreAt arith query
          (better (index.nearness arith query) best neighbor)) := by
  unfold closer
  rw [Checked.bind_ok (searchable.score_eq arith takes inside),
    Checked.bind_ok (searchable.id_eq inside), Checked.bind_ok (searchable.id_eq isBest)]
  unfold better nearness idRank itemAt
  split <;> rfl

theorem closestNeighbor_eq (takes : index.Takes query)
    (inside : node < index.nodes.length) (layer : Nat) :
    index.closestNeighbor arith query layer node =
      .ok (bestNeighbor (index.nearness arith query)
        (index.linksAt layer) node) := by
  obtain ⟨links, bounded⟩ := searchable.neighbors_eq inside layer
  obtain ⟨final, folds, same⟩ := @Checked.foldlM_simulates Error Nat (Nat × F32) Nat
    (index.closer arith query) (better (index.nearness arith query))
    (fun state best => best < index.nodes.length ∧ state = (best, index.scoreAt arith query best))
    (index.linksAt layer node) (by
      rintro neighbor isLink _ best ⟨isBest, rfl⟩
      refine ⟨_, searchable.closer_eq takes isBest (bounded neighbor isLink), ?_, rfl⟩
      unfold better
      split
      · exact bounded neighbor isLink
      · exact isBest)
    (node, index.scoreAt arith query node) node ⟨inside, rfl⟩
  unfold closestNeighbor
  rw [Checked.bind_ok (searchable.score_eq arith takes inside), Checked.bind_ok links,
    Checked.bind_ok folds, same.2]
  rfl

end

variable (arith) in
theorem greedyClosest_returns (searchable : Searchable index) (takes : index.Takes query)
    {among : Nat → Prop} (inside : ∀ node, among node → node < index.nodes.length)
    (closed : ∀ node, among node → ∀ link ∈ index.linksAt layer node, among link)
    (start : among node) :
    ∃ final, index.greedyClosest arith query node layer = .ok final ∧ among final := by
  classical
  have walks : ∀ fuel node, among node →
      index.greedyLoop arith query layer fuel node =
        (greedyWalk (index.nearness arith query) (index.linksAt layer) fuel node).elim
          (.error .unfinished) .ok := by
    intro fuel
    induction fuel with
    | zero => exact fun _ _ => rfl
    | succ fuel ih =>
      intro node isAmong
      unfold greedyLoop greedyWalk
      rw [Checked.bind_ok (searchable.closestNeighbor_eq takes (inside node isAmong) layer)]
      split
      next => rfl
      next moves =>
        refine ih _ ?_
        exact closed node isAmong _ ((bestNeighbor_cases _ _ node).resolve_left moves).1
  have member : ∀ node, node ∈ (List.range index.nodes.length).filter (among ·) ↔ among node := by
    intro node
    simp only [List.mem_filter, List.mem_range, decide_eq_true_eq]
    exact ⟨And.right, fun isAmong => ⟨inside node isAmong, isAmong⟩⟩
  have few : ((List.range index.nodes.length).filter (among ·)).length ≤ index.nodes.length :=
    (List.length_filter_le _ _).trans_eq List.length_range
  obtain ⟨final, ends, -, isFinal⟩ := @greedyWalk_returns Nat _ _
    (index.nearness arith query) (index.linksAt layer) node
    ((List.range index.nodes.length).filter (among ·)) _
    (fun node isAmong link isLink =>
      (member link).mpr (closed node ((member node).mp isAmong) link isLink))
    (index.nodes.length + 1) ((member node).mpr start)
    (Nat.lt_succ_of_le (List.countP_le_length.trans few))
  refine ⟨final, ?_, (member final).mp isFinal⟩
  rw [greedyClosest, walks _ _ start, ends, Option.elim_some]

variable (arith) in
theorem descend_returns (searchable : Searchable index) (takes : index.Takes query)
    (bottom layers : Nat) (inside : node < index.nodes.length) :
    ∃ final, index.descend arith query bottom layers node = .ok final ∧
      final < index.nodes.length := by
  induction layers generalizing node with
  | zero => exact ⟨node, rfl, inside⟩
  | succ layers ih =>
    obtain ⟨next, walks, nextInside⟩ := searchable.greedyClosest_returns arith takes
      (fun _ isInside => isInside)
      (fun node isInside => (searchable.neighbors_eq isInside (bottom + layers + 1)).2) inside
    obtain ⟨final, ends, finalInside⟩ := ih nextInside
    exact ⟨final, by rw [descend, Checked.bind_ok walks, ends], finalInside⟩

/-! ### The layer search -/

end Searchable

def itemLinks (arith : HnswArithmetic) (index : HnswIndex) (query : PreparedVector) (layer : Nat)
    (item : HeapItem) : List HeapItem :=
  (index.linksAt layer item.index).map (index.itemAt arith query)

/-- A layer search in the state of a best-first search of the items. -/
structure Tracks (arith : HnswArithmetic) (index : HnswIndex) (query : PreparedVector) (ef : Nat)
    (search : LayerSearch) (state : BestFirst HeapItem) : Prop where
  frontier : search.frontier = state.frontier
  results : search.results = state.results
  marks : search.workspace.visited.length = index.nodes.length
  visited : ∀ node < index.nodes.length,
    search.workspace.Visited node ↔ index.itemAt arith query node ∈ state.seen
  items : ∀ item ∈ state.seen, item.index < index.nodes.length ∧
    item = index.itemAt arith query item.index
  pending : ∀ item ∈ state.frontier, item ∈ state.seen
  nonempty : state.results ≠ []
  fits : state.results.length ≤ ef

theorem itemAt_injective (arith : HnswArithmetic) (index : HnswIndex) (query : PreparedVector) :
    Function.Injective (index.itemAt arith query) :=
  fun _ _ same => congrArg HeapItem.index same

namespace Searchable

variable {ef : Nat} {search : LayerSearch} {state : BestFirst HeapItem}

theorem qualifies_eq (tracks : Tracks arith index query ef search state) (item : HeapItem) :
    search.qualifies ef item =
      .ok (decide (BestFirst.Qualifies HeapItem.rank ef state.results item)) := by
  have last := List.getLast?_eq_some_getLast tracks.nonempty
  unfold LayerSearch.qualifies
  rw [tracks.results]
  split
  next room =>
    have joins : BestFirst.Qualifies HeapItem.rank ef state.results item := Or.inl room
    rw [decide_eq_true joins]
    rfl
  next full =>
    have same : BestFirst.Qualifies HeapItem.rank ef state.results item ↔
        item.rank < (state.results.getLast tracks.nonempty).rank := by
      simp [BestFirst.Qualifies, last, full]
    rw [last, Checked.expect, Checked.bind_ok rfl, decide_eq_decide.mpr same]
    rfl

theorem length_offer_le (fits : state.results.length ≤ ef) (item : HeapItem) :
    (state.offer HeapItem.rank ef item).results.length ≤ ef := by
  by_cases member : item ∈ state.seen
  · rw [BestFirst.offer_of_mem member]
    exact fits
  · rw [BestFirst.results_offer member, BestFirst.length_keepBetter fits]
    exact min_le_left _ _

section

variable (searchable : Searchable index)

include searchable

/-- Looking at a neighbour offers it to the best-first search. -/
theorem visitNeighbor_tracks (takes : index.Takes query)
    (tracks : Tracks arith index query ef search state) {neighbor : Nat}
    (inside : neighbor < index.nodes.length) :
    ∃ next, index.visitNeighbor arith query ef search neighbor = .ok next ∧
      Tracks arith index query ef next
        (state.offer HeapItem.rank ef (index.itemAt arith query neighbor)) := by
  obtain ⟨fresh, workspace, visits, isFresh, marks, visited⟩ :=
    BuildWorkspace.visit_returns (tracks.marks.symm ▸ inside)
  rw [tracks.visited neighbor inside] at isFresh
  have seen := @BestFirst.mem_seen_offer HeapItem _ _ _ HeapItem.rank ef state
    (index.itemAt arith query neighbor)
  have positive : 0 < ef := lt_of_lt_of_le (List.length_pos_iff.mpr tracks.nonempty) tracks.fits
  have tracksNext : ∀ next : LayerSearch, next.workspace = workspace →
      next.frontier = (state.offer HeapItem.rank ef (index.itemAt arith query neighbor)).frontier →
      next.results = (state.offer HeapItem.rank ef (index.itemAt arith query neighbor)).results →
      (state.offer HeapItem.rank ef (index.itemAt arith query neighbor)).results ≠ [] →
      Tracks arith index query ef next
        (state.offer HeapItem.rank ef (index.itemAt arith query neighbor)) :=
    fun next sameMarks sameFrontier sameResults nonempty => {
      frontier := sameFrontier
      results := sameResults
      marks := by rw [sameMarks, marks, tracks.marks]
      visited := fun node isInside => by
        rw [sameMarks, visited, tracks.visited node isInside, seen,
          (itemAt_injective arith index query).eq_iff]
      items := fun item isSeen => by
        rcases seen.mp isSeen with rfl | before
        · exact ⟨inside, rfl⟩
        · exact tracks.items item before
      pending := fun item isPending =>
        seen.mpr ((BestFirst.pending_offer isPending).imp id (tracks.pending item))
      nonempty := nonempty
      fits := length_offer_le tracks.fits _ }
  unfold visitNeighbor
  rw [Checked.bind_ok visits]
  simp only
  cases fresh with
  | false =>
    have member : index.itemAt arith query neighbor ∈ state.seen := by simpa using isFresh
    have same := @BestFirst.offer_of_mem HeapItem _ _ _ HeapItem.rank ef state _ member
    refine ⟨_, rfl, tracksNext _ rfl ?_ ?_ ?_⟩
    · rw [same]
      exact tracks.frontier
    · rw [same]
      exact tracks.results
    · rw [same]
      exact tracks.nonempty
  | true =>
    have notMember : index.itemAt arith query neighbor ∉ state.seen := isFresh.mp rfl
    have results := @BestFirst.results_offer HeapItem _ _ _ HeapItem.rank ef state _ notMember
    have nonempty : (state.offer HeapItem.rank ef (index.itemAt arith query neighbor)).results ≠
        [] := by
      rw [results, ← List.length_pos_iff, BestFirst.length_keepBetter tracks.fits]
      omega
    rw [if_pos rfl, Checked.bind_ok (searchable.score_eq arith takes inside),
      Checked.bind_ok (qualifies_eq tracks _)]
    by_cases qualifies : BestFirst.Qualifies HeapItem.rank ef state.results
        (index.itemAt arith query neighbor)
    · have isTrue : decide (BestFirst.Qualifies HeapItem.rank ef state.results
          ⟨neighbor, index.scoreAt arith query neighbor⟩) = true := decide_eq_true qualifies
      rw [if_pos isTrue]
      refine ⟨_, rfl, tracksNext _ rfl ?_ ?_ nonempty⟩
      · unfold BestFirst.offer
        rw [if_neg notMember, if_pos qualifies, ← tracks.frontier]
        rfl
      · rw [results, BestFirst.keepBetter_of_qualifies tracks.fits qualifies, ← tracks.results]
        rfl
    · have isFalse : ¬ decide (BestFirst.Qualifies HeapItem.rank ef state.results
          ⟨neighbor, index.scoreAt arith query neighbor⟩) = true := fun isTrue =>
        qualifies (of_decide_eq_true isTrue)
      rw [if_neg isFalse]
      refine ⟨_, rfl, tracksNext _ rfl ?_ ?_ nonempty⟩
      · unfold BestFirst.offer
        rw [if_neg notMember, if_neg qualifies]
        exact tracks.frontier
      · rw [results, BestFirst.keepBetter_of_not_qualifies qualifies]
        exact tracks.results

theorem expand_tracks (takes : index.Takes query)
    (tracks : Tracks arith index query ef search state) {item : HeapItem} {rest : List HeapItem}
    (first : state.frontier = item :: rest) (layer : Nat) :
    ∃ next, (index.linksAt layer item.index).foldlM (index.visitNeighbor arith query ef)
        { search with frontier := rest } = .ok next ∧
      Tracks arith index query ef next (BestFirst.expand HeapItem.rank
        (index.itemLinks arith query layer) ef { state with frontier := rest } item) := by
  have taken : Tracks arith index query ef { search with frontier := rest }
      { state with frontier := rest } := {
    tracks with
    frontier := rfl
    pending := fun other member =>
      tracks.pending other (first ▸ List.mem_cons_of_mem _ member) }
  have inside := (tracks.items item (tracks.pending item (first ▸ List.mem_cons_self))).1
  unfold BestFirst.expand itemLinks
  rw [List.foldl_map]
  exact @Checked.foldlM_simulates Error Nat LayerSearch (BestFirst HeapItem) _
    (fun state neighbor => state.offer HeapItem.rank ef (index.itemAt arith query neighbor))
    (Tracks arith index query ef) _ (fun neighbor isLink _ _ tracks =>
      searchable.visitNeighbor_tracks takes tracks
        ((searchable.neighbors_eq inside layer).2 neighbor isLink)) _ _ taken

theorem searchLoop_tracks (takes : index.Takes query)
    (layer : Nat) {fuel : Nat} {final : BestFirst HeapItem}
    (tracks : Tracks arith index query ef search state)
    (ends : BestFirst.loop HeapItem.rank (index.itemLinks arith query layer) ef fuel state =
      some final) :
    ∃ found, index.searchLoop arith query ef layer fuel search = .ok found ∧
      Tracks arith index query ef found final := by
  induction fuel generalizing search state with
  | zero => cases ends
  | succ fuel ih =>
    unfold BestFirst.loop at ends
    unfold searchLoop
    rw [tracks.frontier]
    cases first : state.frontier with
    | nil =>
      rw [first] at ends
      exact ⟨search, rfl, Option.some.inj ends ▸ tracks⟩
    | cons item rest =>
      rw [first] at ends
      simp only at ends ⊢
      have last := List.getLast?_eq_some_getLast tracks.nonempty
      have same : BestFirst.Finished HeapItem.rank ef state.results item ↔
          ef ≤ state.results.length ∧
            (state.results.getLast tracks.nonempty).rank < item.rank := by
        simp [BestFirst.Finished, last]
      rw [tracks.results, last, Checked.expect, Checked.bind_ok rfl]
      by_cases finished : BestFirst.Finished HeapItem.rank ef state.results item
      · rw [if_pos finished] at ends
        rw [if_pos (same.mp finished)]
        exact ⟨search, rfl, Option.some.inj ends ▸ tracks⟩
      · rw [if_neg finished] at ends
        rw [if_neg fun done => finished (same.mpr done)]
        have inside := (tracks.items item (tracks.pending item (first ▸ List.mem_cons_self))).1
        obtain ⟨next, expands, tracksNext⟩ := searchable.expand_tracks takes tracks first layer
        obtain ⟨found, returns, kept⟩ := ih tracksNext ends
        refine ⟨found, ?_, kept⟩
        rw [Checked.bind_ok (searchable.neighbors_eq inside layer).1]
        rw [← tracks.results, Checked.bind_ok expands, returns]

/-! ### What a layer search returns -/

theorem sortItems_returns {items : List HeapItem}
    (inside : ∀ item ∈ items, item.index < index.nodes.length) :
    ∃ sorted, index.sortItems items = .ok sorted ∧ sorted.Perm items ∧
      sorted.Pairwise (index.idRank · ≤ index.idRank ·) := by
  have named : (items.mapM fun item => do
      let id ← Checked.get index.ids item.index
      return (item, id) : Checking (List (HeapItem × String))) =
      .ok (items.map fun item => (item, (index.ids[item.index]?).getD "")) :=
    Checked.mapM_of_forall fun item member => by
      rw [Checked.bind_ok (searchable.id_eq (inside item member))]
      rfl
  unfold sortItems
  rw [Checked.bind_ok named]
  refine ⟨_, rfl, ?_, ?_⟩
  · refine ((List.perm_insertionSort _ _).map _).trans (List.Perm.of_eq ?_)
    rw [List.map_map]
    exact List.map_id _
  · have sorted := List.pairwise_insertionSort (fun left right : HeapItem × String =>
      scoredRank left.1.score left.2 ≤ scoredRank right.1.score right.2)
      (items.map fun item => (item, (index.ids[item.index]?).getD ""))
    refine List.pairwise_map.mpr (sorted.imp_of_mem fun isLeft isRight before => ?_)
    obtain ⟨left, -, rfl⟩ := List.mem_map.mp ((List.mem_insertionSort _).mp isLeft)
    obtain ⟨right, -, rfl⟩ := List.mem_map.mp ((List.mem_insertionSort _).mp isRight)
    exact before

theorem reaches_inside {entry : Nat}
    (inside : entry < index.nodes.length) (reached : Reaches (index.linksAt layer) entry node) :
    node < index.nodes.length := by
  induction reached with
  | refl => exact inside
  | tail _ linked ih =>
    exact (searchable.neighbors_eq ih layer).2 _ linked

end

theorem reaches_itemLinks {entry : Nat} {item : HeapItem} :
    Reaches (index.itemLinks arith query layer) (index.itemAt arith query entry) item ↔
      ∃ node, Reaches (index.linksAt layer) entry node ∧ index.itemAt arith query node = item := by
  constructor
  · intro reached
    induction reached with
    | refl => exact ⟨entry, .refl, rfl⟩
    | tail _ linked ih =>
      obtain ⟨node, before, rfl⟩ := ih
      obtain ⟨next, isLink, rfl⟩ := List.mem_map.mp linked
      exact ⟨next, before.tail isLink, rfl⟩
  · rintro ⟨node, reached, rfl⟩
    induction reached with
    | refl => exact .refl
    | tail _ linked ih =>
      exact ih.tail (List.mem_map_of_mem linked)

end Searchable

/-- What a layer search returns, and the marks it leaves: the nodes it scored. -/
structure SearchedLayer (arith : HnswArithmetic) (index : HnswIndex) (query : PreparedVector)
    (entry ef layer : Nat) (items : List HeapItem) (workspace : BuildWorkspace) : Prop where
  distinct : (items.map HeapItem.index).Nodup
  reached : ∀ item ∈ items, Reaches (index.linksAt layer) entry item.index
  sorted : items.Pairwise (index.idRank · < index.idRank ·)
  visited : ∀ node, workspace.Visited node → Reaches (index.linksAt layer) entry node
  best : ∃ best, items.Perm best ∧ IsBest HeapItem.rank ef
    {item | workspace.Visited item.index ∧
      index.score arith query item.index = .ok item.score} best
  complete : items.length = min ef {node | Reaches (index.linksAt layer) entry node}.ncard

namespace Searchable

theorem start_tracks (arith : HnswArithmetic) (query : PreparedVector) {entry : Nat}
    (inside : entry < index.nodes.length) (positive : 0 < ef) (workspace : BuildWorkspace) :
    ∃ fresh started, (workspace.begin index.nodes.length).visit entry = .ok (fresh, started) ∧
      Tracks arith index query ef
        ⟨started, [index.itemAt arith query entry], [index.itemAt arith query entry]⟩
        ⟨[index.itemAt arith query entry], [index.itemAt arith query entry],
          [index.itemAt arith query entry]⟩ := by
  obtain ⟨fresh, started, visits, -, marks, visited⟩ :=
    BuildWorkspace.visit_returns ((workspace.length_begin _).symm ▸ inside :
      entry < (workspace.begin index.nodes.length).visited.length)
  refine ⟨fresh, started, visits, ?_⟩
  exact {
    frontier := rfl
    results := rfl
    marks := marks.trans (workspace.length_begin _)
    visited := fun node _ => by
      rw [visited, List.mem_singleton, (itemAt_injective arith index query).eq_iff]
      exact or_iff_left (workspace.not_visited_begin _ _)
    items := fun item isSeen => List.mem_singleton.mp isSeen ▸ ⟨inside, rfl⟩
    pending := fun _ member => member
    nonempty := List.cons_ne_nil _ _
    fits := positive }

variable (arith) in
/-- A layer search returns, and the marks of earlier searches do not matter. -/
theorem searchLayer_returns (searchable : Searchable index) (takes : index.Takes query)
    {entry : Nat} (inside : entry < index.nodes.length) (positive : 0 < ef) (layer : Nat) :
    ∃ items, ∀ workspace, ∃ after,
      index.searchLayer arith query entry ef layer workspace = .ok (items, after) ∧
        SearchedLayer arith index query entry ef layer items after := by
  have reaches := @reaches_itemLinks arith index query layer entry
  have closed : ∀ item, Reaches (index.itemLinks arith query layer)
      (index.itemAt arith query entry) item →
        item ∈ (List.range index.nodes.length).map (index.itemAt arith query) := by
    intro item reached
    obtain ⟨node, reachedNode, rfl⟩ := reaches.mp reached
    exact List.mem_map_of_mem (List.mem_range.mpr (searchable.reaches_inside inside reachedNode))
  obtain ⟨final, ends, searching, counted⟩ := BestFirst.search_returns HeapItem.rank_injective
    positive closed (by simp : _ < index.nodes.length + 1)
  have isItem : ∀ item ∈ final.results, ∃ node, Reaches (index.linksAt layer) entry node ∧
      index.itemAt arith query node = item := fun item member =>
    reaches.mp (searching.reached item (searching.best.sound item member))
  have resultsInside : ∀ item ∈ final.results, item.index < index.nodes.length := by
    intro item member
    obtain ⟨node, reached, rfl⟩ := isItem item member
    exact searchable.reaches_inside inside reached
  obtain ⟨items, sorts, same, sorted⟩ := searchable.sortItems_returns resultsInside
  have distinct : (items.map HeapItem.index).Nodup := by
    refine List.Nodup.map_on ?_ (same.nodup_iff.mpr searching.best.nodup)
    intro left isLeft right isRight sameNode
    obtain ⟨leftNode, -, rfl⟩ := isItem left (same.mem_iff.mp isLeft)
    obtain ⟨rightNode, -, rfl⟩ := isItem right (same.mem_iff.mp isRight)
    exact congrArg _ sameNode
  refine ⟨items, fun workspace => ?_⟩
  obtain ⟨fresh, started, visits, tracks⟩ :=
    start_tracks arith query inside positive workspace
  obtain ⟨found, returns, tracked⟩ := searchable.searchLoop_tracks takes layer tracks ends
  refine ⟨found.workspace, ?_, ?_⟩
  · unfold searchLayer
    rw [Checked.bind_ok (searchable.score_eq arith takes inside), Checked.bind_ok visits]
    unfold itemAt at returns
    simp only
    rw [Checked.bind_ok returns, tracked.results, Checked.bind_ok sorts]
    rfl
  have isSeen : ∀ node, found.workspace.Visited node ↔
      node < index.nodes.length ∧ index.itemAt arith query node ∈ final.seen := by
    intro node
    refine ⟨fun visited => ?_, fun seen => (tracked.visited node seen.1).mpr seen.2⟩
    have bounded : node < index.nodes.length :=
      tracked.marks ▸ (List.getElem?_eq_some_iff.mp visited).1
    exact ⟨bounded, (tracked.visited node bounded).mp visited⟩
  exact {
    distinct
    reached := fun item member => by
      obtain ⟨node, reached, rfl⟩ := isItem item (same.mem_iff.mp member)
      exact reached
    sorted := by
      refine (sorted.and (List.pairwise_map.mp distinct)).imp_of_mem
        fun isLeft isRight ordered => ?_
      refine lt_of_le_of_ne ordered.1 fun sameRank => ordered.2 ?_
      exact searchable.idRank_inj (resultsInside _ (same.mem_iff.mp isLeft))
        (resultsInside _ (same.mem_iff.mp isRight)) sameRank
    visited := fun node visited => by
      obtain ⟨other, reached, sameItem⟩ :=
        reaches.mp (searching.reached _ ((isSeen node).mp visited).2)
      exact itemAt_injective arith index query sameItem ▸ reached
    best := by
      refine ⟨final.results, same, searching.best.congr fun item => ?_⟩
      constructor
      · intro seen
        obtain ⟨bounded, isOwn⟩ := tracked.items item seen
        refine ⟨(isSeen _).mpr ⟨bounded, isOwn ▸ seen⟩, ?_⟩
        rw [searchable.score_eq arith takes bounded]
        exact congrArg (fun own : HeapItem => Except.ok own.score) isOwn.symm
      · rintro ⟨visited, scored⟩
        obtain ⟨bounded, seen⟩ := (isSeen _).mp visited
        rw [searchable.score_eq arith takes bounded] at scored
        have isOwn : index.itemAt arith query item.index = item := by
          rw [itemAt, Except.ok.inj scored]
        exact isOwn ▸ seen
    complete := by
      have image : {item | Reaches (index.itemLinks arith query layer)
          (index.itemAt arith query entry) item} =
          Set.image (index.itemAt arith query)
            {node | Reaches (index.linksAt layer) entry node} :=
        Set.ext fun _ => reaches
      rw [same.length_eq, counted, image,
        Set.ncard_image_of_injective _ (itemAt_injective arith index query)] }

/-- A search of a graph with nodes returns the best of the nodes that its layer search
found, as many as it is asked for or as can be reached. -/
theorem search_returns (searchable : Searchable index) {vector prepared : List F32} {entry k : Nat}
    (entered : index.entryPoint = some entry) (sized : vector.length = index.dimension)
    (prepares : index.metric.prepare arith.toFloatArithmetic vector = .ok prepared)
    (positive : 0 < k) (wide : k ≤ ef) :
    ∃ final hits, index.descend arith (.new arith prepared index.vectorStorage) 0 index.maxLevel
        entry = .ok final ∧ final < index.nodes.length ∧
      (hits.map HnswHit.id).Nodup ∧ (∀ hit ∈ hits, hit.id ∈ index.ids) ∧
      hits.length = min k {node | Reaches (index.linksAt 0) final node}.ncard ∧
      ∀ pool, ∃ after, index.search arith pool vector k ef = .ok (hits, after) := by
  have takes : index.Takes (.new arith prepared index.vectorStorage) := by
    have fits := @fits_new arith prepared index.vectorStorage
    rw [Metric.prepare_length prepares, sized] at fits
    exact fits
  obtain ⟨final, descends, inside⟩ := searchable.descend_returns arith takes 0 index.maxLevel
    (searchable.entered entry entered)
  obtain ⟨items, searches⟩ := searchable.searchLayer_returns arith takes inside
    (positive.trans_le wide) 0
  obtain ⟨_, -, searched⟩ := searches .new
  have itemsInside : ∀ item ∈ items, item.index < index.nodes.length := fun item member =>
    searchable.reaches_inside inside (searched.reached item member)
  have taken : ∀ item ∈ items.take k, item.index < index.nodes.length := fun item member =>
    itemsInside item (List.mem_of_mem_take member)
  refine ⟨final, (items.take k).map index.itemHit, descends, inside, ?_, ?_, ?_, fun pool => ?_⟩
  · have distinct := (List.pairwise_map.mp searched.distinct).sublist (List.take_sublist k items)
    rw [List.map_map]
    refine List.pairwise_map.mpr (distinct.imp_of_mem fun isLeft isRight different same => ?_)
    exact different (searchable.id_inj (taken _ isLeft) (taken _ isRight) same)
  · intro hit isHit
    obtain ⟨item, member, rfl⟩ := List.mem_map.mp isHit
    exact searchable.id_mem (taken item member)
  · rw [List.length_map, List.length_take, searched.complete, ← min_assoc, min_eq_left wide]
  · have named : ((items.take k).mapM fun item => do
        let id ← Checked.get index.ids item.index
        return ⟨id, item.score⟩ : Checking (List HnswHit)) =
        .ok ((items.take k).map index.itemHit) :=
      Checked.mapM_of_forall fun item member => by
        rw [Checked.bind_ok (searchable.id_eq (taken item member))]
        rfl
    obtain ⟨after, returns, -⟩ := searches (takeSearchWorkspace pool).1
    refine ⟨returnSearchWorkspace (takeSearchWorkspace pool).2 after, ?_⟩
    unfold search
    rw [if_neg positive.ne', if_neg wide.not_gt, if_neg (not_not.mpr sized), prepares,
      Checked.ofResult, Except.mapError, Checked.bind_ok rfl, entered]
    simp only
    rw [Checked.bind_ok descends, Checked.bind_ok returns]
    simp only
    rw [Checked.bind_ok named]
    rfl

end Searchable

variable (arith) in
/-- On every graph with links and vectors in place, a layer search of any width returns. It
finds nodes that the entry reaches, the best of those it scored and as many as there are
or as it may return, and a search returns the first of what it finds in the lowest layer. -/
theorem layer_search_exact (searchable : Searchable index) :
    (∀ query layer entry ef workspace, index.Takes query → entry < index.nodes.length → 0 < ef →
      ∃ items after, index.searchLayer arith query entry ef layer workspace = .ok (items, after) ∧
        SearchedLayer arith index query entry ef layer items after) ∧
    ∀ vector prepared entry pool k efSearch, index.entryPoint = some entry →
      vector.length = index.dimension →
      index.metric.prepare arith.toFloatArithmetic vector = .ok prepared →
      0 < k → k ≤ efSearch →
      ∃ final hits after,
        index.descend arith (.new arith prepared index.vectorStorage) 0 index.maxLevel entry =
          .ok final ∧
        index.search arith pool vector k efSearch = .ok (hits, after) ∧
        hits.length = min k {node | Reaches (index.linksAt 0) final node}.ncard := by
  constructor
  · intro query layer entry ef workspace takes inside positive
    obtain ⟨items, searches⟩ := searchable.searchLayer_returns arith takes inside positive layer
    exact ⟨items, searches workspace⟩
  · intro vector prepared entry pool k efSearch entered sized prepares positive wide
    obtain ⟨final, hits, descends, -, -, -, count, searches⟩ :=
      searchable.search_returns entered sized prepares positive wide
    obtain ⟨after, returns⟩ := searches pool
    exact ⟨final, hits, after, descends, returns, count⟩

def pairGraph : HnswIndex where
  dimension := 1
  metric := .dotProduct
  config := .default
  nodes := [⟨0, 0, [[1]]⟩, ⟨0, 0, [[0]]⟩]
  ids := ["a", "b"]
  vectors := .f32 [⟨0⟩, ⟨0x3f800000⟩]
  entryPoint := some 0
  maxLevel := 0
  compactGraph := none

theorem searchable_pairGraph : Searchable pairGraph where
  named := rfl
  distinct := by decide
  linked := by
    intro node inside layer
    have either : node = 0 ∨ node = 1 := by
      simp only [pairGraph, List.length_cons, List.length_nil] at inside
      omega
    rcases either with rfl | rfl
    · cases layer with
      | zero => exact ⟨[1], rfl, by decide⟩
      | succ layer => exact ⟨[], rfl, nofun⟩
    · cases layer with
      | zero => exact ⟨[0], rfl, by decide⟩
      | succ layer => exact ⟨[], rfl, nofun⟩
  stored := ⟨[.f32 [⟨0⟩], .f32 [⟨0x3f800000⟩]], rfl,
    @VectorArena.Holds.f32 1 [[⟨0⟩], [⟨0x3f800000⟩]] (by decide)⟩
  bounded := by decide
  entered := by
    intro entry isEntry
    cases isEntry
    decide

theorem pair_graph_search_exact :
    ∃ items after, pairGraph.searchLayer .unit (.f32 [⟨0x3f800000⟩]) 0 2 0 .new =
        .ok (items, after) ∧
      SearchedLayer .unit pairGraph (.f32 [⟨0x3f800000⟩]) 0 2 0 items after :=
  (layer_search_exact .unit searchable_pairGraph).1 _ 0 0 2 .new ⟨rfl, rfl⟩ (by decide) (by decide)

end HnswIndex

end FocalVector.Hnsw
