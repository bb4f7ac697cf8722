import FocalVector.Foundation.Buckets
import FocalVector.Hnsw.Search

/-!
Contract: building a graph, and why its links do not depend on the number of workers.

Points are inserted one after another at first. Later ones come in batches: the links of
all points of a batch are planned on the graph before the batch, by workers that share the
batch in chunks, and then the plans are carried out in order. A plan depends on the graph
and the point only, since a search does not depend on the marks of earlier ones, and there
are never more chunks than workers.

Owns: `selectNeighbors`, `prune`, `planInsert`, `applyInsertion`, the builders, and the
independence of the graph from its workers.

Does not own: what a built graph looks like. The set that the builders collect the ids in
is a list, and of several vectors that cannot be prepared the first one is reported.
-/

namespace FocalVector.Hnsw

open FocalVector.Foundation FocalVector.Engine

def parallelBuildSeed : Nat := 4096

def parallelBuildBatch : Nat := 512

structure PreparedPoint where
  id : String
  vector : PreparedVector
  level : Nat
deriving DecidableEq

/-- The nodes to link with, for each layer of the new node. -/
structure InsertionPlan where
  neighbors : List (List HeapItem)
deriving DecidableEq

namespace HnswIndex

section

variable (arith : HnswArithmetic) (index : HnswIndex)

/-! ## Choosing links -/

/-- The candidate is closer to the query than to all nodes selected before it. -/
def diverse (candidate : HeapItem) : List HeapItem → Checking Bool
  | [] => return true
  | other :: rest => do
      let score ← scoreVectors arith index.metric (← index.vector candidate.index)
        (← index.vector other.index)
      if F32.lt score candidate.score then diverse candidate rest else return false

def selectLoop (limit : Nat) :
    List HeapItem → List HeapItem → List HeapItem → Checking (List HeapItem × List HeapItem)
  | selected, rejected, [] => return (selected, rejected)
  | selected, rejected, candidate :: rest =>
    if selected.length = limit then
      return (selected, rejected)
    else do
      if ← index.diverse arith candidate selected then
        selectLoop limit (selected ++ [candidate]) rejected rest
      else
        selectLoop limit selected (rejected ++ [candidate]) rest

/-- `select_neighbors` -/
def selectNeighbors (candidates : List HeapItem) (limit : Nat) : Checking (List HeapItem) := do
  Checked.capacity limit 16
  let (selected, rejected) ← index.selectLoop arith limit [] [] candidates
  return selected ++ rejected.take (limit - selected.length)

/-- `nodes[node].neighbors[layer]` -/
def listAt (node layer : Nat) : Checking (List Nat) := do
  let stored ← Checked.get index.nodes node
  Checked.get stored.neighbors layer

def setLinks (node layer : Nat) (links : List Nat) : HnswIndex :=
  { index with
    nodes := index.nodes.modify node fun stored =>
      { stored with neighbors := stored.neighbors.set layer links } }

def linkItem (node link : Nat) : Checking HeapItem := do
  let score ← scoreVectors arith index.metric (← index.vector node) (← index.vector link)
  return ⟨link, score⟩

def prune (node layer : Nat) : Checking HnswIndex := do
  let links ← index.listAt node layer
  let limit := maxConnections index.config layer
  if links.length ≤ limit then
    return index
  else do
    let candidates ← links.mapM (index.linkItem arith node)
    let candidates ← index.sortItems candidates
    let selected ← index.selectNeighbors arith candidates limit
    return index.setLinks node layer (selected.map (·.index % 2 ^ 32))

/-! ## Inserting a point -/

def planLayers (vector : PreparedVector) :
    Nat → Nat → BuildWorkspace → Checking (List (List HeapItem) × BuildWorkspace)
  | 0, _, workspace => return ([], workspace)
  | layer + 1, current, workspace => do
      let (candidates, workspace) ← index.searchLayerForBuild arith vector current
        index.config.efConstruction layer workspace
      let selected ← index.selectNeighbors arith candidates (maxConnections index.config layer)
      let (lower, workspace) ← planLayers vector layer
        ((selected.head?.map HeapItem.index).getD current) workspace
      return (lower ++ [selected], workspace)

/-- `plan_insert` -/
def planInsert (point : PreparedPoint) (workspace : BuildWorkspace) :
    Checking (InsertionPlan × BuildWorkspace) := do
  let entry ← Checked.expect index.entryPoint
  let current ← index.descend arith point.vector point.level (index.maxLevel - point.level) entry
  let connectedLevels := min point.level index.maxLevel
  let (neighbors, workspace) ← index.planLayers arith point.vector (connectedLevels + 1) current
    workspace
  return (⟨neighbors ++ List.replicate (point.level - connectedLevels) []⟩, workspace)

def extendLinks (node layer : Nat) (links : List Nat) : Checking HnswIndex := do
  let list ← index.listAt node layer
  return index.setLinks node layer (list ++ links)

def linkBack (newIndex layer neighbor : Nat) : Checking HnswIndex := do
  let index ← index.extendLinks neighbor layer [newIndex % 2 ^ 32]
  let list ← index.listAt neighbor layer
  if saturatingMul (maxConnections index.config layer) 2 ≤ list.length then
    index.prune arith neighbor layer
  else
    return index

def linkLayer (newIndex layer : Nat) (selected : List HeapItem) : Checking HnswIndex := do
  let index ← index.extendLinks newIndex layer (selected.map (·.index % 2 ^ 32))
  selected.foldlM (fun index item => index.linkBack arith newIndex layer item.index) index

def addNode (point : PreparedPoint) : Checking HnswIndex := do
  let vectors ← index.vectors.push point.vector
  return { index with
    vectors
    nodes := index.nodes ++ [⟨point.level % 256, 0, List.replicate (point.level + 1) []⟩]
    ids := index.ids ++ [point.id] }

/-- `apply_insertion` -/
def applyInsertion (point : PreparedPoint) (plan : InsertionPlan) : Checking HnswIndex := do
  let newIndex := index.nodes.length
  let added ← index.addNode point
  if index.entryPoint = none then
    return { added with entryPoint := some newIndex, maxLevel := point.level }
  else do
    let linked ← plan.neighbors.zipIdx.foldlM
      (fun index (selected, layer) => index.linkLayer arith newIndex layer selected) added
    if index.maxLevel < point.level then
      return { linked with entryPoint := some newIndex, maxLevel := point.level }
    else
      return linked

/-- `insert_prepared` -/
def insertPrepared (point : PreparedPoint) (workspace : BuildWorkspace) :
    Checking (HnswIndex × BuildWorkspace) :=
  match index.entryPoint with
  | none => do
      let index ← index.applyInsertion arith point ⟨List.replicate (point.level + 1) []⟩
      return (index, workspace)
  | some _ => do
      let (plan, workspace) ← index.planInsert arith point workspace
      let index ← index.applyInsertion arith point plan
      return (index, workspace)

/-! ## Batches -/

def planChunk : List PreparedPoint → BuildWorkspace →
    Checking (List InsertionPlan × BuildWorkspace)
  | [], workspace => return ([], workspace)
  | point :: rest, workspace => do
      let (plan, workspace) ← index.planInsert arith point workspace
      let (plans, workspace) ← planChunk rest workspace
      return (plan :: plans, workspace)

def planChunks : List (List PreparedPoint) → List BuildWorkspace →
    Checking (List (Option InsertionPlan) × List BuildWorkspace)
  | [], workspaces => return ([], workspaces)
  | chunk :: rest, [] => do
      let (plans, workspaces) ← planChunks rest []
      return (List.replicate chunk.length none ++ plans, workspaces)
  | chunk :: rest, workspace :: workspaces => do
      let (planned, workspace) ← index.planChunk arith chunk workspace
      let (plans, workspaces) ← planChunks rest workspaces
      return (planned.map some ++ plans, workspace :: workspaces)

def applyPlans (batch : List PreparedPoint) (plans : List (Option InsertionPlan)) :
    Checking HnswIndex :=
  (batch.zip plans).foldlM (fun index (point, plan) => do
    index.applyInsertion arith point (← Checked.expect plan)) index

def insertBatch (batch : List PreparedPoint) (workspaces : List BuildWorkspace) :
    Checking (HnswIndex × List BuildWorkspace) := do
  let chunkSize := divCeil batch.length workspaces.length
  let (plans, workspaces) ← index.planChunks arith (chunks chunkSize batch) workspaces
  let index ← index.applyPlans arith batch plans
  return (index, workspaces)

def insertAll (prepared : List PreparedPoint) (workspace : BuildWorkspace)
    (workspaces : List BuildWorkspace) : Checking HnswIndex := do
  let (index, _) ← (prepared.take parallelBuildSeed).foldlM
    (fun (index, workspace) point => index.insertPrepared arith point workspace) (index, workspace)
  let (index, _) ← (chunks parallelBuildBatch (prepared.drop parallelBuildSeed)).foldlM
    (fun (index, workspaces) batch => index.insertBatch arith batch workspaces) (index, workspaces)
  return index

def compactNode (node : Nat) : Checking HnswIndex := do
  let stored ← Checked.get index.nodes node
  (List.range stored.neighbors.length).foldlM (·.prune arith node ·) index

/-- `compact_neighbors` -/
def compactNeighbors : Checking HnswIndex :=
  (List.range index.nodes.length).foldlM (·.compactNode arith ·) index

end

end HnswIndex

/-! ## The builders -/

section Builders

variable (arith : HnswArithmetic) (workers dimension : Nat) (metric : Metric) (config : HnswConfig)

def HnswIndex.withCapacity (storage : HnswVectorStorage) (capacity : Nat) : Checking HnswIndex := do
  Checked.capacity capacity 32
  Checked.capacity capacity 16
  let vectors ← VectorArena.withCapacity storage capacity dimension
  Checked.capacity capacity 4
  return {
    dimension, metric, config, vectors
    nodes := []
    ids := []
    entryPoint := none
    maxLevel := 0
    compactGraph := none }

/-- `build_prepared_points` -/
def buildPreparedPoints (storage : HnswVectorStorage) (prepared : List PreparedPoint) :
    Checking HnswIndex := do
  let index ← HnswIndex.withCapacity dimension metric config storage prepared.length
  let index ← index.insertAll arith prepared .new (List.replicate workers .new)
  let index ← index.compactNeighbors arith
  index.finalizeCompactGraph

def checkId (seen : List String) (id : String) : Result (List String) :=
  if id.isEmpty then
    .error (.invalidQuery "point ID must not be empty")
  else if id ∈ seen then
    .error (.invalidQuery "HNSW point IDs must be unique")
  else
    .ok (id :: seen)

def preparePoint (storage : HnswVectorStorage) (point : String × List F32) :
    Result PreparedPoint := do
  if point.2.length ≠ dimension then
    .error (.invalidDimension dimension point.2.length)
  else do
    let prepared ← metric.prepare arith.toFloatArithmetic point.2
    return ⟨point.1, .new arith prepared storage, deterministicLevel point.1 config.m⟩

/-- `build_with_storage` -/
def buildWithStorage (storage : HnswVectorStorage) (points : List (String × List F32)) :
    Checking HnswIndex := do
  Checked.ofResult (validateConfig dimension config)
  let _ ← Checked.ofResult ((points.map Prod.fst).foldlM checkId [])
  let prepared ← Checked.ofResult (points.mapM (preparePoint arith dimension metric config storage))
  buildPreparedPoints arith workers dimension metric config storage prepared

/-- `build` -/
def build (points : List (String × List F32)) : Checking HnswIndex :=
  buildWithStorage arith workers dimension metric config .f32 points

/-- `build_quantized` -/
def buildQuantized (points : List (String × List F32)) : Checking HnswIndex :=
  buildWithStorage arith workers dimension metric config .scalarInt8 points

def checkPrepared (seen : List String) (point : String × List F32) : Result (List String) := do
  let seen ← checkId seen point.1
  if point.2.length ≠ dimension then
    .error (.invalidDimension dimension point.2.length)
  else if point.2.any (!·.isFinite) then
    .error (.invalidVector "components must be finite")
  else
    .ok seen

/-- `build_quantized_prepared` -/
def buildQuantizedPrepared (points : List (String × List F32)) : Checking HnswIndex := do
  Checked.ofResult (validateConfig dimension config)
  let _ ← Checked.ofResult (points.foldlM (checkPrepared dimension) [])
  buildPreparedPoints arith workers dimension metric config .scalarInt8
    (points.map fun point =>
      ⟨point.1, .scalarInt8 (.new arith point.2), deterministicLevel point.1 config.m⟩)

end Builders

/-! ## Searches with different marks -/

/-- Both workspaces have marked the same nodes in the search that goes on. -/
structure BuildWorkspace.Alike (left right : BuildWorkspace) : Prop where
  length : left.visited.length = right.visited.length
  visited : ∀ node, left.Visited node ↔ right.Visited node

namespace BuildWorkspace

theorem alike_begin (left right : BuildWorkspace) (nodeCount : Nat) :
    Alike (left.begin nodeCount) (right.begin nodeCount) where
  length := by rw [length_begin, length_begin]
  visited node := iff_of_false (left.not_visited_begin nodeCount node)
    (right.not_visited_begin nodeCount node)

theorem Alike.visit {left right : BuildWorkspace} (alike : Alike left right) (node : Nat) :
    Checked.Related (fun first second => first.1 = second.1 ∧ Alike first.2 second.2)
      (left.visit node) (right.visit node) := by
  by_cases inside : node < left.visited.length
  · obtain ⟨fresh, next, returns, isFresh, marks, visited⟩ := visit_returns inside
    obtain ⟨otherFresh, other, otherReturns, otherIsFresh, otherMarks, otherVisited⟩ :=
      visit_returns (alike.length ▸ inside : node < right.visited.length)
    rw [returns, otherReturns]
    have same : fresh = otherFresh := by
      rw [Bool.eq_iff_iff, isFresh, otherIsFresh, alike.visited]
    refine .ok ⟨same, by rw [marks, otherMarks, alike.length], fun marked => ?_⟩
    rw [visited, otherVisited, alike.visited]
  · have outside : left.visited[node]? = none := List.getElem?_eq_none (by omega)
    have otherOutside : right.visited[node]? = none :=
      List.getElem?_eq_none (by rw [← alike.length]; omega)
    unfold BuildWorkspace.visit Checked.get
    rw [outside, otherOutside]
    exact .stop _

end BuildWorkspace

/-- Two layer searches in the same state, whatever their older marks are. -/
structure LayerSearch.Alike (left right : LayerSearch) : Prop where
  workspace : left.workspace.Alike right.workspace
  frontier : left.frontier = right.frontier
  results : left.results = right.results

namespace HnswIndex

section

variable (arith : HnswArithmetic) (index : HnswIndex) (query : PreparedVector)

theorem visitNeighbor_alike (ef : Nat) {left right : LayerSearch} (alike : left.Alike right)
    (neighbor : Nat) :
    Checked.Related LayerSearch.Alike (index.visitNeighbor arith query ef left neighbor)
      (index.visitNeighbor arith query ef right neighbor) := by
  unfold visitNeighbor
  refine (alike.workspace.visit neighbor).bind ?_
  rintro ⟨fresh, workspace⟩ ⟨otherFresh, other⟩ ⟨rfl : fresh = otherFresh, alikeNext⟩
  simp only
  split
  · refine .bind_same _ fun score => ?_
    have same : left.qualifies ef ⟨neighbor, score⟩ = right.qualifies ef ⟨neighbor, score⟩ := by
      unfold LayerSearch.qualifies
      rw [alike.results]
    rw [same]
    refine .bind_same _ fun qualifies => ?_
    split
    · exact .ok ⟨alikeNext, by rw [alike.frontier], by rw [alike.results]⟩
    · exact .ok ⟨alikeNext, alike.frontier, alike.results⟩
  · exact .ok ⟨alikeNext, alike.frontier, alike.results⟩

theorem searchLoop_alike (ef layer fuel : Nat) {left right : LayerSearch}
    (alike : left.Alike right) :
    Checked.Related LayerSearch.Alike (index.searchLoop arith query ef layer fuel left)
      (index.searchLoop arith query ef layer fuel right) := by
  induction fuel generalizing left right with
  | zero => exact .stop _
  | succ fuel ih =>
    unfold searchLoop
    rw [alike.frontier]
    cases right.frontier with
    | nil => exact .ok alike
    | cons candidate rest =>
      have start : LayerSearch.Alike { left with frontier := rest }
          { right with frontier := rest } := ⟨alike.workspace, rfl, alike.results⟩
      simp only
      rw [alike.results] at start ⊢
      refine .bind_same _ fun worst => ?_
      split
      · exact .ok alike
      · refine .bind_same _ fun links => ?_
        exact (Checked.Related.foldlM links
          (fun neighbor _ _ related => index.visitNeighbor_alike arith query ef related neighbor)
          start).bind fun _ _ related => ih related

theorem searchLayer_alike (entry ef layer : Nat) (left right : BuildWorkspace) :
    Checked.Related (fun first second => first.1 = second.1)
      (index.searchLayer arith query entry ef layer left)
      (index.searchLayer arith query entry ef layer right) := by
  unfold searchLayer
  refine .bind_same _ fun score => ?_
  refine ((BuildWorkspace.alike_begin left right _).visit entry).bind ?_
  rintro ⟨fresh, workspace⟩ ⟨otherFresh, other⟩ ⟨-, alike⟩
  have start : LayerSearch.Alike ⟨workspace, [⟨entry, score⟩], [⟨entry, score⟩]⟩
      ⟨other, [⟨entry, score⟩], [⟨entry, score⟩]⟩ := ⟨alike, rfl, rfl⟩
  refine (index.searchLoop_alike arith query ef layer _ start).bind fun found otherFound same => ?_
  rw [same.results]
  exact .bind_same _ fun items => .ok rfl

theorem planLayers_alike (vector : PreparedVector) (layers current : Nat)
    (left right : BuildWorkspace) :
    Checked.Related (fun first second => first.1 = second.1)
      (index.planLayers arith vector layers current left)
      (index.planLayers arith vector layers current right) := by
  induction layers generalizing current left right with
  | zero => exact .ok rfl
  | succ layer ih =>
    unfold planLayers
    refine (index.searchLayer_alike arith vector current _ layer left right).bind ?_
    rintro ⟨candidates, workspace⟩ ⟨_, other⟩ ⟨⟩
    refine .bind_same _ fun selected => ?_
    refine (ih _ workspace other).bind ?_
    rintro ⟨lower, _⟩ ⟨_, _⟩ ⟨⟩
    exact .ok rfl

theorem planInsert_alike (point : PreparedPoint) (left right : BuildWorkspace) :
    Checked.Related (fun first second => first.1 = second.1)
      (index.planInsert arith point left) (index.planInsert arith point right) := by
  unfold planInsert
  refine .bind_same _ fun entry => .bind_same _ fun current => ?_
  refine (index.planLayers_alike arith point.vector _ current left right).bind ?_
  rintro ⟨neighbors, _⟩ ⟨_, _⟩ ⟨⟩
  exact .ok rfl

/-! ## Batches with different workers -/

def planOf (point : PreparedPoint) : Checking InsertionPlan := do
  let (plan, _) ← index.planInsert arith point .new
  return plan

theorem planInsert_planOf (point : PreparedPoint) (workspace : BuildWorkspace) :
    Checked.Related (fun planned plan => planned.1 = plan) (index.planInsert arith point workspace)
      (index.planOf arith point) := by
  have alike := index.planInsert_alike arith point .new workspace
  exact (alike.map_left fun _ _ same => same.symm).symm

theorem planChunk_planOf (chunk : List PreparedPoint) (workspace : BuildWorkspace) :
    Checked.Related (fun planned plans => planned.1 = plans) (index.planChunk arith chunk workspace)
      (chunk.mapM (index.planOf arith)) := by
  induction chunk generalizing workspace with
  | nil => exact .ok rfl
  | cons point rest ih =>
    rw [List.mapM_cons]
    unfold planChunk
    refine (index.planInsert_planOf arith point workspace).bind ?_
    rintro ⟨plan, next⟩ _ rfl
    refine (ih next).bind ?_
    rintro ⟨plans, _⟩ _ rfl
    exact .ok rfl

theorem planChunks_planOf {parts : List (List PreparedPoint)} {workspaces : List BuildWorkspace}
    (enough : parts.length ≤ workspaces.length) :
    Checked.Related (fun planned plans => planned.1 = plans.map some ∧
        planned.2.length = workspaces.length)
      (index.planChunks arith parts workspaces) (parts.flatten.mapM (index.planOf arith)) := by
  induction parts generalizing workspaces with
  | nil => exact .ok ⟨rfl, rfl⟩
  | cons chunk rest ih =>
    cases workspaces with
    | nil => exact absurd enough (by simp)
    | cons workspace workspaces =>
      rw [List.flatten_cons, List.mapM_append]
      unfold planChunks
      refine (index.planChunk_planOf arith chunk workspace).bind ?_
      rintro ⟨planned, next⟩ _ rfl
      refine (ih (Nat.le_of_succ_le_succ enough)).bind ?_
      rintro ⟨plans, others⟩ remaining ⟨rfl, count⟩
      refine .ok ⟨?_, ?_⟩
      · rw [List.map_append]
      · rw [List.length_cons, List.length_cons, count]

def insertPlanned (batch : List PreparedPoint) : Checking HnswIndex := do
  let plans ← batch.mapM (index.planOf arith)
  index.applyPlans arith batch (plans.map some)

variable {workspaces : List BuildWorkspace}

theorem chunks_of_workers {batch : List PreparedPoint} (worker : workspaces ≠ []) :
    (chunks (divCeil batch.length workspaces.length) batch).length ≤ workspaces.length ∧
      (chunks (divCeil batch.length workspaces.length) batch).flatten = batch := by
  have positive : 0 < workspaces.length := List.length_pos_iff.mpr worker
  rw [length_chunks]
  refine ⟨divCeil_divCeil_le positive _, ?_⟩
  cases batch with
  | nil =>
    have none : divCeil 0 workspaces.length = 0 := Nat.div_eq_of_lt (by omega)
    rw [List.length_nil, none]
    rfl
  | cons point rest =>
    refine flatten_chunks (Nat.pos_of_ne_zero fun none => ?_) _
    have enough := le_divCeil_mul positive (point :: rest).length
    rw [none, Nat.zero_mul] at enough
    cases enough

theorem insertBatch_insertPlanned (batch : List PreparedPoint) (worker : workspaces ≠ []) :
    Checked.Related (fun inserted next => inserted.1 = next ∧
        inserted.2.length = workspaces.length)
      (index.insertBatch arith batch workspaces) (index.insertPlanned arith batch) := by
  obtain ⟨few, whole⟩ := @chunks_of_workers workspaces batch worker
  have planned := index.planChunks_planOf arith few
  rw [whole] at planned
  unfold insertBatch insertPlanned
  refine planned.bind ?_
  rintro ⟨plans, others⟩ _ ⟨rfl, count⟩
  refine Checked.Related.map_left (.of_eq rfl) ?_
  rintro next _ rfl
  exact ⟨rfl, count⟩

/-- `insertPrepared` without its workspace. -/
def insertAlone (point : PreparedPoint) : Checking HnswIndex := do
  let (next, _) ← index.insertPrepared arith point .new
  return next

theorem insertPrepared_insertAlone (point : PreparedPoint) (workspace : BuildWorkspace) :
    Checked.Related (fun inserted next => inserted.1 = next)
      (index.insertPrepared arith point workspace) (index.insertAlone arith point) := by
  have alike : Checked.Related (fun inserted other => inserted.1 = other.1)
      (index.insertPrepared arith point workspace) (index.insertPrepared arith point .new) := by
    unfold insertPrepared
    split
    · exact .bind_same _ fun next => .ok rfl
    · refine (index.planInsert_alike arith point workspace .new).bind ?_
      rintro ⟨plan, _⟩ ⟨_, _⟩ ⟨⟩
      exact .bind_same _ fun next => .ok rfl
  exact (alike.symm.map_left fun _ _ same => same).symm

def insertInOrder (prepared : List PreparedPoint) : Checking HnswIndex := do
  let index ← (prepared.take parallelBuildSeed).foldlM (·.insertAlone arith ·) index
  (chunks parallelBuildBatch (prepared.drop parallelBuildSeed)).foldlM (·.insertPlanned arith ·) index

theorem insertAll_insertInOrder (prepared : List PreparedPoint) (workspace : BuildWorkspace)
    (worker : workspaces ≠ []) :
    index.insertAll arith prepared workspace workspaces = index.insertInOrder arith prepared := by
  refine Checked.Related.eq ?_
  unfold insertAll insertInOrder
  have seeded : Checked.Related (fun (inserted : HnswIndex × BuildWorkspace) next =>
      inserted.1 = next)
      ((prepared.take parallelBuildSeed).foldlM
        (fun (index, workspace) point => index.insertPrepared arith point workspace)
        (index, workspace))
      ((prepared.take parallelBuildSeed).foldlM (·.insertAlone arith ·) index) := by
    refine Checked.Related.foldlM _ ?_ rfl
    rintro point ⟨index, workspace⟩ _ rfl
    exact index.insertPrepared_insertAlone arith point workspace
  refine seeded.bind ?_
  rintro ⟨index, _⟩ _ rfl
  have batched : Checked.Related (fun (inserted : HnswIndex × List BuildWorkspace) next =>
      inserted.1 = next ∧ inserted.2 ≠ [])
      ((chunks parallelBuildBatch (prepared.drop parallelBuildSeed)).foldlM
        (fun (index, workspaces) batch => index.insertBatch arith batch workspaces)
        (index, workspaces))
      ((chunks parallelBuildBatch (prepared.drop parallelBuildSeed)).foldlM
        (·.insertPlanned arith ·) index) := by
    refine Checked.Related.foldlM _ ?_ ⟨rfl, worker⟩
    rintro batch ⟨index, workspaces⟩ _ ⟨rfl, worker⟩
    refine (index.insertBatch_insertPlanned arith batch worker).mono ?_
    rintro ⟨next, others⟩ _ ⟨same, count⟩
    refine ⟨same, ?_⟩
    rw [← List.length_pos_iff, count]
    exact List.length_pos_iff.mpr worker
  exact batched.map_left fun _ _ same => same.1

end

end HnswIndex

/-- Whatever the number of workers is and whatever their workspaces hold, the chunks are the
batch and each has a worker, every point of a batch is planned once, and the graph is the
same. -/
theorem graph_independent_of_workers (arith : HnswArithmetic) {workers others : Nat}
    (worker : 1 ≤ workers) (other : 1 ≤ others) :
    (∀ dimension metric config storage prepared,
      buildPreparedPoints arith workers dimension metric config storage prepared =
        buildPreparedPoints arith others dimension metric config storage prepared) ∧
    ∀ (index : HnswIndex) (workspaces otherWorkspaces : List BuildWorkspace),
      workspaces.length = workers → otherWorkspaces.length = others →
      (∀ prepared workspace otherWorkspace,
        index.insertAll arith prepared workspace workspaces =
          index.insertAll arith prepared otherWorkspace otherWorkspaces) ∧
      ∀ batch, (chunks (divCeil batch.length workers) batch).length ≤ workers ∧
        (chunks (divCeil batch.length workers) batch).flatten = batch ∧
        Checked.Related (fun planned plans => planned.1 = plans.map some)
          (index.planChunks arith (chunks (divCeil batch.length workers) batch) workspaces)
          (batch.mapM (index.planOf arith)) := by
  have nonempty : ∀ {count : Nat} {workspaces : List BuildWorkspace}, 1 ≤ count →
      workspaces.length = count → workspaces ≠ [] := by
    rintro count workspaces positive sized rfl
    rw [← sized] at positive
    cases positive
  constructor
  · intro dimension metric config storage prepared
    unfold buildPreparedPoints
    refine congrArg _ (funext fun index => ?_)
    rw [index.insertAll_insertInOrder arith prepared .new (nonempty worker List.length_replicate),
      index.insertAll_insertInOrder arith prepared .new (nonempty other List.length_replicate)]
  · intro index workspaces otherWorkspaces sized otherSized
    refine ⟨fun prepared workspace otherWorkspace => ?_, fun batch => ?_⟩
    · rw [index.insertAll_insertInOrder arith prepared workspace (nonempty worker sized),
        index.insertAll_insertInOrder arith prepared otherWorkspace (nonempty other otherSized)]
    · obtain ⟨few, whole⟩ := @HnswIndex.chunks_of_workers workspaces batch (nonempty worker sized)
      have planned := index.planChunks_planOf arith few
      rw [sized] at few whole planned
      rw [whole] at planned
      exact ⟨few, whole, planned.mono fun _ _ both => both.1⟩

/-- Two workers plan three points on a graph of two. -/
theorem batch_planned_by_two_workers :
    let batch : List PreparedPoint := [⟨"c", .f32 [⟨0⟩], 0⟩, ⟨"d", .f32 [⟨0x3f800000⟩], 1⟩,
      ⟨"e", .f32 [⟨0⟩], 0⟩]
    ∃ index planned plans,
      buildPreparedPoints .unit 2 1 .dotProduct .default .f32
        [⟨"a", .f32 [⟨0⟩], 0⟩, ⟨"b", .f32 [⟨0x3f800000⟩], 1⟩] = .ok index ∧
      (chunks (divCeil batch.length 2) batch).map List.length = [2, 1] ∧
      index.planChunks .unit (chunks (divCeil batch.length 2) batch) [.new, .new] = .ok planned ∧
      batch.mapM (index.planOf .unit) = .ok plans ∧ planned.1 = plans.map some := by
  intro batch
  have succeeds : (buildPreparedPoints .unit 2 1 .dotProduct .default .f32
      [⟨"a", .f32 [⟨0⟩], 0⟩, ⟨"b", .f32 [⟨0x3f800000⟩], 1⟩] >>= fun index => do
        let plans ← batch.mapM (index.planOf .unit)
        return (index, plans)).isOk = true := by decide +kernel
  obtain ⟨_, succeeds⟩ := exists_ok_of_isOk succeeds
  obtain ⟨index, builds, succeeds⟩ := Result.of_bind_ok succeeds
  obtain ⟨plans, plan, -⟩ := Result.of_bind_ok succeeds
  have planned := (((graph_independent_of_workers .unit (by decide : 1 ≤ 2) (by decide : 1 ≤ 1)).2
    index [.new, .new] [.new] rfl rfl).2 batch).2.2
  rw [plan] at planned
  generalize planChunks : index.planChunks _ _ _ = chunked at planned
  cases planned with
  | ok same => exact ⟨index, _, plans, builds, by decide +kernel, planChunks, plan, same⟩

end FocalVector.Hnsw
