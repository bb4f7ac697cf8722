import FocalVector.Foundation.BestFirst
import FocalVector.Hnsw.Vectors
import FocalVector.Persistence.Codec

/-!
Contract: the graph of an index and the marks of its searches.

Every node has a level and, for each layer up to its level, a list of links. While a graph
is built its nodes hold the lists; a finished graph has them all in one array, with a range
for each list. A search marks the nodes it has seen with the number of the search, so that
the marks of earlier searches need not be removed.

Owns: `HnswConfig`, levels, `HnswIndex`, its links and scores, the compaction of its lists
and why it keeps them, and the marks of `BuildWorkspace`.

Does not own: how the graph is built, searched and stored. The pool of marks that an index
keeps for its searches is an argument of the search.
-/

namespace FocalVector.Hnsw

open FocalVector.Foundation FocalVector.Engine
open FocalVector.Persistence (utf8)

/-! ## Configuration -/

def maxLevel : Nat := 32

structure HnswConfig where
  m : Nat
  efConstruction : Nat
deriving DecidableEq, Repr

def HnswConfig.default : HnswConfig := ⟨16, 200⟩

def validateConfig (dimension : Nat) (config : HnswConfig) : Result Unit :=
  if dimension = 0 then
    .error (.invalidConfig "dimension must be greater than zero")
  else if config.m < 2 then
    .error (.invalidConfig "HNSW m must be at least 2")
  else if config.efConstruction < config.m then
    .error (.invalidConfig "HNSW ef_construction must be at least m")
  else
    .ok ()

/-- How many links a list may keep. -/
def maxConnections (config : HnswConfig) (layer : Nat) : Nat :=
  if layer = 0 then saturatingMul config.m 2 else config.m

def hashId (id : String) : UInt64 :=
  (utf8 id).foldl (fun hash byte => (hash ^^^ byte.toUInt64) * 0x00000100000001b3)
    0xcbf29ce484222325

def countLevels (threshold : UInt64) : Nat → UInt64 → Nat
  | 0, _ => 0
  | rounds + 1, hash =>
    if hash < threshold then
      let rotated := hash <<< 17 ||| hash >>> 47
      countLevels threshold rounds (rotated * 0x9e3779b97f4a7c15) + 1
    else 0

/-- `deterministic_level` -/
def deterministicLevel (id : String) (m : Nat) : Nat :=
  countLevels (max (UInt64.ofNat ((2 ^ 64 - 1) / m)) 1) maxLevel (hashId id)

theorem countLevels_le (threshold : UInt64) (rounds : Nat) (hash : UInt64) :
    countLevels threshold rounds hash ≤ rounds := by
  induction rounds generalizing hash with
  | zero => exact le_rfl
  | succ rounds ih =>
    unfold countLevels
    split
    · exact Nat.succ_le_succ (ih _)
    · exact Nat.zero_le _

theorem deterministicLevel_le (id : String) (m : Nat) : deterministicLevel id m ≤ maxLevel :=
  countLevels_le _ _ _

/-! ## Items of a search -/

/-- A node and its score. -/
structure HeapItem where
  index : Nat
  score : F32
deriving DecidableEq

def HeapItem.rank (item : HeapItem) : Int ×ₗ Nat := toLex (-item.score.totalPlace, item.index)

/-- `compare_scored`: the larger score first, then the smaller id. -/
def scoredRank (score : F32) (id : String) : Int ×ₗ String := toLex (-score.totalPlace, id)

theorem HeapItem.rank_injective : Function.Injective HeapItem.rank := by
  intro left right same
  have pair := toLex.injective same
  rw [Prod.mk.injEq, neg_inj] at pair
  cases left
  cases right
  exact congrArg₂ HeapItem.mk pair.2 (F32.totalPlace_injective pair.1)

/-! ## The index -/

structure Node where
  level : Nat
  rangeStart : Nat
  neighbors : List (List Nat)
deriving DecidableEq

structure LinkRange where
  start : Nat
  stop : Nat
deriving DecidableEq

structure CompactGraph where
  ranges : List LinkRange
  links : List Nat
deriving DecidableEq

structure HnswIndex where
  dimension : Nat
  metric : Metric
  config : HnswConfig
  nodes : List Node
  ids : List String
  vectors : VectorArena
  entryPoint : Option Nat
  maxLevel : Nat
  compactGraph : Option CompactGraph
deriving DecidableEq

namespace HnswIndex

def vectorStorage (index : HnswIndex) : HnswVectorStorage := index.vectors.storage

def neighbors (index : HnswIndex) (node layer : Nat) : Checking (List Nat) := do
  let node ← Checked.get index.nodes node
  if node.level < layer then
    return []
  match index.compactGraph with
  | some graph => do
      let range ← Checked.get graph.ranges (node.rangeStart + layer)
      Checked.slice graph.links range.start range.stop
  | none => return (node.neighbors[layer]?).getD []

def vector (index : HnswIndex) (node : Nat) : Checking PreparedVector :=
  index.vectors.get node index.dimension

def score (arith : HnswArithmetic) (index : HnswIndex) (query : PreparedVector) (node : Nat) :
    Checking F32 := do
  scoreVectors arith index.metric query (← index.vector node)

/-- `sort_items` -/
def sortItems (index : HnswIndex) (items : List HeapItem) : Checking (List HeapItem) := do
  let named ← items.mapM fun item => do
    let id ← Checked.get index.ids item.index
    return (item, id)
  return (named.insertionSort fun left right =>
    scoredRank left.1.score left.2 ≤ scoredRank right.1.score right.2).map Prod.fst

/-! ### Compaction -/

/-- The ranges of the lists of a node, whose first link stands at a position. -/
def compactLayers (links : Nat) : List (List Nat) → List LinkRange
  | [] => []
  | layer :: rest =>
    ⟨links % 2 ^ 32, (links + layer.length) % 2 ^ 32⟩ :: compactLayers (links + layer.length) rest

def compactNodes (ranges links : Nat) : List Node → List Node × List LinkRange
  | [] => ([], [])
  | node :: rest =>
    let (nodes, others) := compactNodes (ranges + node.neighbors.length)
      (links + node.neighbors.flatten.length) rest
    (⟨node.level, ranges % 2 ^ 32, []⟩ :: nodes, compactLayers links node.neighbors ++ others)

def allLinks (nodes : List Node) : List Nat := nodes.flatMap (·.neighbors.flatten)

/-- `finalize_compact_graph` -/
def finalizeCompactGraph (index : HnswIndex) : Checking HnswIndex :=
  match index.compactGraph with
  | some _ => .ok index
  | none =>
    let rangeCount := (index.nodes.map (·.neighbors.length)).sum
    let linkCount := (index.nodes.map (·.neighbors.flatten.length)).sum
    if usizeMax < rangeCount then
      .error (.error (.resourceExhausted "HNSW layer count overflows memory"))
    else if usizeMax < linkCount then
      .error (.error (.resourceExhausted "HNSW link count overflows memory"))
    else if 2 ^ 32 - 1 < rangeCount ∨ 2 ^ 32 - 1 < linkCount then
      .error (.error (.resourceExhausted "HNSW compact graph exceeds u32 address space"))
    else do
      Checked.capacity rangeCount 8
      Checked.capacity linkCount 4
      let (nodes, ranges) := compactNodes 0 0 index.nodes
      return { index with
        nodes
        compactGraph := some ⟨ranges, allLinks index.nodes⟩ }

theorem length_compactLayers (links : Nat) (layers : List (List Nat)) :
    (compactLayers links layers).length = layers.length := by
  induction layers generalizing links with
  | nil => rfl
  | cons layer rest ih =>
    rw [compactLayers, List.length_cons, List.length_cons, ih]

theorem length_compactNodes (ranges links : Nat) (nodes : List Node) :
    (compactNodes ranges links nodes).1.length = nodes.length ∧
      (compactNodes ranges links nodes).2.length = (nodes.map (·.neighbors.length)).sum := by
  induction nodes generalizing ranges links with
  | nil => exact ⟨rfl, rfl⟩
  | cons node rest ih =>
    obtain ⟨nodesLength, rangesLength⟩ := ih (ranges + node.neighbors.length)
      (links + node.neighbors.flatten.length)
    simp only [compactNodes, List.length_cons, List.length_append, length_compactLayers,
      nodesLength, rangesLength, List.map_cons, List.sum_cons, and_self]

theorem length_allLinks (nodes : List Node) :
    (allLinks nodes).length = (nodes.map (·.neighbors.flatten.length)).sum :=
  List.length_flatMap

theorem compactLayers_found (links : Nat) {layers : List (List Nat)} {layer : Nat} {list : List Nat}
    (found : layers[layer]? = some list) :
    ∃ start, (compactLayers links layers)[layer]? =
        some ⟨(links + start) % 2 ^ 32, (links + start + list.length) % 2 ^ 32⟩ ∧
      start + list.length ≤ layers.flatten.length ∧
      (layers.flatten.drop start).take list.length = list := by
  induction layers generalizing links layer with
  | nil => simp at found
  | cons first rest ih =>
    rw [compactLayers, List.flatten_cons, List.length_append]
    cases layer with
    | zero =>
      rw [List.getElem?_cons_zero, Option.some.injEq] at found
      subst found
      exact ⟨0, rfl, by omega, by rw [List.drop_zero, List.take_left]⟩
    | succ layer =>
      rw [List.getElem?_cons_succ] at found
      obtain ⟨start, isRange, inside, same⟩ := ih (links + first.length) found
      refine ⟨first.length + start, ?_, by omega, ?_⟩
      · rw [List.getElem?_cons_succ, isRange, Nat.add_assoc]
      · rw [← List.drop_drop, List.drop_left, same]

theorem compactNodes_found (ranges links : Nat) {nodes : List Node} {position : Nat} {node : Node}
    (found : nodes[position]? = some node) :
    ∃ range, (compactNodes ranges links nodes).1[position]? =
        some ⟨node.level, (ranges + range) % 2 ^ 32, []⟩ ∧
      range + node.neighbors.length ≤ (nodes.map (·.neighbors.length)).sum ∧
      ∀ layer list, node.neighbors[layer]? = some list → ∃ start,
        (compactNodes ranges links nodes).2[range + layer]? =
          some ⟨(links + start) % 2 ^ 32, (links + start + list.length) % 2 ^ 32⟩ ∧
        start + list.length ≤ (allLinks nodes).length ∧
        ((allLinks nodes).drop start).take list.length = list := by
  induction nodes generalizing ranges links position with
  | nil => simp at found
  | cons first rest ih =>
    simp only [compactNodes, allLinks, List.flatMap_cons, List.map_cons, List.sum_cons]
    cases position with
    | zero =>
      rw [List.getElem?_cons_zero, Option.some.injEq] at found
      subst found
      refine ⟨0, rfl, by omega, fun layer list isList => ?_⟩
      obtain ⟨start, isRange, inside, same⟩ := compactLayers_found links isList
      have before : layer < (compactLayers links first.neighbors).length :=
        (List.getElem?_eq_some_iff.mp isRange).1
      refine ⟨start, ?_, ?_, ?_⟩
      · rw [Nat.zero_add, List.getElem?_append_left before, isRange]
      · rw [List.length_append]
        omega
      · rw [List.drop_append_of_le_length (by omega), List.take_append_of_le_length, same]
        rw [List.length_drop]
        omega
    | succ position =>
      rw [List.getElem?_cons_succ] at found
      obtain ⟨range, isNode, few, lists⟩ := ih
        (ranges + first.neighbors.length) (links + first.neighbors.flatten.length) found
      refine ⟨first.neighbors.length + range, ?_, by omega, fun layer list isList => ?_⟩
      · rw [List.getElem?_cons_succ, isNode, Nat.add_assoc]
      · obtain ⟨start, isRange, inside, same⟩ := lists layer list isList
        refine ⟨first.neighbors.flatten.length + start, ?_, ?_, ?_⟩
        · have behind : (compactLayers links first.neighbors).length ≤
              first.neighbors.length + range + layer := by
            rw [length_compactLayers]
            omega
          rw [List.getElem?_append_right behind, length_compactLayers, Nat.add_assoc,
            Nat.add_sub_cancel_left, isRange, Nat.add_assoc]
        · rw [List.length_append, Nat.add_assoc]
          exact Nat.add_le_add_left inside _
        · rw [← List.drop_drop, List.drop_left]
          exact same

/-- Every node has a list for each layer up to its level. -/
def Layered (nodes : List Node) : Prop := ∀ node ∈ nodes, node.neighbors.length = node.level + 1

variable {index final : HnswIndex}

theorem finalizeCompactGraph_eq_ok (building : index.compactGraph = none)
    (compacts : index.finalizeCompactGraph = .ok final) :
    (index.nodes.map (·.neighbors.length)).sum < 2 ^ 32 ∧ (allLinks index.nodes).length < 2 ^ 32 ∧
      final = { index with
        nodes := (compactNodes 0 0 index.nodes).1
        compactGraph := some ⟨(compactNodes 0 0 index.nodes).2, allLinks index.nodes⟩ } := by
  unfold finalizeCompactGraph at compacts
  rw [building] at compacts
  simp only at compacts
  split at compacts
  · cases compacts
  split at compacts
  · cases compacts
  split at compacts
  · cases compacts
  next fits =>
    rw [not_or] at fits
    obtain ⟨_, -, compacts⟩ := Checked.of_bind_ok compacts
    obtain ⟨_, -, compacts⟩ := Checked.of_bind_ok compacts
    rw [length_allLinks]
    exact ⟨by omega, by omega, (Except.ok.inj compacts).symm⟩

/-- A compaction succeeds, unless there are too many lists or links. -/
theorem finalizeCompactGraph_returns (building : index.compactGraph = none)
    (fewLists : (index.nodes.map (·.neighbors.length)).sum < 2 ^ 32)
    (fewLinks : (allLinks index.nodes).length < 2 ^ 32) :
    ∃ final, index.finalizeCompactGraph = .ok final := by
  rw [length_allLinks] at fewLinks
  unfold finalizeCompactGraph
  rw [building]
  simp only
  rw [if_neg (by unfold usizeMax; omega), if_neg (by unfold usizeMax; omega), if_neg (by omega),
    Checked.bind_ok (Checked.capacity_of_lt (by omega)),
    Checked.bind_ok (Checked.capacity_of_lt (by omega))]
  exact ⟨_, rfl⟩

theorem finalizeCompactGraph_settles (building : index.compactGraph = none) :
    index.finalizeCompactGraph.Settles := by
  unfold finalizeCompactGraph
  rw [building]
  simp only
  split
  · trivial
  split
  · trivial
  split
  · trivial
  next fits =>
    rw [not_or] at fits
    rw [Checked.bind_ok (Checked.capacity_of_lt (by omega)),
      Checked.bind_ok (Checked.capacity_of_lt (by omega))]
    trivial

theorem neighbors_finalizeCompactGraph (layered : Layered index.nodes)
    (building : index.compactGraph = none) (compacts : index.finalizeCompactGraph = .ok final)
    (node layer : Nat) : final.neighbors node layer = index.neighbors node layer := by
  obtain ⟨fewLists, fewLinks, rfl⟩ := finalizeCompactGraph_eq_ok building compacts
  unfold neighbors
  simp only [building]
  cases found : index.nodes[node]? with
  | none =>
    have missing : (compactNodes 0 0 index.nodes).1[node]? = none := by
      rw [List.getElem?_eq_none_iff] at found ⊢
      rw [(length_compactNodes 0 0 index.nodes).1]
      exact found
    simp only [Checked.get, found, missing]
    rfl
  | some stored =>
    obtain ⟨range, isNode, few, lists⟩ := compactNodes_found 0 0 found
    rw [Checked.bind_ok (Checked.get_of_getElem? isNode),
      Checked.bind_ok (Checked.get_of_getElem? found)]
    simp only
    by_cases above : stored.level < layer
    · rw [if_pos above, if_pos above]
    · rw [if_neg above, if_neg above]
      have inside : layer < stored.neighbors.length := by
        rw [layered stored (List.mem_of_getElem? found)]
        omega
      obtain ⟨start, isRange, ends, same⟩ := lists layer _ (List.getElem?_eq_getElem inside)
      rw [Nat.zero_add, Nat.mod_eq_of_lt (by omega), Nat.mod_eq_of_lt (by omega)] at isRange
      rw [Nat.zero_add, Nat.mod_eq_of_lt (by omega),
        Checked.bind_ok (Checked.get_of_getElem? isRange)]
      simp only
      rw [Checked.slice_of_le (Nat.le_add_right _ _) ends, Nat.add_sub_cancel_left, same,
        List.getElem?_eq_getElem inside]
      rfl

theorem compactLayers_inside {links bound : Nat} {layers : List (List Nat)} {range : LinkRange}
    (fits : links + layers.flatten.length ≤ bound) (small : bound < 2 ^ 32)
    (member : range ∈ compactLayers links layers) :
    range.start ≤ range.stop ∧ range.stop ≤ bound := by
  induction layers generalizing links with
  | nil => cases member
  | cons layer rest ih =>
    rw [List.flatten_cons, List.length_append] at fits
    rcases List.mem_cons.mp member with rfl | later
    · rw [Nat.mod_eq_of_lt (by omega), Nat.mod_eq_of_lt (by omega)]
      exact ⟨Nat.le_add_right _ _, Nat.le_of_add_right_le (by rw [Nat.add_assoc]; exact fits)⟩
    · exact ih (by omega) later

theorem compactNodes_inside {ranges links bound : Nat} {nodes : List Node} {range : LinkRange}
    (fits : links + (allLinks nodes).length ≤ bound) (small : bound < 2 ^ 32)
    (member : range ∈ (compactNodes ranges links nodes).2) :
    range.start ≤ range.stop ∧ range.stop ≤ bound := by
  induction nodes generalizing ranges links with
  | nil => cases member
  | cons node rest ih =>
    rw [allLinks, List.flatMap_cons, List.length_append] at fits
    rcases List.mem_append.mp member with own | later
    · exact compactLayers_inside (by omega) small own
    · exact ih (by rw [allLinks]; omega) later

/-- Compacting a graph keeps the list of every node in every layer, puts all ranges inside the
links, and is done once. -/
theorem compaction_keeps_lists (layered : Layered index.nodes)
    (fewLists : (index.nodes.map (·.neighbors.length)).sum < 2 ^ 32)
    (fewLinks : (index.nodes.map (·.neighbors.flatten.length)).sum < 2 ^ 32) :
    ∃ final, index.finalizeCompactGraph = .ok final ∧
      (∀ node layer, final.neighbors node layer = index.neighbors node layer) ∧
      (index.compactGraph = none → ∃ graph, final.compactGraph = some graph ∧
        ∀ range ∈ graph.ranges, range.start ≤ range.stop ∧ range.stop ≤ graph.links.length) ∧
      final.finalizeCompactGraph = .ok final := by
  cases building : index.compactGraph with
  | some graph =>
    have unchanged : index.finalizeCompactGraph = .ok index := by
      unfold finalizeCompactGraph
      rw [building]
    exact ⟨index, unchanged, fun _ _ => rfl, nofun, unchanged⟩
  | none =>
    rw [← length_allLinks] at fewLinks
    obtain ⟨final, compacts⟩ := finalizeCompactGraph_returns building fewLists fewLinks
    refine ⟨final, compacts, neighbors_finalizeCompactGraph layered building compacts, ?_⟩
    obtain ⟨-, -, rfl⟩ := finalizeCompactGraph_eq_ok building compacts
    refine ⟨fun _ => ⟨_, rfl, fun range member => ?_⟩, rfl⟩
    exact compactNodes_inside (Nat.zero_add _).le fewLinks member

theorem two_nodes_compact :
    ∃ final, (HnswIndex.mk 1 .dotProduct .default [⟨1, 0, [[1], []]⟩, ⟨0, 0, [[0]]⟩] ["a", "b"]
        (.f32 []) (some 0) 1 none).finalizeCompactGraph = .ok final ∧
      final.neighbors 0 0 = .ok [1] := by
  obtain ⟨final, compacts, same, -⟩ := @compaction_keeps_lists
    (HnswIndex.mk 1 .dotProduct .default [⟨1, 0, [[1], []]⟩, ⟨0, 0, [[0]]⟩] ["a", "b"]
      (.f32 []) (some 0) 1 none) (by unfold Layered; decide) (by decide) (by decide)
  exact ⟨final, compacts, same 0 0⟩

end HnswIndex

/-! ## Marks -/

/-- The marks of searches: a node is visited when its mark is the number of the search. No
mark is from a later search. -/
structure BuildWorkspace where
  visited : List UInt32
  generation : UInt32
  marked : ∀ mark ∈ visited, mark ≤ generation

namespace BuildWorkspace

/-- `with_capacity` -/
def new : BuildWorkspace := ⟨[], 0, nofun⟩

/-- The number of the next search is larger than all marks. -/
theorem lt_succ_generation {generation mark : UInt32} (notLatest : generation ≠ 0xffffffff)
    (old : mark ≤ generation) : mark < generation + 1 := by
  rw [UInt32.lt_iff_toNat_lt, UInt32.toNat_add]
  rw [UInt32.le_iff_toNat_le] at old
  have bound := generation.toNat_lt
  have different : generation.toNat ≠ 0xffffffff := fun same =>
    notLatest (UInt32.toNat_inj.mp same)
  rw [show (1 : UInt32).toNat = 1 from rfl, Nat.mod_eq_of_lt (by omega)]
  omega

/-- `begin`: start a search among some nodes. -/
def begin (workspace : BuildWorkspace) (nodeCount : Nat) : BuildWorkspace :=
  if latest : workspace.generation = 0xffffffff then
    ⟨List.replicate nodeCount 0, 1, fun mark member => by
      rw [List.eq_of_mem_replicate member]
      decide⟩
  else
    ⟨workspace.visited.take nodeCount ++ List.replicate (nodeCount - workspace.visited.length) 0,
      workspace.generation + 1, fun mark member => by
        rcases List.mem_append.mp member with old | added
        · exact UInt32.le_of_lt (lt_succ_generation latest
            (workspace.marked mark (List.mem_of_mem_take old)))
        · rw [List.eq_of_mem_replicate added]
          exact UInt32.zero_le⟩

/-- `visit`: mark a node, and say whether it was not marked. -/
def visit (workspace : BuildWorkspace) (node : Nat) : Checking (Bool × BuildWorkspace) := do
  let mark ← Checked.get workspace.visited node
  if mark = workspace.generation then
    return (false, workspace)
  else
    return (true, ⟨workspace.visited.set node workspace.generation, workspace.generation,
      fun mark member => (List.mem_or_eq_of_mem_set member).elim (workspace.marked mark)
        fun same => same ▸ UInt32.le_refl _⟩)

def Visited (workspace : BuildWorkspace) (node : Nat) : Prop :=
  workspace.visited[node]? = some workspace.generation

variable {workspace : BuildWorkspace} {node : Nat}

@[simp] theorem length_begin (workspace : BuildWorkspace) (nodeCount : Nat) :
    (workspace.begin nodeCount).visited.length = nodeCount := by
  unfold begin
  split
  · exact List.length_replicate
  · simp only [List.length_append, List.length_take, List.length_replicate]
    omega

theorem not_visited_begin (workspace : BuildWorkspace) (nodeCount node : Nat) :
    ¬ (workspace.begin nodeCount).Visited node := by
  unfold Visited begin
  split
  next =>
    intro found
    have isZero : (1 : UInt32) = 0 := List.eq_of_mem_replicate (List.mem_of_getElem? found)
    cases isZero
  next notLatest =>
    intro found
    simp only at found
    rcases List.mem_append.mp (List.mem_of_getElem? found) with old | added
    · have smaller := lt_succ_generation notLatest
        (workspace.marked _ (List.mem_of_mem_take old))
      exact absurd smaller (UInt32.lt_irrefl _)
    · have smaller := lt_succ_generation notLatest (UInt32.zero_le : 0 ≤ workspace.generation)
      rw [← List.eq_of_mem_replicate added] at smaller
      exact absurd smaller (UInt32.lt_irrefl _)

theorem visit_returns (inside : node < workspace.visited.length) :
    ∃ fresh next, workspace.visit node = .ok (fresh, next) ∧
      (fresh = true ↔ ¬ workspace.Visited node) ∧
      next.visited.length = workspace.visited.length ∧
      ∀ other, next.Visited other ↔ other = node ∨ workspace.Visited other := by
  obtain ⟨mark, found, reads⟩ := @Checked.exists_get Error _ workspace.visited node inside
  unfold visit
  rw [Checked.bind_ok reads]
  by_cases visited : mark = workspace.generation
  · rw [if_pos visited]
    have before : workspace.Visited node := by rw [Visited, found, visited]
    refine ⟨false, workspace, rfl, by simp [before], rfl, fun other => ?_⟩
    exact ⟨.inr, fun either => either.elim (fun same => same ▸ before) id⟩
  · rw [if_neg visited]
    have notBefore : ¬ workspace.Visited node := by
      rw [Visited, found]
      exact fun same => visited (Option.some.inj same)
    refine ⟨true, _, rfl, by simp [notBefore], List.length_set, fun other => ?_⟩
    unfold Visited
    simp only [List.getElem?_set]
    by_cases same : node = other
    · simp [same, same ▸ inside]
    · simp [same, Ne.symm same]

inductive Call where
  | begin (nodeCount : Nat)
  | visit (node : Nat)

def perform (workspace : BuildWorkspace) : Call → Checking BuildWorkspace
  | .begin nodeCount => return workspace.begin nodeCount
  | .visit node => do
      let (_, next) ← workspace.visit node
      return next

def visitAll (workspace : BuildWorkspace) : List Nat → Checking (List Bool × BuildWorkspace)
  | [] => return ([], workspace)
  | node :: rest => do
      let (fresh, workspace) ← workspace.visit node
      let (answers, workspace) ← workspace.visitAll rest
      return (fresh :: answers, workspace)

theorem visitAll_returns {seen nodes : List Nat}
    (marks : ∀ node, workspace.Visited node ↔ node ∈ seen)
    (inside : ∀ node ∈ nodes, node < workspace.visited.length) :
    ∃ answers final, workspace.visitAll nodes = .ok (answers, final) ∧
      answers.length = nodes.length ∧ ∀ (position node : Nat), nodes[position]? = some node →
        (answers[position]? = some true ↔ node ∉ seen ++ nodes.take position) := by
  induction nodes generalizing workspace seen with
  | nil => exact ⟨[], workspace, rfl, rfl, by simp⟩
  | cons first rest ih =>
    obtain ⟨fresh, next, visits, isFresh, sized, marked⟩ :=
      visit_returns (inside first List.mem_cons_self)
    have nextMarks : ∀ node, next.Visited node ↔ node ∈ seen ++ [first] := fun node => by
      rw [marked, marks, List.mem_append, List.mem_singleton, or_comm]
    obtain ⟨answers, final, returns, count, later⟩ := ih nextMarks
      fun node member => sized ▸ inside node (List.mem_cons_of_mem _ member)
    refine ⟨fresh :: answers, final, ?_, congrArg (· + 1) count, fun position node isNode => ?_⟩
    · unfold visitAll
      rw [Checked.bind_ok visits]
      exact (Checked.bind_ok returns).trans rfl
    · cases position with
      | zero =>
        obtain rfl := Option.some.inj isNode
        rw [List.take_zero, List.append_nil, ← marks, ← isFresh, List.getElem?_cons_zero,
          Option.some.injEq]
      | succ position =>
        rw [List.take_succ_cons, List.append_cons]
        exact later position node isNode

/-- Marks of earlier searches are never taken for marks of the current one, however many
searches there were and over however many nodes: after a search has begun no node is visited,
and a visit is fresh exactly when it is the first one of its node. -/
theorem marks_never_leak (history : List Call) (nodeCount : Nat) :
    ∀ workspace, history.foldlM perform new = .ok workspace →
      (∀ node < nodeCount, ¬ (workspace.begin nodeCount).Visited node) ∧
      ∀ nodes : List Nat, (∀ node ∈ nodes, node < nodeCount) →
        ∃ answers final, (workspace.begin nodeCount).visitAll nodes = .ok (answers, final) ∧
          answers.length = nodes.length ∧
          ∀ (position node : Nat), nodes[position]? = some node →
            (answers[position]? = some true ↔ node ∉ nodes.take position) := by
  intro workspace _
  refine ⟨fun node _ => not_visited_begin workspace nodeCount node, fun nodes inside => ?_⟩
  refine @visitAll_returns _ [] nodes (fun node => ?_) fun node member => ?_
  · exact iff_of_false (not_visited_begin workspace nodeCount node) List.not_mem_nil
  · rw [length_begin]
    exact inside node member

theorem second_search_starts_fresh :
    ∃ answers final, ((new.begin 2).begin 3).visitAll [0, 2, 0] = .ok (answers, final) ∧
      answers = [true, true, false] := by
  obtain ⟨answers, final, returns, count, fresh⟩ :=
    (marks_never_leak [.begin 2] 3 (new.begin 2) rfl).2 [0, 2, 0] (by decide)
  refine ⟨answers, final, returns, ?_⟩
  have first := fresh 0 0 rfl
  have second := fresh 1 2 rfl
  have third := fresh 2 0 rfl
  match answers, count with
  | [a, b, c], _ => simp_all

end BuildWorkspace

end FocalVector.Hnsw
