import FocalVector.Engine.Search

/-!
Contract: graphs over points, as far as searches use them.

A graph holds nodes, each an id with the vector it was built from, and a search of
it returns ids. Searches that use graphs must not rely on what they return, but how
good their results are is measured against a graph that always returns its best
nodes.

Owns: `GraphSearch`, `PerfectSearch`, and a search that is perfect because it scans
all nodes.

Does not own: how graphs are built or stored.
-/

namespace FocalVector.Engine

open FocalVector.Foundation

/-- The largest `usize`. -/
def usizeMax : Nat := 2 ^ 64 - 1

/-- `saturating_mul` -/
def saturatingMul (left right : Nat) : Nat := min (left * right) usizeMax

/-- `saturating_add` -/
def saturatingAdd (left right : Nat) : Nat := min (left + right) usizeMax

/-- How a graph keeps its vectors. -/
inductive HnswVectorStorage where
  | f32
  | scalarInt8
deriving DecidableEq, Repr

structure GraphSearch (Graph : Type) where
  vectorStorage : Graph → HnswVectorStorage
  /-- The ids that `HnswIndex::search` returns for a query, `k` and `ef_search`. -/
  search : Graph → List F32 → Nat → Nat → Result (List String)

/-- The order of nodes for a prepared query, which is the order of their hits. -/
def nodeRank (arith : SearchArithmetic) (metric : Metric) (query : List F32)
    (node : String × List F32) : Int ×ₗ String :=
  toLex (-(metric.score arith query node.2).totalPlace, node.1)

/-- A search that returns the ids of the best nodes of the graph to every valid query, by
the full-precision score of the vectors it was built from and then by id. -/
structure PerfectSearch (arith : SearchArithmetic) {Graph : Type} (graphs : GraphSearch Graph)
    (dimension : Graph → Nat) (metric : Graph → Metric) where
  nodes : Graph → List (String × List F32)
  best : ∀ graph query prepared k efSearch, ((nodes graph).map Prod.fst).Nodup →
    0 < k → k ≤ efSearch → query.length = dimension graph →
    (metric graph).prepare arith.toFloatArithmetic query = .ok prepared →
    ∃ best, graphs.search graph query k efSearch = .ok (best.map Prod.fst) ∧
      IsBest (nodeRank arith (metric graph) prepared) k {node | node ∈ nodes graph} best

section

variable {arith : SearchArithmetic} {Graph : Type} {graphs : GraphSearch Graph}
  {dimension : Graph → Nat} {metric : Graph → Metric} {graph : Graph} {query prepared : List F32}
  {k efSearch : Nat}

def PerfectSearch.ahead (perfect : PerfectSearch arith graphs dimension metric) (graph : Graph)
    (prepared : List F32) (rank : Int ×ₗ String) : Nat :=
  (perfect.nodes graph).countP fun node => nodeRank arith (metric graph) prepared node < rank

/-- A node is found exactly when fewer nodes than were asked for are ahead of it. -/
theorem PerfectSearch.search_eq (perfect : PerfectSearch arith graphs dimension metric)
    (distinct : ((perfect.nodes graph).map Prod.fst).Nodup) (positive : 0 < k)
    (enough : k ≤ efSearch) (sized : query.length = dimension graph)
    (prepares : (metric graph).prepare arith.toFloatArithmetic query = .ok prepared) :
    ∃ ids, graphs.search graph query k efSearch = .ok ids ∧ ids.Nodup ∧ ∀ id, id ∈ ids ↔
      ∃ vector, (id, vector) ∈ perfect.nodes graph ∧
        perfect.ahead graph prepared (nodeRank arith (metric graph) prepared (id, vector)) < k := by
  obtain ⟨best, searches, isBest⟩ := perfect.best graph query prepared k efSearch distinct
    positive enough sized prepares
  have distinctBest : (best.map Prod.fst).Nodup :=
    (List.nodup_map_iff_inj_on isBest.nodup).mpr fun left isLeft right isRight same =>
      List.inj_on_of_nodup_map distinct (isBest.sound left isLeft) (isBest.sound right isRight) same
  refine ⟨_, searches, distinctBest, fun id => ?_⟩
  rw [List.mem_map]
  constructor
  · rintro ⟨⟨found, vector⟩, member, rfl⟩
    exact ⟨vector, (isBest.mem_iff distinct.of_map).mp member⟩
  · rintro ⟨vector, isNode⟩
    exact ⟨(id, vector), (isBest.mem_iff distinct.of_map).mpr isNode, rfl⟩

end

/-! ## Scanning the nodes -/

/-- A graph without links. -/
structure ScanGraph where
  dimension : Nat
  metric : Metric
  nodes : List (String × List F32)

def scanSearch (arith : SearchArithmetic) : GraphSearch ScanGraph where
  vectorStorage _ := .scalarInt8
  search graph query k _ := do
    let prepared ← graph.metric.prepare arith.toFloatArithmetic query
    return (keepBest (nodeRank arith graph.metric prepared) k graph.nodes).map Prod.fst

def scanPerfect (arith : SearchArithmetic) :
    PerfectSearch arith (scanSearch arith) ScanGraph.dimension ScanGraph.metric where
  nodes := ScanGraph.nodes
  best := by
    intro graph query prepared k efSearch distinct _ _ _ prepares
    refine ⟨_, ?_, isBest_keepBest ?_⟩
    · show Except.bind (graph.metric.prepare arith.toFloatArithmetic query) _ = _
      rw [prepares]
      rfl
    · refine List.Nodup.of_map (fun key : Int ×ₗ String => (ofLex key).2) ?_
      rw [List.map_map]
      exact distinct

end FocalVector.Engine
