import FocalVector.Persistence.Sequential
import FocalVector.Persistence.SoundOpening

/-!
Contract: searching without a filter over graphs that return their best nodes.

A segment is asked for a fixed number of nodes, and only then are the nodes of
deleted, dirty and newer points dropped. Every clean live point is a node of some
segment, so a search is exact as long as fewer nodes than are asked for stand ahead
of each point of the result. Superseded nodes count, so a graph with enough of them
hides its live points.

Owns: `Covered`, an invariant of every run of writes and flushes, and the exact
condition under which a search without a filter is exact.

Does not own: reopening.
-/

namespace FocalVector.Persistence

open FocalVector.Foundation FocalVector.Engine LittleEndian

/-- A graph has the points it was built from as nodes, also when it was stored. -/
structure KeepsNodes (backend : IndexBackend)
    (nodes : backend.Graph → List (String × List F32)) : Prop where
  ids : ∀ graph, backend.ids graph = (nodes graph).map Prod.fst
  build : ∀ dimension metric points graph, backend.build dimension metric points = .ok graph →
    (nodes graph).Perm points
  decode : ∀ graph file offset decoded, (backend.encode graph).2 = .ok () →
    backend.decodeMapped (backend.encode graph).1 file offset = .ok decoded →
    (nodes decoded).Perm (nodes graph)

/-! ## The graph of a segment -/

theorem Built.graph {backend : IndexBackend} {config : CollectionConfig} {items : SegmentItems}
    {bytes : Bytes} {decoded : DecodedSegment backend} (built : Built backend config items bytes)
    (sized : ∀ point ∈ items.points, point.vector.length = config.dimension)
    (decodes : decodeSegment backend bytes = .ok decoded) :
    ∃ graph file offset, backend.build config.dimension config.metric
        (items.points.map fun point => (point.id, point.vector)) = .ok graph ∧
      (backend.encode graph).2 = .ok () ∧
      backend.decodeMapped (backend.encode graph).1 file offset = .ok decoded.index := by
  obtain ⟨graph, output, builds, written, rfl⟩ := built
  obtain ⟨graphLength, writable, rfl⟩ := bytes_putSegment.mp written
  obtain ⟨-, -, -, index, decodesGraph, -, rfl⟩ :=
    (decodeSegment_payload writable.within writable.finite sized writable.short).mp decodes
  exact ⟨graph, _, _, builds, writable.encoded, decodesGraph⟩

theorem KeepsNodes.built {backend : IndexBackend}
    {nodes : backend.Graph → List (String × List F32)} (keeps : KeepsNodes backend nodes)
    {config : CollectionConfig} {items : SegmentItems} {bytes : Bytes}
    {decoded : DecodedSegment backend} (built : Built backend config items bytes)
    (sized : ∀ point ∈ items.points, point.vector.length = config.dimension)
    (decodes : decodeSegment backend bytes = .ok decoded) :
    (nodes decoded.index).Perm (items.points.map fun point => (point.id, point.vector)) := by
  obtain ⟨graph, file, offset, builds, encoded, decodesGraph⟩ := built.graph sized decodes
  exact (keeps.decode graph file offset _ encoded decodesGraph).trans (keeps.build _ _ _ _ builds)

theorem KeepsNodes.withMetadata {backend : IndexBackend}
    {nodes : backend.Graph → List (String × List F32)} (keeps : KeepsNodes backend nodes)
    (conversion : IntegerConversion) : KeepsNodes (backend.withMetadata conversion) nodes :=
  ⟨keeps.ids, keeps.build, keeps.decode⟩

theorem same_of_matchGraph {backend : IndexBackend} {config : CollectionConfig}
    {points : List StoredPoint} {graph : backend.Graph}
    (accepted : matchGraph backend config points graph = .ok ()) :
    backend.dimension graph = config.dimension ∧ backend.metric graph = config.metric := by
  unfold matchGraph at accepted
  split at accepted
  · cases accepted
  · rename_i agrees
    simp only [not_or, not_not] at agrees
    exact ⟨agrees.1, agrees.2.1⟩

theorem mem_pushIndex {backend : IndexBackend} {indexes : List (IndexSegment backend)}
    {sequence : UInt64} {index : backend.Graph} {segment : IndexSegment backend} :
    segment ∈ pushIndex backend indexes sequence index ↔
      segment ∈ indexes ∨ backend.isEmpty index = false ∧ segment = ⟨sequence, index⟩ := by
  unfold pushIndex
  split
  next empty => simp [empty]
  next filled => simp [filled]

section Covering

variable {arith : SearchArithmetic} {backend : IndexBackend} {graphs : GraphSearch backend.Graph}
  {perfect : PerfectSearch arith graphs backend.dimension backend.metric} {store : SearchStore backend arith}

/-! ## Live points as nodes -/

def Holds (perfect : PerfectSearch arith graphs backend.dimension backend.metric)
    (segment : IndexSegment (backend.withMetadata arith.toIntegerConversion))
    (point : StoredPoint) : Prop :=
  (point.id, point.vector) ∈ perfect.nodes segment.index ∧ point.sequence ≤ segment.sequence

/-- A segment whose nodes are points of the past, those not newer than the segment
in their live version. -/
structure PastNodes (perfect : PerfectSearch arith graphs backend.dimension backend.metric)
    (store : SearchStore backend arith)
    (segment : IndexSegment (backend.withMetadata arith.toIntegerConversion)) : Prop where
  dimension : backend.dimension segment.index = store.inner.config.dimension
  metric : backend.metric segment.index = store.inner.config.metric
  before : segment.sequence ≤ store.inner.sequence
  distinct : ((perfect.nodes segment.index).map Prod.fst).Nodup
  live : ∀ id vector point, (id, vector) ∈ perfect.nodes segment.index →
    store.inner.points.get id = some point → point.sequence ≤ segment.sequence →
    point.vector = vector

/-- Every clean live point is a node of a segment. -/
structure Covered (perfect : PerfectSearch arith graphs backend.dimension backend.metric)
    (store : SearchStore backend arith) : Prop where
  sound : Sound store.inner
  segments : ∀ segment ∈ store.indexes, PastNodes perfect store segment
  covers : store.indexes ≠ [] → ∀ id point, store.inner.points.get id = some point →
    id ∉ store.dirtyIds → ∃ segment ∈ store.indexes, Holds perfect segment point

namespace Covered

theorem opened (perfect : PerfectSearch arith graphs backend.dimension backend.metric) (config : CollectionConfig)
    (durability : Durability) :
    Covered perfect (newStore (backend.withMetadata arith.toIntegerConversion) config durability) where
  sound := sound_blank config
  segments := nofun
  covers := fun indexed => absurd rfl indexed

theorem write (covered : Covered perfect store) {write : Write}
    (appended : Appended arith.toFloatArithmetic store.inner.config
      (store.inner.sequence.toNat + 1) [write]) : Covered perfect (store.committed write) := by
  obtain ⟨later, fields⟩ := appended.newer
  exact {
    sound := covered.sound.committed appended
    segments := by
      intro segment member
      have past := covered.segments segment member
      exact {
        dimension := past.dimension.trans
          (congrArg CollectionConfig.dimension (commit_config _ _)).symm
        metric := past.metric.trans (congrArg CollectionConfig.metric (commit_config _ _)).symm
        before := UInt64.le_of_lt (UInt64.lt_of_le_of_lt past.before later)
        distinct := past.distinct
        live := by
          intro id vector point isNode found older
          rcases Collection.get_of_applyWrite found with ⟨points, isUpsert, inBatch⟩ | ⟨-, before⟩
          · -- A written point is newer than every segment.
            rw [(fields points isUpsert point inBatch).2] at older
            have beyond := UInt64.lt_of_le_of_lt past.before later
            exact absurd (UInt64.lt_of_lt_of_le beyond older) (UInt64.lt_irrefl _)
          · exact past.live id vector point isNode before older }
    covers := by
      intro indexed id point found clean
      have outside := not_mem_changedIds clean
      rw [show (store.committed write).inner.points.get id = store.inner.points.get id from
        Collection.get_applyWrite_of_not_mem outside.2] at found
      exact covered.covers indexed id point found outside.1 }

theorem publish (keeps : KeepsNodes backend perfect.nodes) (covered : Covered perfect store)
    {order : IterationOrder} {stamp : Stamp} {bytes : Bytes}
    {decoded : DecodedSegment (backend.withMetadata arith.toIntegerConversion)}
    (built : Built (backend.withMetadata arith.toIntegerConversion) store.inner.config
      (store.flushSnapshot order).items bytes)
    (claims : Claims store (preparedOf _ (store.flushSnapshot order) stamp) bytes decoded) :
    Covered perfect (publishedStore store (preparedOf _ (store.flushSnapshot order) stamp) decoded) := by
  have members : ∀ point ∈ (store.flushSnapshot order).items.points,
      store.inner.points.get point.id = some point := flushSnapshot_members order
  have sized : ∀ point ∈ (store.flushSnapshot order).items.points,
      point.vector.length = store.inner.config.dimension :=
    fun point member => (covered.sound point.id point (members point member)).sized
  obtain ⟨-, isItems, matched⟩ := built.decoded sized claims.1
  have nodes := (keeps.withMetadata arith.toIntegerConversion).built built sized claims.1
  have same : (publishedStore store (preparedOf _ (store.flushSnapshot order) stamp) decoded).inner =
      store.inner := by
    have samePoints : decoded.points = (store.flushSnapshot order).items.points :=
      congrArg SegmentItems.points isItems
    show store.inner.replacePersistedPoints decoded.points = store.inner
    rw [samePoints]
    refine Collection.replacePersistedPoints_of_faithful fun point member live found _ => ?_
    exact Option.some.inj (found.symm.trans (members point member))
  have clean : (publishedStore store (preparedOf _ (store.flushSnapshot order) stamp)
      decoded).dirtyIds = ∅ := if_pos rfl
  have isNode : ∀ point ∈ (store.flushSnapshot order).items.points,
      (point.id, point.vector) ∈ perfect.nodes decoded.index := fun point member =>
    nodes.mem_iff.mpr (List.mem_map.mpr ⟨point, member, rfl⟩)
  have nonempty : ∀ point ∈ (store.flushSnapshot order).items.points,
      backend.isEmpty decoded.index = false := by
    intro point member
    have listed : point.id ∈ backend.ids decoded.index :=
      keeps.ids decoded.index ▸ List.mem_map.mpr ⟨_, isNode point member, rfl⟩
    simpa [IndexBackend.isEmpty, IndexBackend.len] using List.ne_nil_of_mem listed
  have isNew : ∀ point ∈ (store.flushSnapshot order).items.points, ∃ segment ∈ (publishedStore store
      (preparedOf _ (store.flushSnapshot order) stamp) decoded).indexes,
      Holds perfect segment point := fun point member =>
    ⟨_, mem_pushIndex.mpr (.inr ⟨nonempty point member, rfl⟩), isNode point member,
      (covered.sound point.id point (members point member)).older⟩
  refine ⟨same ▸ covered.sound, fun segment member => ?_, fun _ id point found _ => ?_⟩
  · rcases mem_pushIndex.mp member with isOld | ⟨-, rfl⟩
    · have inOld : segment ∈ store.indexes := by
        split at isOld
        · cases isOld
        · exact isOld
      have past := covered.segments segment inOld
      exact ⟨same ▸ past.dimension, same ▸ past.metric, same ▸ past.before, past.distinct, same ▸ past.live⟩
    · refine ⟨?_, ?_, ?_, ?_, ?_⟩
      · rw [same]
        exact (same_of_matchGraph matched).1
      · rw [same]
        exact (same_of_matchGraph matched).2
      · rw [same]
        exact UInt64.le_refl _
      · refine ((nodes.map Prod.fst).nodup_iff).mpr ?_
        rw [List.map_map]
        exact store.inner.points.values_ids_nodup.sublist ((flushSnapshot_sublist order).map _)
      · intro id vector point isNode found _
        obtain ⟨live, inItems, isLive⟩ := List.mem_map.mp (nodes.mem_iff.mp isNode)
        rw [Prod.mk.injEq] at isLive
        rw [same, ← isLive.1, members live inItems] at found
        rw [← Option.some.inj found, isLive.2]
  · rw [same] at found
    have sameId := PointMap.id_of_get found
    cases compact : (store.flushSnapshot order).compact with
    | true =>
      refine isNew point ?_
      rw [flushSnapshot_points, if_pos compact]
      exact PointMap.mem_values.mpr (sameId ▸ found)
    | false =>
      by_cases isDirty : id ∈ store.dirtyIds
      · refine isNew point ?_
        rw [flushSnapshot_points, if_neg (by simp [compact]), List.mem_filter]
        exact ⟨PointMap.mem_values.mpr (sameId ▸ found), by simpa [sameId] using isDirty⟩
      · have indexed : store.indexes ≠ [] := Sequential.indexed_of_delta order compact
        obtain ⟨segment, member, holds⟩ := covered.covers indexed id point found isDirty
        refine ⟨segment, mem_pushIndex.mpr (.inl ?_), holds⟩
        show segment ∈ if (store.flushSnapshot order).compact then [] else store.indexes
        rw [compact]
        exact member

section Runs

variable {state next : SequentialState (backend.withMetadata arith.toIntegerConversion)}
  {config : CollectionConfig} {process : Nat}

/-- A write or a flush keeps every clean live point a node. -/
theorem step (keeps : KeepsNodes backend perfect.nodes) (covered : Covered perfect state.store)
    {command : SequentialCommand} (stays : ∀ durability, command ≠ .reopen durability)
    (steps : state.step arith.toFloatArithmetic config process command = some next) :
    Covered perfect next.store := by
  cases command with
  | reopen durability => exact absurd rfl (stays durability)
  | write request =>
    simp only [SequentialState.step] at steps
    split at steps
    next written after sequence write runs isBatch =>
      obtain ⟨batch, -, appended, rfl⟩ := perform_eq_ok runs
      cases steps
      exact covered.write appended
    next =>
      cases steps
      exact covered
  | flush order timestamp =>
    simp only [SequentialState.step] at steps
    split at steps
    next flushed after sequence runs =>
      cases steps
      rcases flush_eq_ok runs with rfl | ⟨bytes, decoded, built, claims, rfl⟩
      · exact covered
      · exact covered.publish keeps built claims
    next =>
      cases steps
      exact covered

theorem run (keeps : KeepsNodes backend perfect.nodes) (covered : Covered perfect state.store)
    {commands : List SequentialCommand} (stays : ∀ durability, .reopen durability ∉ commands)
    (runs : state.run arith.toFloatArithmetic config process commands = some next) :
    Covered perfect next.store := by
  induction commands generalizing state with
  | nil =>
    cases runs
    exact covered
  | cons command rest ih =>
    simp only [SequentialState.run] at runs
    split at runs
    next middle steps =>
      refine ih (covered.step keeps ?_ steps) ?_ runs
      · rintro durability rfl
        exact stays durability List.mem_cons_self
      · exact fun durability member => stays durability (List.mem_cons_of_mem _ member)
    next => cases runs

end Runs

end Covered

/-! ## Searching -/

variable {query prepared : List F32} {k efSearch : Nat}

/-- A search finds a clean point: in a segment that holds it, fewer nodes than are
asked for stand ahead of it. -/
def WithinReach (perfect : PerfectSearch arith graphs backend.dimension backend.metric)
    (store : SearchStore backend arith) (prepared : List F32) (k : Nat) (point : StoredPoint) :
    Prop :=
  ∃ segment ∈ store.indexes, Holds perfect segment point ∧
    perfect.ahead segment.index prepared
        (nodeRank arith store.inner.config.metric prepared (point.id, point.vector)) <
      PersistentCollection.graphCount graphs k segment.index

variable (k efSearch) in
theorem PastNodes.askGraph_eq
    {segment : IndexSegment (backend.withMetadata arith.toIntegerConversion)}
    (past : PastNodes perfect store segment)
    (sized : query.length = store.inner.config.dimension)
    (prepares : store.inner.config.metric.prepare arith.toFloatArithmetic query = .ok prepared) :
    ∃ ids, PersistentCollection.askGraph graphs query k efSearch segment.index = .ok ids ∧
      ∀ id, id ∈ ids ↔ ∃ vector, (id, vector) ∈ perfect.nodes segment.index ∧
        perfect.ahead segment.index prepared
            (nodeRank arith store.inner.config.metric prepared (id, vector)) <
          PersistentCollection.graphCount graphs k segment.index := by
  unfold PersistentCollection.askGraph
  simp only
  split
  next unasked =>
    refine ⟨[], rfl, fun id => ⟨nofun, ?_⟩⟩
    rintro ⟨vector, -, few⟩
    omega
  next asked =>
    rw [← past.metric] at prepares ⊢
    obtain ⟨ids, answers, -, found⟩ := perfect.search_eq past.distinct (Nat.pos_of_ne_zero asked)
      (le_max_right _ _) (sized.trans past.dimension.symm) prepares
    exact ⟨ids, answers, found⟩

theorem Covered.found_iff (covered : Covered perfect store)
    (sized : query.length = store.inner.config.dimension)
    (prepares : store.inner.config.metric.prepare arith.toFloatArithmetic query = .ok prepared)
    {point : StoredPoint} (live : store.inner.points.get point.id = some point) :
    PersistentCollection.FoundInGraph graphs store query k efSearch point.id ↔
      point.id ∉ store.dirtyIds ∧ WithinReach perfect store prepared k point := by
  constructor
  · rintro ⟨segment, member, ids, answers, found, clean, older⟩
    have past := covered.segments segment member
    obtain ⟨asked, answered, isFound⟩ := past.askGraph_eq k efSearch sized prepares
    cases answers.symm.trans answered
    obtain ⟨vector, isNode, few⟩ := (isFound point.id).mp found
    have notNewer := older point live
    have same := past.live point.id vector point isNode live notNewer
    subst same
    exact ⟨clean, segment, member, ⟨isNode, notNewer⟩, few⟩
  · rintro ⟨clean, segment, member, ⟨isNode, notNewer⟩, few⟩
    have past := covered.segments segment member
    obtain ⟨ids, answered, isFound⟩ := past.askGraph_eq k efSearch sized prepares
    refine ⟨segment, member, ids, answered, (isFound point.id).mpr ⟨_, isNode, few⟩, clean, ?_⟩
    intro other found
    rw [live] at found
    exact Option.some.inj found ▸ notNewer

/-- No clean point of the exact result is out of reach. -/
def NothingHidden (perfect : PerfectSearch arith graphs backend.dimension backend.metric)
    (store : SearchStore backend arith) (query : List F32) (k : Nat) : Prop :=
  store.indexes ≠ [] → ∀ prepared exact,
    store.inner.config.metric.prepare arith.toFloatArithmetic query = .ok prepared →
    store.inner.search arith query k none = .ok exact →
    ∀ point, store.inner.points.get point.id = some point →
      point.hit arith store.inner.config.metric prepared ∈ exact →
      point.id ∉ store.dirtyIds → WithinReach perfect store prepared k point

theorem Covered.exact_iff (covered : Covered perfect store)
    (valid : ValidSearch arith store.inner query k efSearch) :
    store.searchWithEf arith graphs query k none efSearch =
        store.inner.search arith query k none ↔ NothingHidden perfect store query k := by
  rw [PersistentCollection.searchWithEf_eq valid]
  by_cases indexed : store.indexes = []
  · refine ⟨fun _ isIndexed => absurd indexed isIndexed, fun _ => ?_⟩
    show store.searchGraphs arith graphs query k efSearch = _
    unfold PersistentCollection.searchGraphs
    rw [if_pos (by simpa using indexed)]
  obtain ⟨prepared, prepares, preparesQuery⟩ := valid.prepareQuery
  have answered : ∀ segment ∈ store.indexes, ∃ ids,
      PersistentCollection.askGraph graphs query k efSearch segment.index = .ok ids := by
    intro segment member
    obtain ⟨ids, answers, -⟩ :=
      (covered.segments segment member).askGraph_eq k efSearch valid.dimension prepares
    exact ⟨ids, answers⟩
  obtain ⟨best, searched, isBest⟩ :=
    PersistentCollection.searchGraphs_eq valid indexed prepares answered
  obtain ⟨exact, searchedExact, isExact⟩ := Collection.search_eq preparesQuery none
  show store.searchGraphs arith graphs query k efSearch = _ ↔ _
  rw [searched, searchedExact, Except.ok.injEq, isExact.eq_iff isBest ?smaller]
  case smaller =>
    rintro hit ⟨point, live, -, rest⟩
    exact ⟨point, live, trivial, rest⟩
  constructor
  · intro inside _ query' exact' prepares' isResult point live isHit clean
    cases prepares.symm.trans prepares'
    cases searchedExact.symm.trans isResult
    obtain ⟨found, isLive, chosen, -, same⟩ := inside _ isHit
    have sameId : point.id = found.id := congrArg SearchHit.id same
    rw [← sameId] at chosen
    exact ((covered.found_iff valid.dimension prepares live).mp (chosen.resolve_right clean)).2
  · intro reach hit isHit
    obtain ⟨point, live, -, passed, rfl⟩ := isExact.sound hit isHit
    refine ⟨point, live, ?_, passed, rfl⟩
    by_cases isDirty : point.id ∈ store.dirtyIds
    · exact .inr isDirty
    · exact .inl ((covered.found_iff valid.dimension prepares live).mpr
        ⟨isDirty, reach indexed prepared exact prepares searchedExact point live isHit isDirty⟩)

variable (perfect) in
/-- In every state that a run of writes and flushes reaches, every clean point is a
node of some segment, and a search without a filter over perfect graphs is the exact
search, with as many hits as there are to return, exactly when no clean point of the
exact result is out of reach. -/
theorem unfiltered_search_exact_iff (keeps : KeepsNodes backend perfect.nodes)
    {config : CollectionConfig} {durability : Durability} {process : Nat}
    {commands : List SequentialCommand}
    {state : SequentialState (backend.withMetadata arith.toIntegerConversion)}
    (stays : ∀ durability, .reopen durability ∉ commands)
    (reached : (SequentialState.opened (backend.withMetadata arith.toIntegerConversion) config
      durability).run arith.toFloatArithmetic config process commands = some state)
    (valid : ValidSearch arith state.store.inner query k efSearch) :
    (state.store.indexes ≠ [] → ∀ id point, state.store.inner.points.get id = some point →
      id ∉ state.store.dirtyIds → ∃ segment ∈ state.store.indexes, Holds perfect segment point) ∧
    (state.store.searchWithEf arith graphs query k none efSearch =
        state.store.inner.search arith query k none ↔
      NothingHidden perfect state.store query k) ∧
    (NothingHidden perfect state.store query k → ∃ hits,
      state.store.searchWithEf arith graphs query k none efSearch = .ok hits ∧
        hits.length = min k state.store.inner.points.values.length) := by
  have covered : Covered perfect state.store :=
    (Covered.opened perfect config durability).run keeps stays reached
  refine ⟨covered.covers, covered.exact_iff valid, fun reach => ?_⟩
  obtain ⟨prepared, -, preparesQuery⟩ := valid.prepareQuery
  obtain ⟨exact, searched, -⟩ := Collection.search_eq preparesQuery none
  exact ⟨exact, ((covered.exact_iff valid).mpr reach).trans searched,
    Collection.length_search preparesQuery searched⟩

end Covering

/-! ## A scanning backend -/

def putScanNode (node : String × List F32) : Output := do
  putString node.1
  putCount node.2.length
  putVector node.2

def putScanGraph (graph : ScanGraph) : Output := do
  .put (u64Bytes (UInt64.ofNat graph.dimension))
  .put [metricTag graph.metric]
  putCount graph.nodes.length
  graph.nodes.forM putScanNode

def Input.scanNode : Input (String × List F32) := do
  let id ← string
  let length ← count
  let vector ← Decoder.collect f32 length
  pure (id, vector)

def Input.scanGraph : Input ScanGraph := do
  let dimension ← u64
  let tag ← byte
  let metric ← Decoder.ofExcept (parseMetric tag)
  let length ← count
  let nodes ← Decoder.collect scanNode length
  pure ⟨dimension.toNat, metric, nodes⟩

def IndexBackend.scan : IndexBackend where
  Graph := ScanGraph
  build dimension metric points := .ok ⟨dimension, metric, points⟩
  encodedLen graph := (putScanGraph graph).bytes.map List.length
  encode graph := ((putScanGraph graph).run.2, (putScanGraph graph).run.1)
  decodeMapped bytes _ _ := Decoder.run Input.scanGraph bytes
  dimension graph := graph.dimension
  metric graph := graph.metric
  ids graph := graph.nodes.map Prod.fst
  MetadataIndex := List String
  buildMetadata points := points.map StoredPoint.id

section Scan

open Encoder (Writes)
open Decoder (Reads)

def scanNodeBytes (node : String × List F32) : Bytes :=
  stringBytes node.1 ++ (countBytes node.2.length ++ vectorBytes node.2)

def scanGraphBytes (graph : ScanGraph) : Bytes :=
  u64Bytes (UInt64.ofNat graph.dimension) ++ ([metricTag graph.metric] ++
    (countBytes graph.nodes.length ++ graph.nodes.flatMap scanNodeBytes))

theorem writes_putScanNode (node : String × List F32) :
    Writes (putScanNode node) (fun _ => scanNodeBytes node)
      (StringWithin wireLimit node.1 ∧ node.2.length ≤ wireLimit) :=
  ((writes_putString node.1).seq ((writes_putCount _).seq (writes_putVector node.2))).congr
    (fun _ => rfl) (by simp)

theorem writes_putScanGraph (graph : ScanGraph) :
    Writes (putScanGraph graph) (fun _ => scanGraphBytes graph)
      (graph.nodes.length ≤ wireLimit ∧ ∀ node ∈ graph.nodes,
        StringWithin wireLimit node.1 ∧ node.2.length ≤ wireLimit) := by
  have nodes := Writes.forM graph.nodes fun node _ => writes_putScanNode node
  exact ((Writes.put _).seq ((Writes.put _).seq ((writes_putCount _).seq nodes))).congr
    (fun _ => by rw [Decoder.encodeAll_const]; rfl) (by simp)

theorem reads_scanNode (position : Nat) {node : String × List F32}
    (fits : StringWithin wireLimit node.1) (short : node.2.length ≤ wireLimit) :
    Reads Input.scanNode position (scanNodeBytes node) node
      (StringWithin maxItems node.1 ∧ node.2.length ≤ maxItems ∧
        ∀ value ∈ node.2, value.isFinite = true) :=
  (Input.reads_string position fits).bind ((Input.reads_count _ short).bind
    ((Input.reads_vector _ node.2).bind_pure rfl))

theorem reads_scanGraph {graph : ScanGraph} (few : graph.nodes.length ≤ wireLimit)
    (fits : ∀ node ∈ graph.nodes, StringWithin wireLimit node.1 ∧ node.2.length ≤ wireLimit) :
    ∃ accepted, Reads Input.scanGraph 0 (scanGraphBytes graph)
      ⟨(UInt64.ofNat graph.dimension).toNat, graph.metric, graph.nodes⟩ accepted := by
  have nodes := fun position => Reads.collect_list graph.nodes (fun node member position =>
    reads_scanNode position (fits node member).1 (fits node member).2) position
  simp only [Decoder.encodeAll_const] at nodes
  have metric : ∀ position, Reads (Decoder.ofExcept (parseMetric (metricTag graph.metric)) :
      Input Metric) position [] graph.metric True := by
    intro position
    rw [parseMetric_metricTag]
    exact Reads.pure graph.metric position
  exact ⟨_, (Input.reads_u64 0 _).bind ((Input.reads_byte _ _).bind ((metric _).bind
    ((Input.reads_count _ few).bind ((nodes _).bind_pure rfl))))⟩

theorem nodes_of_scanGraph {graph decoded : ScanGraph}
    (written : (putScanGraph graph).run.1 = .ok ())
    (decodes : Decoder.run Input.scanGraph (putScanGraph graph).run.2 = .ok decoded) :
    decoded.nodes = graph.nodes := by
  have bytes : (putScanGraph graph).bytes = .ok (putScanGraph graph).run.2 := by
    unfold Encoder.bytes
    rw [show (putScanGraph graph).run = (.ok (), (putScanGraph graph).run.2) from
      Prod.ext written rfl]
  obtain ⟨⟨few, fits⟩, isBytes⟩ := (writes_putScanGraph graph).of_bytes_ok bytes
  obtain ⟨accepted, reads⟩ := reads_scanGraph few fits
  rw [isBytes] at decodes
  rw [reads.eq_of_run decodes]

theorem keepsNodes_scan (arith : SearchArithmetic) :
    KeepsNodes IndexBackend.scan (scanPerfect arith).nodes where
  ids _ := rfl
  build := by
    rintro dimension metric points graph ⟨⟩
    exact .refl _
  decode := by
    intro graph file offset decoded written decodes
    rw [show (scanPerfect arith).nodes decoded = (scanPerfect arith).nodes graph from
      nodes_of_scanGraph written decodes]

end Scan

/-- A flushed point is a node of the segment of its flush, and a search is exact when
it is within reach. -/
theorem flushed_point_is_node :
    let config : CollectionConfig := ⟨1, .dotProduct, by decide⟩
    ∃ state, (SequentialState.opened (IndexBackend.scan.withMetadata
          SearchArithmetic.unit.toIntegerConversion) config .sync).run
        SearchArithmetic.unit.toFloatArithmetic config 7
        [.write (.upsert [⟨"a", [⟨0x3f800000⟩], ∅⟩]), .flush .sorted 0] = some state ∧
      ValidSearch .unit state.store.inner [⟨0x3f800000⟩] 1 1 ∧
      (state.store.searchWithEf .unit (scanSearch .unit) [⟨0x3f800000⟩] 1 none 1 =
          state.store.inner.search .unit [⟨0x3f800000⟩] 1 none ↔
        NothingHidden (scanPerfect .unit) state.store [⟨0x3f800000⟩] 1) := by
  intro config
  generalize reached : SequentialState.run _ _ _ _ _ = result
  have runs : result.map
      (fun state => (state.store.inner.config.dimension, state.store.inner.config.metric)) =
      some (1, .dotProduct) := by
    rw [← reached]
    decide +kernel
  obtain ⟨state, rfl, sameConfig⟩ := Option.map_eq_some_iff.mp runs
  rw [Prod.mk.injEq] at sameConfig
  have valid : ValidSearch .unit state.store.inner [⟨0x3f800000⟩] 1 1 :=
    ⟨by decide, le_rfl, sameConfig.1.symm, _, by rw [sameConfig.2]; rfl⟩
  exact ⟨state, rfl, valid, (unfiltered_search_exact_iff (scanPerfect .unit) (keepsNodes_scan .unit)
    (by simp) reached valid).2.1⟩

/-- Four deleted points that score better hide the fifth from a search for one
point. -/
theorem deleted_nodes_hide_point :
    let config : CollectionConfig := ⟨1, .dotProduct, by decide⟩
    ∃ state, (SequentialState.opened (IndexBackend.scan.withMetadata
          SearchArithmetic.unit.toIntegerConversion) config .sync).run
        SearchArithmetic.unit.toFloatArithmetic config 7
        [.write (.upsert [⟨"a", [⟨0x3f800000⟩], ∅⟩, ⟨"b", [⟨0x40000000⟩], ∅⟩,
            ⟨"c", [⟨0x40400000⟩], ∅⟩, ⟨"d", [⟨0x40800000⟩], ∅⟩, ⟨"e", [⟨0x40a00000⟩], ∅⟩]),
          .flush .sorted 0, .write (.delete ["b", "c", "d", "e"])] = some state ∧
      state.store.searchWithEf .unit (scanSearch .unit) [⟨0x3f800000⟩] 1 none 1 = .ok [] ∧
      ∃ hit, state.store.inner.search .unit [⟨0x3f800000⟩] 1 none = .ok [hit] ∧ hit.id = "a" := by
  intro config
  generalize reached : SequentialState.run _ _ _ _ _ = result
  have runs : result.map (fun state =>
      ((state.store.searchWithEf .unit (scanSearch .unit) [⟨0x3f800000⟩] 1 none 1).toOption.map
        (List.map SearchHit.id),
      (state.store.inner.search .unit [⟨0x3f800000⟩] 1 none).toOption.map (List.map SearchHit.id))) =
      some (some [], some ["a"]) := by
    rw [← reached]
    decide +kernel
  obtain ⟨state, rfl, found⟩ := Option.map_eq_some_iff.mp runs
  rw [Prod.mk.injEq] at found
  obtain ⟨returned, searched, isEmpty⟩ := Option.map_eq_some_iff.mp found.1
  obtain ⟨exact, searchedExact, isExact⟩ := Option.map_eq_some_iff.mp found.2
  rw [List.map_eq_nil_iff] at isEmpty
  obtain ⟨hit, rfl, isHit⟩ := List.map_eq_singleton_iff.mp isExact
  exact ⟨state, rfl, eq_ok_of_toOption (isEmpty ▸ searched), hit,
    eq_ok_of_toOption searchedExact, isHit⟩

end FocalVector.Persistence
