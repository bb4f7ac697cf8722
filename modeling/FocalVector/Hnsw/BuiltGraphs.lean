import FocalVector.Hnsw.Build

/-!
Contract: what a search finds in a graph that was built.

Links are made in pairs but dropped from one side only, so a node may be left without a link
that leads to it, and the graph does not find it. What holds of every build that returns is
that its lists lead to its nodes, whatever was planned: each link is used when it is made.

Owns: what the steps of a build keep, that built graphs can be searched, and how many points
a search of them returns.

Does not own: why builds return.
-/

namespace FocalVector.Hnsw

open FocalVector.Foundation FocalVector.Engine

namespace HnswIndex

variable {arith : HnswArithmetic} {index next : HnswIndex} {node layer : Nat} {links : List Nat}

/-! ## Lists -/

theorem listAt_mem (isList : index.listAt node layer = .ok links) :
    node < index.nodes.length ∧ ∃ stored ∈ index.nodes, links ∈ stored.neighbors := by
  obtain ⟨stored, isNode, found⟩ := Checked.of_bind_ok isList
  have isNode := Checked.get_eq_ok.mp isNode
  exact ⟨(List.getElem?_eq_some_iff.mp isNode).1, stored, List.mem_of_getElem? isNode,
    List.mem_of_getElem? (Checked.get_eq_ok.mp found)⟩

/-- A node of the graph with other links is a node of the graph, or one whose list was
replaced. -/
theorem mem_setLinks {stored : Node} (member : stored ∈ (index.setLinks node layer links).nodes) :
    stored ∈ index.nodes ∨ ∃ old ∈ index.nodes,
      stored = { old with neighbors := old.neighbors.set layer links } := by
  obtain ⟨position, found⟩ := List.mem_iff_getElem?.mp member
  rw [setLinks, List.getElem?_modify] at found
  obtain ⟨old, isOld, isStored⟩ := Option.map_eq_some_iff.mp found
  split at isStored
  · exact .inr ⟨old, List.mem_of_getElem? isOld, isStored.symm⟩
  · exact .inl (isStored ▸ List.mem_of_getElem? isOld)

theorem sortItems_mem {items sorted : List HeapItem} (sorts : index.sortItems items = .ok sorted) :
    ∀ item ∈ sorted, item ∈ items := by
  obtain ⟨named, names, sorts⟩ := Checked.of_bind_ok sorts
  cases sorts
  intro item member
  obtain ⟨pair, isPair, rfl⟩ := List.mem_map.mp member
  rw [List.mem_insertionSort] at isPair
  obtain ⟨source, isSource, gives⟩ := Checked.exists_of_forall₂ (Checked.of_mapM names) pair isPair
  obtain ⟨id, -, gives⟩ := Checked.of_bind_ok gives
  cases gives
  exact isSource

theorem selectLoop_mem {limit : Nat} {candidates selected rejected : List HeapItem}
    {found : List HeapItem × List HeapItem}
    (selects : index.selectLoop arith limit selected rejected candidates = .ok found) :
    ∀ item, item ∈ found.1 ∨ item ∈ found.2 →
      item ∈ selected ∨ item ∈ rejected ∨ item ∈ candidates := by
  induction candidates generalizing selected rejected with
  | nil =>
    cases selects
    exact fun item member => member.imp_right .inl
  | cons candidate rest ih =>
    unfold selectLoop at selects
    split at selects
    · cases selects
      exact fun item member => member.imp_right .inl
    obtain ⟨isDiverse, -, selects⟩ := Checked.of_bind_ok selects
    intro item member
    cases isDiverse with
    | true => grind [ih selects item member]
    | false => grind [ih selects item member]

theorem selectNeighbors_mem {limit : Nat} {candidates selected : List HeapItem}
    (selects : index.selectNeighbors arith candidates limit = .ok selected) :
    ∀ item ∈ selected, item ∈ candidates := by
  obtain ⟨_, -, selects⟩ := Checked.of_bind_ok selects
  obtain ⟨found, loops, selects⟩ := Checked.of_bind_ok selects
  cases selects
  intro item member
  have earlier := selectLoop_mem loops item
    ((List.mem_append.mp member).imp_right List.mem_of_mem_take)
  simpa using earlier

/-! ## Links are used when they are made -/

theorem extendLinks_eq_ok (extends_ : index.extendLinks node layer links = .ok next) :
    node < index.nodes.length ∧ ∃ stored ∈ index.nodes, ∃ list ∈ stored.neighbors,
      next = index.setLinks node layer (list ++ links) := by
  obtain ⟨list, isList, extends_⟩ := Checked.of_bind_ok extends_
  obtain ⟨inside, stored, isNode, isStored⟩ := listAt_mem isList
  exact ⟨inside, stored, isNode, list, isStored, (Except.ok.inj extends_).symm⟩

/-- A list that is pruned keeps links of its own. -/
theorem prune_eq_ok (prunes : index.prune arith node layer = .ok next) :
    next = index ∨ ∃ stored ∈ index.nodes, ∃ list ∈ stored.neighbors, ∃ kept,
      next = index.setLinks node layer kept ∧ ∀ link ∈ kept, ∃ source ∈ list, link ≤ source := by
  obtain ⟨list, isList, prunes⟩ := Checked.of_bind_ok prunes
  obtain ⟨-, stored, isNode, isStored⟩ := listAt_mem isList
  simp only at prunes
  split at prunes
  · exact .inl (Except.ok.inj prunes).symm
  obtain ⟨candidates, scores, prunes⟩ := Checked.of_bind_ok prunes
  obtain ⟨sorted, sorts, prunes⟩ := Checked.of_bind_ok prunes
  obtain ⟨selected, selects, prunes⟩ := Checked.of_bind_ok prunes
  refine .inr ⟨stored, isNode, list, isStored, _, (Except.ok.inj prunes).symm, fun link isLink => ?_⟩
  obtain ⟨item, isItem, rfl⟩ := List.mem_map.mp isLink
  obtain ⟨source, isSource, gives⟩ := Checked.exists_of_forall₂ (Checked.of_mapM scores) item
    (sortItems_mem sorts item (selectNeighbors_mem selects item isItem))
  obtain ⟨_, -, gives⟩ := Checked.of_bind_ok gives
  obtain ⟨_, -, gives⟩ := Checked.of_bind_ok gives
  obtain ⟨_, -, gives⟩ := Checked.of_bind_ok gives
  cases gives
  -- A link is stored in 32 bits, so it is the source or a smaller number.
  exact ⟨source, isSource, Nat.mod_le _ _⟩

theorem length_setLinks : (index.setLinks node layer links).nodes.length = index.nodes.length :=
  List.length_modify _ _ _

theorem length_extendLinks (extends_ : index.extendLinks node layer links = .ok next) :
    node < index.nodes.length ∧ next.nodes.length = index.nodes.length := by
  obtain ⟨inside, _, -, _, -, rfl⟩ := extendLinks_eq_ok extends_
  exact ⟨inside, length_setLinks⟩

theorem length_linkBack {newIndex neighbor : Nat}
    (links : index.linkBack arith newIndex layer neighbor = .ok next) :
    neighbor < index.nodes.length ∧ next.nodes.length = index.nodes.length := by
  obtain ⟨extended, extends_, links⟩ := Checked.of_bind_ok links
  obtain ⟨inside, sameLength⟩ := length_extendLinks extends_
  obtain ⟨list, -, links⟩ := Checked.of_bind_ok links
  refine ⟨inside, ?_⟩
  split at links
  · rcases prune_eq_ok links with rfl | ⟨_, -, _, -, _, rfl, -⟩
    · exact sameLength
    · exact length_setLinks.trans sameLength
  · cases links
    exact sameLength

theorem linkBacks_inside {newIndex : Nat} {selected : List HeapItem}
    (links : selected.foldlM (fun index item => index.linkBack arith newIndex layer item.index)
      index = .ok next) : ∀ item ∈ selected, item.index < index.nodes.length := by
  induction selected generalizing index with
  | nil => simp
  | cons item rest ih =>
    rw [List.foldlM_cons] at links
    obtain ⟨linked, first, links⟩ := Checked.of_bind_ok links
    obtain ⟨inside, sameLength⟩ := length_linkBack first
    exact List.forall_mem_cons.mpr ⟨inside, fun later member => sameLength ▸ ih links later member⟩

end HnswIndex

/-! ## Graphs under construction -/

/-- A point that a build may insert. -/
structure PreparedPoint.Ready (storage : HnswVectorStorage) (dimension : Nat) (point : PreparedPoint) :
    Prop where
  fits : point.vector.Fits storage dimension
  low : point.level ≤ maxLevel

namespace HnswIndex

/-- The graph of the points that were inserted. -/
structure Assembled (storage : HnswVectorStorage) (dimension : Nat) (points : List PreparedPoint)
    (index : HnswIndex) : Prop where
  building : index.compactGraph = none
  sized : index.dimension = dimension
  kind : index.vectors.storage = storage
  owned : index.vectors.isMapped = false
  counted : index.nodes.length = points.length
  named : index.ids = points.map PreparedPoint.id
  stored : index.vectors.Holds dimension (points.map PreparedPoint.vector)
  layered : Layered index.nodes
  linked : ∀ node ∈ index.nodes, ∀ list ∈ node.neighbors, ∀ link ∈ list, link < index.nodes.length
  entered : ∀ entry, index.entryPoint = some entry → entry < index.nodes.length

namespace Assembled

variable {arith : HnswArithmetic} {index next : HnswIndex} {node layer : Nat} {links : List Nat}
  {storage : HnswVectorStorage} {dimension : Nat} {points : List PreparedPoint}

section

variable (assembled : Assembled storage dimension points index)

include assembled

theorem setLinks (node layer : Nat) (inside : ∀ link ∈ links, link < index.nodes.length) :
    Assembled storage dimension points (index.setLinks node layer links) := by
  refine { assembled with
    counted := length_setLinks.trans assembled.counted
    layered := fun stored member => ?_
    linked := fun stored member list isList link isLink => ?_
    entered := fun entry isEntry => length_setLinks.symm ▸ assembled.entered entry isEntry }
  · rcases mem_setLinks member with same | ⟨old, isOld, rfl⟩
    · exact assembled.layered stored same
    · exact (List.length_set ..).trans (assembled.layered old isOld)
  · rw [length_setLinks]
    rcases mem_setLinks member with same | ⟨old, isOld, rfl⟩
    · exact assembled.linked stored same list isList link isLink
    · rcases List.mem_or_eq_of_mem_set isList with same | rfl
      · exact assembled.linked old isOld list same link isLink
      · exact inside link isLink

theorem extendLinks (extends_ : index.extendLinks node layer links = .ok next)
    (inside : ∀ link ∈ links, link < index.nodes.length) :
    Assembled storage dimension points next := by
  obtain ⟨-, stored, isNode, list, isStored, rfl⟩ := extendLinks_eq_ok extends_
  exact assembled.setLinks node layer
    (List.forall_mem_append.mpr ⟨assembled.linked stored isNode list isStored, inside⟩)

theorem prune (prunes : index.prune arith node layer = .ok next) :
    Assembled storage dimension points next := by
  rcases prune_eq_ok prunes with rfl | ⟨stored, isNode, list, isStored, kept, rfl, own⟩
  · exact assembled
  refine assembled.setLinks node layer fun link isLink => ?_
  obtain ⟨source, isSource, below⟩ := own link isLink
  exact below.trans_lt (assembled.linked stored isNode list isStored source isSource)

theorem linkBack {newIndex neighbor : Nat} (isNode : newIndex < index.nodes.length)
    (links : index.linkBack arith newIndex layer neighbor = .ok next) :
    Assembled storage dimension points next := by
  obtain ⟨extended, extends_, links⟩ := Checked.of_bind_ok links
  have longer := assembled.extendLinks extends_
    (List.forall_mem_singleton.mpr ((Nat.mod_le _ _).trans_lt isNode))
  obtain ⟨list, -, links⟩ := Checked.of_bind_ok links
  split at links
  · exact longer.prune links
  · cases links
    exact longer

theorem linkLayer {newIndex : Nat} {selected : List HeapItem}
    (links : index.linkLayer arith newIndex layer selected = .ok next) :
    Assembled storage dimension points next := by
  obtain ⟨extended, extends_, links⟩ := Checked.of_bind_ok links
  obtain ⟨isNode, sameLength⟩ := length_extendLinks extends_
  -- The list of every selected node is read to link it back, so all of them are nodes.
  have longer := assembled.extendLinks extends_ fun link isLink => by
    obtain ⟨item, isItem, rfl⟩ := List.mem_map.mp isLink
    exact (Nat.mod_le _ _).trans_lt (sameLength ▸ linkBacks_inside links item isItem)
  refine Checked.foldlM_keeps links (fun item _ state next kept links => ?_) longer
  exact kept.linkBack (by rw [kept.counted, ← assembled.counted]; exact isNode) links

variable {point : PreparedPoint}

/-- The new node has no links at first. -/
theorem addNode (ready : point.Ready storage dimension)
    (adds : index.addNode point = .ok next) :
    Assembled storage dimension (points ++ [point]) next := by
  obtain ⟨vectors, pushes, stored, kind, owned⟩ :=
    assembled.stored.push (assembled.kind ▸ ready.fits) assembled.owned
  unfold HnswIndex.addNode at adds
  rw [Checked.bind_ok pushes] at adds
  cases adds
  have longer : index.nodes.length <
      (index.nodes ++ [(⟨point.level % 256, 0, List.replicate (point.level + 1) []⟩ : Node)]).length := by
    rw [List.length_append]
    exact Nat.lt_succ_self _
  exact {
    building := assembled.building
    sized := assembled.sized
    kind := kind.trans assembled.kind
    owned
    counted := by rw [List.length_append, List.length_append, assembled.counted]; rfl
    named := by rw [List.map_append, ← assembled.named]; rfl
    stored := by rw [List.map_append]; exact stored
    layered := fun node member => by
      rcases List.mem_append.mp member with earlier | isNew
      · exact assembled.layered node earlier
      · rw [List.mem_singleton.mp isNew]
        have low := ready.low
        unfold Hnsw.maxLevel at low
        rw [List.length_replicate, Nat.mod_eq_of_lt (by omega)]
    linked := fun node member list isList link isLink => by
      rcases List.mem_append.mp member with earlier | isNew
      · exact (assembled.linked node earlier list isList link isLink).trans longer
      · rw [List.mem_singleton.mp isNew] at isList
        rw [List.eq_of_mem_replicate isList] at isLink
        cases isLink
    entered := fun entry isEntry => (assembled.entered entry isEntry).trans longer }

/-- Whatever was planned, an insertion that returns has added its point. -/
theorem applyInsertion (ready : point.Ready storage dimension)
    {plan : InsertionPlan} (inserts : index.applyInsertion arith point plan = .ok next) :
    Assembled storage dimension (points ++ [point]) next := by
  obtain ⟨added, adds, inserts⟩ := Checked.of_bind_ok inserts
  have more := assembled.addNode ready adds
  have isNode : index.nodes.length < added.nodes.length := by
    rw [more.counted, List.length_append, assembled.counted]
    exact Nat.lt_succ_self _
  simp only at inserts
  split at inserts
  · cases inserts
    exact { more with entered := fun entry isEntry => Option.some.inj isEntry ▸ isNode }
  obtain ⟨linked, links, inserts⟩ := Checked.of_bind_ok inserts
  have kept := Checked.foldlM_keeps links (fun item _ state next kept links => kept.linkLayer links)
    more
  split at inserts
  · cases inserts
    refine { kept with entered := fun entry isEntry => Option.some.inj isEntry ▸ ?_ }
    rw [kept.counted, ← more.counted]
    exact isNode
  · cases inserts
    exact kept

end

/-! ## Builds -/

theorem insertAlone {point : PreparedPoint} (assembled : Assembled storage dimension points index)
    (ready : point.Ready storage dimension) (inserts : index.insertAlone arith point = .ok next) :
    Assembled storage dimension (points ++ [point]) next := by
  obtain ⟨⟨inserted, workspace⟩, inserts, returns⟩ := Checked.of_bind_ok inserts
  cases returns
  unfold insertPrepared at inserts
  split at inserts
  · obtain ⟨applied, applies, returns⟩ := Checked.of_bind_ok inserts
    cases returns
    exact assembled.applyInsertion ready applies
  · obtain ⟨⟨plan, others⟩, -, inserts⟩ := Checked.of_bind_ok inserts
    obtain ⟨applied, applies, returns⟩ := Checked.of_bind_ok inserts
    cases returns
    exact assembled.applyInsertion ready applies

theorem insertPlanned {batch : List PreparedPoint} (assembled : Assembled storage dimension points index)
    (ready : ∀ point ∈ batch, point.Ready storage dimension)
    (inserts : index.insertPlanned arith batch = .ok next) :
    Assembled storage dimension (points ++ batch) next := by
  obtain ⟨plans, planned, inserts⟩ := Checked.of_bind_ok inserts
  have sameLength : batch.length ≤ (plans.map some).length := by
    rw [List.length_map, (Checked.of_mapM planned).length_eq]
  have gathered := @Checked.foldlM_gathers _ _ _ _ _ _
    (fun pair : PreparedPoint × Option InsertionPlan => [pair.1]) (Assembled storage dimension) _ _ _
    inserts (fun pair member points index next assembled applies => by
      obtain ⟨plan, -, applies⟩ := Checked.of_bind_ok applies
      exact assembled.applyInsertion (ready pair.1 (List.of_mem_zip member).1) applies) assembled
  rwa [← List.map_eq_flatMap, List.map_fst_zip sameLength] at gathered

theorem insertInOrder {prepared : List PreparedPoint}
    (ready : ∀ point ∈ prepared, point.Ready storage dimension)
    (assembled : Assembled storage dimension [] index)
    (inserts : index.insertInOrder arith prepared = .ok next) :
    Assembled storage dimension prepared next := by
  obtain ⟨middle, seeds, inserts⟩ := Checked.of_bind_ok inserts
  have seeded := @Checked.foldlM_gathers _ _ _ _ _ _ (fun point : PreparedPoint => [point])
    (Assembled storage dimension) _ _ _ seeds (fun point member points index next assembled inserts =>
      assembled.insertAlone (ready point (List.mem_of_mem_take member)) inserts) assembled
  have whole := @Checked.foldlM_gathers _ _ _ _ _ _ (fun batch : List PreparedPoint => batch)
    (Assembled storage dimension) _ _ _ inserts (fun batch member points index next assembled inserts =>
      assembled.insertPlanned (fun point isPoint => ready point ?_) inserts) seeded
  · rwa [List.flatMap_id', flatten_chunks (by decide), ← List.map_eq_flatMap, List.map_id',
      List.nil_append, List.take_append_drop] at whole
  · have isMember := List.mem_flatten.mpr ⟨batch, member, isPoint⟩
    rw [flatten_chunks (by decide)] at isMember
    exact List.mem_of_mem_drop isMember

theorem compactNeighbors (assembled : Assembled storage dimension points index)
    (compacts : index.compactNeighbors arith = .ok next) : Assembled storage dimension points next := by
  refine Checked.foldlM_keeps compacts (fun node _ state next kept compacts => ?_) assembled
  obtain ⟨stored, -, compacts⟩ := Checked.of_bind_ok compacts
  exact Checked.foldlM_keeps compacts (fun layer _ state next kept prunes => kept.prune prunes) kept

theorem withCapacity {metric : Metric} {config : HnswConfig} {capacity : Nat}
    (creates : HnswIndex.withCapacity dimension metric config storage capacity = .ok index) :
    Assembled storage dimension [] index ∧ capacity * dimension < 2 ^ 64 := by
  obtain ⟨_, -, creates⟩ := Checked.of_bind_ok creates
  obtain ⟨_, -, creates⟩ := Checked.of_bind_ok creates
  obtain ⟨vectors, room, creates⟩ := Checked.of_bind_ok creates
  obtain ⟨_, -, creates⟩ := Checked.of_bind_ok creates
  cases creates
  have fits : ∀ {size}, 0 < size →
      (Checked.capacity (saturatingMul capacity dimension) size : Checking Unit) = .ok () →
      capacity * dimension < 2 ^ 64 := by
    intro size positive granted
    unfold Checked.capacity at granted
    split at granted
    next small =>
      have smaller := (Nat.le_mul_of_pos_right _ positive).trans_lt small
      unfold saturatingMul usizeMax at smaller
      omega
    next => cases granted
  obtain ⟨kind, owned, stored, bounded⟩ : vectors.storage = storage ∧ vectors.isMapped = false ∧
      vectors.Holds dimension [] ∧ capacity * dimension < 2 ^ 64 := by
    cases storage with
    | f32 =>
      obtain ⟨_, granted, room⟩ := Checked.of_bind_ok room
      cases room
      exact ⟨rfl, rfl, @VectorArena.Holds.f32 dimension [] (by simp), fits (by decide) granted⟩
    | scalarInt8 =>
      obtain ⟨_, granted, room⟩ := Checked.of_bind_ok room
      obtain ⟨_, -, room⟩ := Checked.of_bind_ok room
      obtain ⟨_, -, room⟩ := Checked.of_bind_ok room
      cases room
      exact ⟨rfl, rfl, @VectorArena.Holds.scalarInt8 dimension [] (by simp), fits (by decide) granted⟩
  exact ⟨⟨rfl, rfl, kind, owned, rfl, rfl, stored, by simp [Layered], by simp, by simp⟩, bounded⟩

end Assembled

end HnswIndex

section Builders

variable {arith : HnswArithmetic} {workers dimension : Nat} {metric : Metric} {config : HnswConfig}
  {storage : HnswVectorStorage} {index : HnswIndex}

theorem searchable_of_build (worker : 1 ≤ workers) {prepared : List PreparedPoint}
    (ready : ∀ point ∈ prepared, point.Ready storage dimension)
    (distinct : (prepared.map PreparedPoint.id).Nodup)
    (builds : buildPreparedPoints arith workers dimension metric config storage prepared = .ok index) :
    index.Searchable ∧ index.ids = prepared.map PreparedPoint.id := by
  obtain ⟨empty, creates, builds⟩ := Checked.of_bind_ok builds
  obtain ⟨inserted, inserts, builds⟩ := Checked.of_bind_ok builds
  obtain ⟨pruned, compacts, finishes⟩ := Checked.of_bind_ok builds
  have workspaces : List.replicate workers BuildWorkspace.new ≠ [] := by
    rw [Ne, List.replicate_eq_nil_iff]
    omega
  rw [empty.insertAll_insertInOrder arith prepared .new workspaces] at inserts
  obtain ⟨start, bounded⟩ := HnswIndex.Assembled.withCapacity creates
  have assembled := (start.insertInOrder ready inserts).compactNeighbors compacts
  have named : pruned.ids.length = pruned.nodes.length := by
    rw [assembled.named, assembled.counted, List.length_map]
  refine ⟨.of_compaction assembled.building finishes assembled.layered assembled.linked named
    (assembled.named ▸ distinct) ⟨_, ?_, assembled.sized ▸ assembled.stored⟩ ?_ assembled.entered, ?_⟩
  · rw [List.length_map, assembled.counted]
  · rw [assembled.counted, assembled.sized]
    exact bounded
  · obtain ⟨-, -, rfl⟩ := HnswIndex.finalizeCompactGraph_eq_ok assembled.building finishes
    exact assembled.named

theorem nodup_of_checkIds {ids seen next : List String} (checks : ids.foldlM checkId seen = .ok next) :
    ids.Nodup ∧ ∀ id ∈ ids, id ∉ seen := by
  induction ids generalizing seen with
  | nil => simp
  | cons id rest ih =>
    rw [List.foldlM_cons] at checks
    obtain ⟨middle, first, later⟩ := Result.of_bind_ok checks
    unfold checkId at first
    split at first
    · cases first
    split at first
    · cases first
    next fresh =>
      cases first
      obtain ⟨distinct, others⟩ := ih later
      refine ⟨List.nodup_cons.mpr ⟨fun again => others id again List.mem_cons_self, distinct⟩,
        List.forall_mem_cons.mpr ⟨fresh, fun other member seenBefore => ?_⟩⟩
      exact others other member (List.mem_cons_of_mem _ seenBefore)

theorem ready_of_preparePoint {given : String × List F32} {point : PreparedPoint}
    (prepares : preparePoint arith dimension metric config storage given = .ok point) :
    point.id = given.1 ∧ point.Ready storage dimension := by
  unfold preparePoint at prepares
  split at prepares
  · cases prepares
  next sized =>
    obtain ⟨vector, prepared, isPoint⟩ := Result.of_bind_ok prepares
    cases isPoint
    have fits := @fits_new arith vector storage
    rw [Metric.prepare_length prepared, not_not.mp sized] at fits
    exact ⟨rfl, fits, deterministicLevel_le _ _⟩

variable {points : List (String × List F32)}

theorem checkIds_of_checkPrepared {seen next : List String}
    (checks : points.foldlM (checkPrepared dimension) seen = .ok next) :
    (points.map Prod.fst).foldlM checkId seen = .ok next ∧
      ∀ point ∈ points, point.2.length = dimension := by
  induction points generalizing seen with
  | nil => exact ⟨checks, by simp⟩
  | cons point rest ih =>
    rw [List.foldlM_cons] at checks
    obtain ⟨middle, first, later⟩ := Result.of_bind_ok checks
    obtain ⟨checked, passes, first⟩ := Result.of_bind_ok first
    split at first
    · cases first
    next sized =>
    split at first
    · cases first
    cases first
    obtain ⟨others, sizes⟩ := ih later
    refine ⟨?_, List.forall_mem_cons.mpr ⟨not_not.mp sized, sizes⟩⟩
    rw [List.map_cons, List.foldlM_cons, passes]
    exact others

variable (arith workers dimension metric config points index) in
/-- One of the builders has returned the graph. -/
inductive Built : Prop where
  | ofVectors (storage : HnswVectorStorage)
      (builds : buildWithStorage arith workers dimension metric config storage points = .ok index)
  | ofPrepared
      (builds : buildQuantizedPrepared arith workers dimension metric config points = .ok index)

theorem Built.searchable (worker : 1 ≤ workers)
    (built : Built arith workers dimension metric config index points) :
    index.Searchable ∧ index.ids = points.map Prod.fst := by
  have of_ofResult : ∀ {α : Type} {result : Result α} {value : α},
      (Checked.ofResult result : Checking α) = .ok value → result = .ok value := by
    intro α result value returns
    cases result <;> cases returns
    rfl
  cases built with
  | ofVectors storage builds =>
    obtain ⟨_, -, builds⟩ := Checked.of_bind_ok builds
    obtain ⟨seen, checks, builds⟩ := Checked.of_bind_ok builds
    obtain ⟨prepared, prepares, builds⟩ := Checked.of_bind_ok builds
    have all := Checked.of_mapM (of_ofResult prepares)
    have named : prepared.map PreparedPoint.id = points.map Prod.fst := by
      rw [eq_comm, ← List.forall₂_eq_eq_eq, List.forall₂_map_left_iff, List.forall₂_map_right_iff]
      exact all.imp fun _ _ prepares => (ready_of_preparePoint prepares).1.symm
    rw [← named]
    refine searchable_of_build worker (fun point member => ?_) ?_ builds
    · obtain ⟨given, -, prepares⟩ := Checked.exists_of_forall₂ all point member
      exact (ready_of_preparePoint prepares).2
    · rw [named]
      exact (nodup_of_checkIds (of_ofResult checks)).1
  | ofPrepared builds =>
    obtain ⟨_, -, builds⟩ := Checked.of_bind_ok builds
    obtain ⟨seen, checks, builds⟩ := Checked.of_bind_ok builds
    obtain ⟨checks, sizes⟩ := checkIds_of_checkPrepared (of_ofResult checks)
    have named : (points.map fun point => (⟨point.1, .scalarInt8 (.new arith point.2),
        deterministicLevel point.1 config.m⟩ : PreparedPoint)).map PreparedPoint.id =
          points.map Prod.fst := List.map_map ..
    rw [← named]
    refine searchable_of_build worker (fun point member => ?_) ?_ builds
    · obtain ⟨given, isGiven, rfl⟩ := List.mem_map.mp member
      have fits := @fits_new arith given.2 .scalarInt8
      rw [sizes given isGiven] at fits
      exact ⟨fits, deterministicLevel_le _ _⟩
    · rw [named]
      exact (nodup_of_checkIds checks).1

/-- The nodes that a search of the lowest layer can come to. -/
def HnswIndex.reached (arith : HnswArithmetic) (index : HnswIndex) (query : PreparedVector) : Set Nat :=
  {node | ∃ entry final, index.entryPoint = some entry ∧
    index.descend arith query 0 index.maxLevel entry = .ok final ∧
    Reaches (index.linksAt 0) final node}

/-- A search of a graph that was built does not panic. It returns as many different points of the
build as it is asked for, or as many as the links lead to from where its descent ends. -/
theorem built_graph_search (worker : 1 ≤ workers)
    (built : Built arith workers dimension metric config index points) {vector prepared : List F32}
    {k ef : Nat} (sized : vector.length = index.dimension)
    (prepares : index.metric.prepare arith.toFloatArithmetic vector = .ok prepared)
    (positive : 0 < k) (wide : k ≤ ef) :
    let reached := index.reached arith (.new arith prepared index.vectorStorage)
    ∃ hits, (∀ pool, ∃ after, index.search arith pool vector k ef = .ok (hits, after)) ∧
      (hits.map HnswHit.id).Nodup ∧ (∀ hit ∈ hits, hit.id ∈ points.map Prod.fst) ∧
      reached ⊆ Set.Iio points.length ∧ hits.length = min k reached.ncard := by
  intro reached
  obtain ⟨searchable, named⟩ := built.searchable worker
  have counted : index.nodes.length = points.length := by
    rw [← searchable.named, named, List.length_map]
  cases entered : index.entryPoint with
  | none =>
    have nothing : reached = ∅ := by
      ext node
      simp [reached, HnswIndex.reached, entered]
    refine ⟨[], fun pool => ⟨pool, ?_⟩, List.nodup_nil, by simp, by simp [nothing], by simp [nothing]⟩
    unfold HnswIndex.search
    simp only [prepares, entered]
    rw [if_neg (by omega), if_neg (by omega), if_neg (by omega)]
    rfl
  | some entry =>
    obtain ⟨final, hits, descends, inside, distinct, own, count, searches⟩ :=
      searchable.search_returns entered sized prepares positive wide
    have isReached : reached = {node | Reaches (index.linksAt 0) final node} := by
      ext node
      simp [reached, HnswIndex.reached, entered, descends]
    refine ⟨hits, searches, distinct, named ▸ own, fun node member => ?_, isReached ▸ count⟩
    rw [isReached] at member
    exact counted ▸ searchable.reaches_inside inside member

end Builders

/-- Two points that two workers build are searched for. -/
theorem two_built_points_searched :
    ∃ index, build .unit 2 1 .dotProduct .default [("a", [⟨0⟩]), ("b", [⟨0x3f800000⟩])] = .ok index ∧
      ∃ hits, (∀ pool, ∃ after, index.search .unit pool [⟨0x3f800000⟩] 2 2 = .ok (hits, after)) ∧
        (hits.map HnswHit.id).Nodup := by
  refine ⟨_, rfl, ?_⟩
  have prepares : Metric.prepare HnswArithmetic.unit.toFloatArithmetic .dotProduct [⟨0x3f800000⟩] =
    .ok [⟨0x3f800000⟩] := rfl
  obtain ⟨hits, searches, distinct, -⟩ := @built_graph_search .unit 2 1 .dotProduct .default _
    [("a", [⟨0⟩]), ("b", [⟨0x3f800000⟩])] (by decide) (.ofVectors .f32 rfl) [⟨0x3f800000⟩] _ 2 2
    rfl prepares (by decide) (by decide)
  exact ⟨hits, searches, distinct⟩

end FocalVector.Hnsw
