import FocalVector.Hnsw.Build
import Mathlib.Data.Finset.Max

/-!
Contract: choosing the links of a node.

Candidates are gone through from the best to the worst. One that is closer to the node than
to all candidates kept so far is kept, until there are enough; the others fill what is left
in their order. Pruning a list chooses among its own links.

Owns: `Progress`, `Selects`, what a selection and a pruned list consist of, and the limits
for which there is memory to select.

Does not own: where the candidates of a new node come from.
-/

namespace FocalVector.Hnsw

open FocalVector.Foundation FocalVector.Engine

namespace HnswIndex

def lists (index : HnswIndex) (node layer : Nat) : Option (List Nat) :=
  (index.nodes[node]?).bind (·.neighbors[layer]?)

/-- How close one node is to another, as data. -/
def similarity (arith : HnswArithmetic) (index : HnswIndex) (node other : Nat) : F32 :=
  ((do index.score arith (← index.vector node) other : Checking F32).toOption).getD ⟨0⟩

/-- The candidate is closer to its node than to the other one. -/
def Closer (arith : HnswArithmetic) (index : HnswIndex) (candidate other : HeapItem) : Prop :=
  F32.lt (index.similarity arith candidate.index other.index) candidate.score

variable {arith : HnswArithmetic} {index : HnswIndex} {node layer limit : Nat}
  {links : List Nat} {candidate : HeapItem} {kept rejected candidates : List HeapItem}

/-! ## Scores -/

theorem similarity_eq (searchable : Searchable index) (arith : HnswArithmetic) {other : Nat}
    (inside : node < index.nodes.length) (otherInside : other < index.nodes.length) :
    ∃ left right, index.vector node = .ok left ∧ index.vector other = .ok right ∧
      scoreVectors arith index.metric left right = .ok (index.similarity arith node other) := by
  obtain ⟨left, isLeft, leftFits⟩ := searchable.vector_returns inside
  obtain ⟨right, isRight, rightFits⟩ := searchable.vector_returns otherInside
  obtain ⟨score, scored⟩ := scoreVectors_returns arith index.metric leftFits rightFits
  refine ⟨left, right, isLeft, isRight, ?_⟩
  have whole : (do index.score arith (← index.vector node) other : Checking F32) = .ok score := by
    rw [Checked.bind_ok isLeft, HnswIndex.score, Checked.bind_ok isRight, scored]
  rw [similarity, whole, scored]
  rfl

theorem diverse_returns (searchable : Searchable index) (arith : HnswArithmetic)
    (inside : candidate.index < index.nodes.length)
    (keptInside : ∀ item ∈ kept, item.index < index.nodes.length) :
    ∃ isDiverse, index.diverse arith candidate kept = .ok isDiverse ∧
      (isDiverse = true ↔ ∀ other ∈ kept, index.Closer arith candidate other) := by
  induction kept with
  | nil => exact ⟨true, rfl, iff_of_true rfl nofun⟩
  | cons other rest ih =>
    rw [List.forall_mem_cons] at keptInside
    obtain ⟨left, right, isLeft, isRight, scored⟩ :=
      similarity_eq searchable arith inside keptInside.1
    obtain ⟨isDiverse, returns, later⟩ := ih keptInside.2
    unfold diverse
    rw [Checked.bind_ok isLeft, Checked.bind_ok isRight, Checked.bind_ok scored]
    split
    next closer =>
      exact ⟨isDiverse, returns, later.trans (by simp [Closer, closer])⟩
    next notCloser =>
      exact ⟨false, rfl, iff_of_false Bool.false_ne_true fun isDiverse =>
        notCloser (isDiverse other List.mem_cons_self)⟩

/-! ## The loop -/

variable (arith index) in
/-- What was kept and rejected of the candidates gone through so far. -/
structure Progress (processed kept rejected : List HeapItem) : Prop where
  sublist : kept.Sublist processed
  rest : rejected = processed.filter (· ∉ kept)
  counted : kept.length + rejected.length = processed.length
  diverse : ∀ before candidate after, processed = before ++ candidate :: after →
    (candidate ∈ kept ↔ ∀ other ∈ before, other ∈ kept → index.Closer arith candidate other)

namespace Progress

variable {processed : List HeapItem}

theorem nil : Progress arith index [] [] [] :=
  ⟨.slnil, rfl, rfl, fun _ _ _ empty => by simp at empty⟩

section

variable (progress : Progress arith index processed kept rejected) (fresh : candidate ∉ processed)

include progress fresh

/-- Which candidates are kept is as before when another one has been gone through, and the
new one is kept when it is closer to the node than to all that were kept. -/
theorem concat (next : List HeapItem)
    (isNext : ∀ item, item ∈ next ↔ item ∈ kept ∨
      item = candidate ∧ ∀ other ∈ kept, index.Closer arith candidate other) :
    (∀ before item after, processed ++ [candidate] = before ++ item :: after →
      (item ∈ next ↔ ∀ other ∈ before, other ∈ next → index.Closer arith item other)) ∧
    processed.filter (· ∉ next) = rejected := by
  have old : ∀ item ∈ processed, item ∈ next ↔ item ∈ kept := fun item member => by
    rw [isNext, or_iff_left]
    rintro ⟨rfl, -⟩
    exact fresh member
  constructor
  · intro before item after parts
    rcases List.eq_nil_or_concat after with rfl | ⟨after, last, rfl⟩
    · obtain ⟨rfl, same⟩ := List.append_inj' parts rfl
      obtain rfl := List.singleton_inj.mp same
      have notKept : candidate ∉ kept := fun member => fresh (progress.sublist.subset member)
      rw [isNext, or_iff_right notKept, and_iff_right rfl]
      exact ⟨fun closer other before isNext => closer other ((old other before).mp isNext),
        fun closer other isKept => closer other (progress.sublist.subset isKept)
          ((old other (progress.sublist.subset isKept)).mpr isKept)⟩
    · rw [List.concat_eq_append, ← List.cons_append, ← List.append_assoc] at parts
      obtain ⟨rfl, -⟩ := List.append_inj' parts rfl
      rw [old item (by simp), progress.diverse before item after rfl]
      refine forall₂_congr fun other member => ?_
      rw [old other (List.mem_append_left _ member)]
  · rw [progress.rest]
    refine List.filter_congr fun item member => ?_
    simp only [old item member]

theorem keep (closer : ∀ other ∈ kept, index.Closer arith candidate other) :
    Progress arith index (processed ++ [candidate]) (kept ++ [candidate]) rejected := by
  obtain ⟨diverse, rest⟩ := progress.concat fresh (kept ++ [candidate]) fun item => by
    rw [List.mem_append, List.mem_singleton, and_iff_left closer]
  refine ⟨progress.sublist.append (.refl _), ?_, ?_, diverse⟩
  · rw [List.filter_append, rest]
    simp
  · rw [List.length_append, List.length_append, ← progress.counted]
    omega

theorem reject (notCloser : ¬ ∀ other ∈ kept, index.Closer arith candidate other) :
    Progress arith index (processed ++ [candidate]) kept (rejected ++ [candidate]) := by
  obtain ⟨diverse, rest⟩ := progress.concat fresh kept fun item =>
    (or_iff_left fun new => notCloser new.2).symm
  refine ⟨progress.sublist.trans (List.sublist_append_left _ _), ?_, ?_, diverse⟩
  · have notKept : candidate ∉ kept := fun member => fresh (progress.sublist.subset member)
    rw [List.filter_append, rest]
    simp [notKept]
  · rw [List.length_append, List.length_append, ← progress.counted]
    omega

end

end Progress

theorem selectLoop_returns (searchable : Searchable index) (arith : HnswArithmetic)
    (processed : List HeapItem) (distinct : (processed ++ candidates).Nodup)
    (inside : ∀ item ∈ processed ++ candidates, item.index < index.nodes.length)
    (progress : Progress arith index processed kept rejected) (few : kept.length ≤ limit) :
    ∃ considered ignored chosen others, index.selectLoop arith limit kept rejected candidates =
        .ok (chosen, others) ∧ candidates = considered ++ ignored ∧
      Progress arith index (processed ++ considered) chosen others ∧ chosen.length ≤ limit ∧
      (ignored ≠ [] → chosen.length = limit) := by
  induction candidates generalizing processed kept rejected with
  | nil => exact ⟨[], [], kept, rejected, rfl, rfl, by rwa [List.append_nil], few, by simp⟩
  | cons candidate rest ih =>
    unfold selectLoop
    split
    next full =>
      exact ⟨[], candidate :: rest, kept, rejected, rfl, rfl, by rwa [List.append_nil], few,
        fun _ => full⟩
    next room =>
      rw [List.append_cons] at distinct inside
      have fresh : candidate ∉ processed := by
        have before := (List.nodup_append.mp distinct).1
        exact fun member => (List.nodup_append.mp before).2.2 _ member _
          List.mem_cons_self rfl
      obtain ⟨isDiverse, checks, closer⟩ := diverse_returns searchable arith
        (inside candidate (by simp)) fun item member =>
          inside item (by simp [progress.sublist.subset member])
      rw [Checked.bind_ok checks]
      cases isDiverse with
      | true =>
        obtain ⟨considered, ignored, chosen, others, returns, rfl, progressed, fewChosen, full⟩ :=
          ih _ distinct inside (progress.keep fresh (closer.mp rfl))
            (by rw [List.length_append, List.length_singleton]; omega)
        refine ⟨candidate :: considered, ignored, chosen, others, returns, rfl, ?_, fewChosen, full⟩
        rw [List.append_cons]
        exact progressed
      | false =>
        obtain ⟨considered, ignored, chosen, others, returns, rfl, progressed, fewChosen, full⟩ :=
          ih _ distinct inside
            (progress.reject fresh fun all => Bool.false_ne_true (closer.mpr all)) few
        refine ⟨candidate :: considered, ignored, chosen, others, returns, rfl, ?_, fewChosen, full⟩
        rw [List.append_cons]
        exact progressed

/-! ## Selections -/

variable (arith index) in
/-- As many of the candidates as there may be, the best one first. The candidates gone through
are followed by others only when enough are kept, and those kept come before the rejected ones
that fill what is left. -/
structure Selects (limit : Nat) (candidates selected : List HeapItem) : Prop where
  counted : selected.length = min limit candidates.length
  distinct : selected.Nodup
  chosen : selected ⊆ candidates
  first : selected.head? = candidates.head?
  diverse : ∃ considered ignored kept, candidates = considered ++ ignored ∧
    (ignored ≠ [] → kept.length = limit) ∧ kept.length ≤ limit ∧ kept.Sublist considered ∧
    (∀ before candidate after, considered = before ++ candidate :: after →
      (candidate ∈ kept ↔ ∀ other ∈ before, other ∈ kept → index.Closer arith candidate other)) ∧
    selected = kept ++ (considered.filter (· ∉ kept)).take (limit - kept.length)

theorem Progress.head (progress : Progress arith index candidates kept rejected)
    (distinct : candidates.Nodup) : kept.head? = candidates.head? := by
  cases candidates with
  | nil => rw [List.sublist_nil.mp progress.sublist]
  | cons first rest =>
    have isKept : first ∈ kept := (progress.diverse [] first rest rfl).mpr nofun
    cases progress.sublist with
    | cons _ within => exact absurd (within.subset isKept) (List.nodup_cons.mp distinct).1
    | cons_cons _ _ => rfl

theorem selectNeighbors_selects (searchable : Searchable index) (arith : HnswArithmetic)
    (distinct : candidates.Nodup) (inside : ∀ item ∈ candidates, item.index < index.nodes.length)
    (positive : 1 ≤ limit) (room : limit * 16 < 2 ^ 63) :
    ∃ selected, index.selectNeighbors arith candidates limit = .ok selected ∧
      Selects arith index limit candidates selected := by
  obtain ⟨considered, ignored, kept, rejected, returns, rfl, progress, few, full⟩ :=
    selectLoop_returns searchable arith [] distinct inside .nil (Nat.zero_le limit)
  refine ⟨kept ++ rejected.take (limit - kept.length), ?_, ?_⟩
  · unfold selectNeighbors
    rw [Checked.bind_ok (Checked.capacity_of_lt room), Checked.bind_ok returns]
    rfl
  · rw [List.nil_append] at progress
    have isRest := progress.rest
    have counted := progress.counted
    have someConsidered : ignored ≠ [] → considered ≠ [] := by
      rintro more rfl
      have none := progress.sublist.length_le
      have all := full more
      rw [List.length_nil] at none
      omega
    refine ⟨?_, ?_, ?_, ?_, considered, ignored, kept, rfl, full, few, progress.sublist,
      progress.diverse, by rw [isRest]⟩
    · rw [List.length_append, List.length_take, List.length_append]
      by_cases more : ignored = []
      · rw [more, List.length_nil]
        omega
      · have all := full more
        omega
    · have considers := (List.nodup_append.mp distinct).1
      refine List.nodup_append.mpr ⟨considers.sublist progress.sublist, ?_, ?_⟩
      · rw [isRest]
        exact (considers.filter _).sublist (List.take_sublist _ _)
      · rintro item isKept _ isRejected rfl
        have member := List.mem_of_mem_take isRejected
        rw [isRest, List.mem_filter, decide_eq_true_iff] at member
        exact member.2 isKept
    · refine List.append_subset.mpr ⟨fun item isKept => ?_, fun item isRejected => ?_⟩
      · exact List.mem_append_left _ (progress.sublist.subset isKept)
      · have member := List.mem_of_mem_take isRejected
        rw [isRest, List.mem_filter] at member
        exact List.mem_append_left _ member.1
    · rw [List.head?_append, progress.head (List.nodup_append.mp distinct).1, List.head?_append]
      cases considered with
      | nil =>
        have nothing : ignored = [] := not_not.mp fun more => someConsidered more rfl
        rw [isRest, nothing, List.filter_nil, List.take_nil]
      | cons first rest => rfl

/-! ## Pruning -/

theorem listAt_eq_ok : index.listAt node layer = .ok links ↔ index.lists node layer = some links := by
  unfold listAt lists
  cases found : index.nodes[node]? with
  | none =>
    rw [Checked.get, found]
    simp only [Option.bind_none, reduceCtorEq, iff_false]
    intro returns
    cases returns
  | some stored =>
    rw [Checked.bind_ok (Checked.get_of_getElem? found), Option.bind_some]
    exact Checked.get_eq_ok

theorem setLinks_lists (isList : index.lists node layer = some links) :
    index.setLinks node layer links = index := by
  have same : index.nodes.modify node (fun stored =>
      { stored with neighbors := stored.neighbors.set layer links }) = index.nodes := by
    refine List.ext_getElem? fun position => ?_
    rw [List.getElem?_modify]
    unfold lists at isList
    by_cases here : node = position
    · subst here
      cases found : index.nodes[node]? with
      | none => rfl
      | some stored =>
        rw [found, Option.bind_some] at isList
        obtain ⟨inside, isLinks⟩ := List.getElem?_eq_some_iff.mp isList
        have kept : stored.neighbors.set layer links = stored.neighbors := by
          rw [← isLinks, List.set_getElem_self]
        simp [kept]
    · simp [here]
  unfold setLinks
  rw [same]

variable (arith index) in
/-- The place of a link among those of its node: the closer one first, then the smaller id. -/
def linkRank (node link : Nat) : Int ×ₗ String :=
  index.idRank ⟨link, index.similarity arith node link⟩

variable (arith index) in
/-- Some of the links, no more than there may be, among them the closest one. -/
structure Keeps (node layer : Nat) (links kept : List Nat) : Prop where
  distinct : kept.Nodup
  chosen : kept ⊆ links
  few : kept.length ≤ maxConnections index.config layer
  short : links.length ≤ maxConnections index.config layer → kept = links
  closest : links ≠ [] → ∃ link ∈ kept, ∀ other ∈ links,
    index.linkRank arith node link ≤ index.linkRank arith node other

theorem links_items (searchable : Searchable index) (arith : HnswArithmetic)
    (inside : node < index.nodes.length) (linkInside : ∀ link ∈ links, link < index.nodes.length) :
    links.mapM (index.linkItem arith node) =
      .ok (links.map fun link => ⟨link, index.similarity arith node link⟩) := by
  refine Checked.mapM_of_forall fun link member => ?_
  obtain ⟨left, right, isLeft, isRight, scored⟩ :=
    similarity_eq searchable arith inside (linkInside link member)
  unfold linkItem
  rw [Checked.bind_ok isLeft, Checked.bind_ok isRight, Checked.bind_ok scored]
  rfl

theorem inside_of_lists (isList : index.lists node layer = some links) :
    node < index.nodes.length := by
  unfold lists at isList
  cases found : index.nodes[node]? with
  | none =>
    rw [found] at isList
    cases isList
  | some stored => exact (List.getElem?_eq_some_iff.mp found).1

theorem Keeps.of_short (distinct : links.Nodup)
    (short : links.length ≤ maxConnections index.config layer) :
    Keeps arith index node layer links links where
  distinct := distinct
  chosen := List.Subset.refl links
  few := short
  short _ := rfl
  closest some := by
    obtain ⟨link, isLink, first⟩ := links.toFinset.exists_min_image
      (index.linkRank arith node) (List.toFinset_nonempty_iff links |>.mpr some)
    exact ⟨link, List.mem_toFinset.mp isLink, fun other member =>
      first other (List.mem_toFinset.mpr member)⟩

theorem prune_returns (searchable : Searchable index) (arith : HnswArithmetic)
    (isList : index.lists node layer = some links) (distinct : links.Nodup)
    (inside : ∀ link ∈ links, link < index.nodes.length ∧ link < 2 ^ 32)
    (positive : 1 ≤ maxConnections index.config layer)
    (room : maxConnections index.config layer < links.length →
      maxConnections index.config layer * 16 < 2 ^ 63) :
    ∃ kept, index.prune arith node layer = .ok (index.setLinks node layer kept) ∧
      Keeps arith index node layer links kept := by
  unfold prune
  rw [Checked.bind_ok (listAt_eq_ok.mpr isList)]
  simp only
  split
  next short =>
    refine ⟨links, ?_, .of_short distinct short⟩
    rw [setLinks_lists isList]
    rfl
  next long =>
    rw [Checked.bind_ok (links_items searchable arith (inside_of_lists isList)
      fun link member => (inside link member).1)]
    have itemsInside : ∀ item ∈ links.map fun link =>
        (⟨link, index.similarity arith node link⟩ : HeapItem),
        item.index < index.nodes.length ∧ item.index < 2 ^ 32 := by
      intro item member
      obtain ⟨link, isLink, rfl⟩ := List.mem_map.mp member
      exact inside link isLink
    obtain ⟨sorted, sorts, same, ordered⟩ := searchable.sortItems_returns fun item member =>
      (itemsInside item member).1
    have distinctItems : sorted.Nodup := by
      refine same.nodup_iff.mpr (distinct.map fun left right equal => ?_)
      exact congrArg HeapItem.index equal
    obtain ⟨selected, selects, selection⟩ := selectNeighbors_selects searchable arith
      distinctItems (fun item member => (itemsInside item (same.mem_iff.mp member)).1) positive
      (room (not_le.mp long))
    have isLink : ∀ item ∈ selected, item ∈ links.map fun link =>
        (⟨link, index.similarity arith node link⟩ : HeapItem) := fun item member =>
      same.mem_iff.mp (selection.chosen member)
    have plain : selected.map (·.index % 2 ^ 32) = selected.map HeapItem.index :=
      List.map_congr_left fun item member =>
        Nat.mod_eq_of_lt (itemsInside item (isLink item member)).2
    refine ⟨selected.map HeapItem.index, ?_, ?_, ?_, ?_, fun short => absurd short long, ?_⟩
    · rw [Checked.bind_ok sorts, Checked.bind_ok selects, plain]
      rfl
    · refine List.Nodup.map_on (fun left isLeft right isRight equal => ?_) selection.distinct
      obtain ⟨_, _, rfl⟩ := List.mem_map.mp (isLink left isLeft)
      obtain ⟨_, _, rfl⟩ := List.mem_map.mp (isLink right isRight)
      simp only at equal
      rw [equal]
    · intro link member
      obtain ⟨item, isItem, rfl⟩ := List.mem_map.mp member
      obtain ⟨_, isLink, rfl⟩ := List.mem_map.mp (isLink item isItem)
      exact isLink
    · rw [List.length_map, selection.counted]
      exact min_le_left _ _
    · intro some
      cases sorted with
      | nil => exact absurd (List.map_eq_nil_iff.mp (List.nil_perm.mp same)) some
      | cons first rest =>
        have isFirst : first ∈ selected := List.mem_of_head? selection.first
        obtain ⟨link, -, rfl⟩ := List.mem_map.mp (isLink _ isFirst)
        refine ⟨link, List.mem_map_of_mem isFirst, fun other member => ?_⟩
        have isOther := same.mem_iff.mpr (List.mem_map_of_mem member)
        rcases List.mem_cons.mp isOther with equal | later
        · exact (congrArg index.idRank equal).ge
        · exact (List.pairwise_cons.mp ordered).1 _ later

theorem selectNeighbors_panics (large : ¬ limit * 16 < 2 ^ 63) :
    index.selectNeighbors arith candidates limit = .error (.panic .capacity) := by
  unfold selectNeighbors Checked.capacity
  rw [if_neg large]
  rfl

/-- A selection neither loses nor invents candidates, and a pruned list keeps no more links
than it may have, among them the closest one, as long as memory for the limit can be had. -/
theorem selection_sound_iff (searchable : Searchable index) (arith : HnswArithmetic) :
    (∀ candidates limit, candidates.Nodup → (∀ item ∈ candidates, item.index < index.nodes.length) →
      1 ≤ limit →
      ((∃ selected, index.selectNeighbors arith candidates limit = .ok selected ∧
        Selects arith index limit candidates selected) ↔ limit * 16 < 2 ^ 63)) ∧
    ∀ node layer links, index.lists node layer = some links → links.Nodup →
      (∀ link ∈ links, link < index.nodes.length ∧ link < 2 ^ 32) →
      1 ≤ maxConnections index.config layer →
      ((∃ kept, index.prune arith node layer = .ok (index.setLinks node layer kept) ∧
        Keeps arith index node layer links kept) ↔
        (maxConnections index.config layer < links.length →
          maxConnections index.config layer * 16 < 2 ^ 63)) := by
  constructor
  · intro candidates limit distinct inside positive
    refine ⟨?_, selectNeighbors_selects searchable arith distinct inside positive⟩
    rintro ⟨selected, selects, -⟩
    by_contra large
    rw [selectNeighbors_panics large] at selects
    cases selects
  · intro node layer links isList distinct inside positive
    refine ⟨?_, prune_returns searchable arith isList distinct inside positive⟩
    rintro ⟨kept, prunes, -⟩ long
    by_contra large
    unfold prune at prunes
    rw [Checked.bind_ok (listAt_eq_ok.mpr isList)] at prunes
    simp only at prunes
    rw [if_neg (not_le.mpr long)] at prunes
    obtain ⟨_, -, prunes⟩ := Checked.of_bind_ok prunes
    obtain ⟨_, -, prunes⟩ := Checked.of_bind_ok prunes
    obtain ⟨_, selects, -⟩ := Checked.of_bind_ok prunes
    rw [selectNeighbors_panics large] at selects
    cases selects

theorem pair_graph_selects :
    (∃ selected, pairGraph.selectNeighbors .unit [⟨1, ⟨0x3f800000⟩⟩, ⟨0, ⟨0⟩⟩] 1 = .ok selected ∧
      Selects .unit pairGraph 1 [⟨1, ⟨0x3f800000⟩⟩, ⟨0, ⟨0⟩⟩] selected) ∧
    ∃ kept, pairGraph.prune .unit 0 0 = .ok (pairGraph.setLinks 0 0 kept) ∧
      Keeps .unit pairGraph 0 0 [1] kept :=
  ⟨((selection_sound_iff searchable_pairGraph .unit).1 _ 1 (by decide) (by decide) (by decide)).mpr
      (by decide),
    ((selection_sound_iff searchable_pairGraph .unit).2 0 0 [1] rfl (by decide) (by decide)
      (by decide)).mpr (by decide)⟩

/-- A configuration may ask for lists of any length. -/
theorem wide_selection_panics :
    validateConfig 1 ⟨2 ^ 59, 2 ^ 59⟩ = .ok () ∧ ∀ arith candidates,
      pairGraph.selectNeighbors arith candidates (maxConnections ⟨2 ^ 59, 2 ^ 59⟩ 1) =
        .error (.panic .capacity) :=
  ⟨by decide, fun _ _ => selectNeighbors_panics (by decide)⟩

end HnswIndex

end FocalVector.Hnsw
