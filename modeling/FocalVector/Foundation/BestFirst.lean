import FocalVector.Foundation.TopK
import Mathlib.Data.Set.Card
import Mathlib.Logic.Relation

/-!
Contract: walks over a graph that go where it looks best.

Nodes are compared by a rank in a linear order, the least rank first, and linked to
other nodes. A greedy walk moves to a better neighbour as long as there is one. A
best-first search expands the best node it has not expanded yet and keeps the best
nodes it has seen, up to a width; it stops when the node to expand is worse than all of
a full result. Whatever is linked to what, the search returns the best of the nodes it
has seen, and it has seen all nodes that can be reached or at least as many as the
width.

Owns: the greedy walk, the best-first search, and what they return.

Does not own: where links come from, and how visited nodes are marked.
-/

namespace FocalVector.Foundation

variable {ν κ : Type} [LinearOrder κ]

/-- A node can be reached over links. -/
def Reaches (links : ν → List ν) : ν → ν → Prop :=
  Relation.ReflTransGen fun node next => next ∈ links node

/-! ## The greedy walk -/

section Greedy

variable (rank : ν → κ) (links : ν → List ν)

def better (best node : ν) : ν := if rank node < rank best then node else best

def bestNeighbor (node : ν) : ν := (links node).foldl (better rank) node

def greedyWalk [DecidableEq ν] : Nat → ν → Option ν
  | 0, _ => none
  | fuel + 1, node =>
    if bestNeighbor rank links node = node then some node
    else greedyWalk fuel (bestNeighbor rank links node)

variable {rank links} {node : ν} {all : List ν}

/-- Fewer items are below a smaller item of the list. -/
theorem countP_lt_of_lt {smaller larger : ν} (member : smaller ∈ all)
    (below : rank smaller < rank larger) :
    all.countP (rank · < rank smaller) < all.countP (rank · < rank larger) := by
  have split := List.countP_eq_countP_filter_add all (rank · < rank larger) (rank · < rank smaller)
  have kept : (all.filter (rank · < rank smaller)).countP (rank · < rank larger) =
      all.countP (rank · < rank smaller) := by
    rw [List.countP_filter]
    refine List.countP_congr fun node _ => ?_
    simpa using fun first : rank node < rank smaller => first.trans below
  have left : 0 < (all.filter fun node => !decide (rank node < rank smaller)).countP
      (rank · < rank larger) :=
    List.countP_pos_iff.mpr ⟨smaller, by simpa using member, by simpa using below⟩
  omega

theorem foldl_better (nodes : List ν) (best : ν) :
    nodes.foldl (better rank) best = best ∨
      nodes.foldl (better rank) best ∈ nodes ∧ rank (nodes.foldl (better rank) best) < rank best := by
  induction nodes generalizing best with
  | nil => exact .inl rfl
  | cons first rest ih =>
    rw [List.foldl_cons]
    by_cases improves : rank first < rank best
    · have moved : better rank best first = first := if_pos improves
      rw [moved]
      rcases ih first with same | ⟨member, smaller⟩
      · rw [same]
        exact .inr ⟨List.mem_cons_self, improves⟩
      · exact .inr ⟨List.mem_cons_of_mem _ member, smaller.trans improves⟩
    · have stayed : better rank best first = best := if_neg improves
      rw [stayed]
      exact (ih best).imp id fun found =>
        ⟨List.mem_cons_of_mem _ found.1, found.2⟩

theorem bestNeighbor_cases (rank : ν → κ) (links : ν → List ν) (node : ν) :
    bestNeighbor rank links node = node ∨
      bestNeighbor rank links node ∈ links node ∧ rank (bestNeighbor rank links node) < rank node :=
  foldl_better _ _

/-- Every move makes the rank smaller, so a walk among finitely many nodes ends. -/
theorem greedyWalk_returns [DecidableEq ν] (closed : ∀ node ∈ all, ∀ next ∈ links node, next ∈ all)
    {fuel : Nat} (member : node ∈ all) (enough : all.countP (rank · < rank node) < fuel) :
    ∃ final, greedyWalk rank links fuel node = some final ∧ Reaches links node final ∧ final ∈ all := by
  induction fuel generalizing node with
  | zero => omega
  | succ fuel ih =>
    unfold greedyWalk
    by_cases stays : bestNeighbor rank links node = node
    · exact ⟨node, if_pos stays, .refl, member⟩
    · obtain ⟨linked, smaller⟩ := (bestNeighbor_cases rank links node).resolve_left stays
      have inside := closed node member _ linked
      have fewer : all.countP (rank · < rank (bestNeighbor rank links node)) <
          all.countP (rank · < rank node) := countP_lt_of_lt inside smaller
      obtain ⟨final, walks, reached, finalInside⟩ := ih inside (by omega)
      exact ⟨final, by rw [if_neg stays, walks], .head linked reached, finalInside⟩

end Greedy

/-! ## The best-first search -/

/-- What a search has seen, what it has yet to expand and what it would return, the best
nodes first. -/
structure BestFirst (ν : Type) where
  seen : List ν
  frontier : List ν
  results : List ν

namespace BestFirst

variable [DecidableEq ν] (rank : ν → κ) (links : ν → List ν) (width : Nat)

/-- There is room in the results, or the node is better than one of them. -/
def Qualifies (results : List ν) (node : ν) : Prop :=
  results.length < width ∨ ∃ worst ∈ results.getLast?, rank node < rank worst

instance (results : List ν) (node : ν) : Decidable (Qualifies rank width results node) := by
  unfold Qualifies
  infer_instance

/-- Look at a node that something links to. -/
def offer (state : BestFirst ν) (node : ν) : BestFirst ν :=
  if node ∈ state.seen then state
  else if Qualifies rank width state.results node then
    { seen := node :: state.seen
      frontier := state.frontier.orderedInsert (rank · ≤ rank ·) node
      results := keepBetter rank width state.results node }
  else { state with seen := node :: state.seen }

def expand (state : BestFirst ν) (node : ν) : BestFirst ν :=
  (links node).foldl (offer rank width) state

/-- The results are full and a node is worse than all of them. -/
def Finished (results : List ν) (node : ν) : Prop :=
  width ≤ results.length ∧ ∀ worst ∈ results.getLast?, rank worst < rank node

instance (results : List ν) (node : ν) : Decidable (Finished rank width results node) := by
  unfold Finished
  infer_instance

def loop : Nat → BestFirst ν → Option (BestFirst ν)
  | 0, _ => none
  | fuel + 1, state =>
    match state.frontier with
    | [] => some state
    | node :: rest =>
      if Finished rank width state.results node then some state
      else loop fuel (expand rank links width { state with frontier := rest } node)

def search (fuel : Nat) (entry : ν) : Option (BestFirst ν) :=
  loop rank links width fuel ⟨[entry], [entry], [entry]⟩

variable {rank links width} {state : BestFirst ν} {entry node : ν} {all : List ν}

/-! ### What the search keeps true -/

/-- The state of a search from an entry: it returns the best of what it has seen, and as
long as there is room, all it has seen is expanded, except for the nodes of the frontier
and those of a given set. -/
structure Searching (rank : ν → κ) (links : ν → List ν) (width : Nat) (entry : ν)
    (expanding : Set ν) (state : BestFirst ν) : Prop where
  entered : entry ∈ state.seen
  reached : ∀ node ∈ state.seen, Reaches links entry node
  distinct : state.seen.Nodup
  pending : ∀ node ∈ state.frontier, node ∈ state.seen
  best : IsBest rank width {node | node ∈ state.seen} state.results
  expanded : state.results.length < width → ∀ node ∈ state.seen,
    node ∈ state.frontier ∨ node ∈ expanding ∨ ∀ next ∈ links node, next ∈ state.seen

omit [DecidableEq ν] in
theorem length_keepBetter {results : List ν} (fits : results.length ≤ width) :
    (keepBetter rank width results node).length = min width (results.length + 1) := by
  unfold keepBetter
  by_cases room : results.length < width
  · rw [if_pos room, List.orderedInsert_length]
    omega
  rw [if_neg room]
  cases last : results.getLast? with
  | none =>
    rw [List.getLast?_eq_none_iff] at last
    subst last
    simp only [List.length_nil] at room ⊢
    omega
  | some worst =>
    obtain ⟨front, rfl⟩ := List.getLast?_eq_some_iff.mp last
    simp only [List.dropLast_concat, List.length_append, List.length_singleton] at room fits ⊢
    split
    · rw [List.orderedInsert_length]
      omega
    · simp
      omega

omit [DecidableEq ν] in
theorem keepBetter_of_not_qualifies {results : List ν} (refused : ¬ Qualifies rank width results node) :
    keepBetter rank width results node = results := by
  rw [Qualifies, not_or] at refused
  unfold keepBetter
  rw [if_neg refused.1]
  cases last : results.getLast? with
  | none => rfl
  | some worst =>
    rw [last] at refused
    exact if_neg fun improves => refused.2 ⟨worst, rfl, improves⟩

omit [DecidableEq ν] in
theorem orderedInsert_concat {front : List ν} {worst : ν} (before : rank node ≤ rank worst) :
    (front ++ [worst]).orderedInsert (rank · ≤ rank ·) node =
      front.orderedInsert (rank · ≤ rank ·) node ++ [worst] := by
  induction front with
  | nil =>
    rw [List.nil_append, List.orderedInsert_cons, if_pos before]
    rfl
  | cons first rest ih =>
    rw [List.cons_append, List.orderedInsert_cons, List.orderedInsert_cons, ih]
    split <;> rfl

omit [DecidableEq ν] in
/-- A node that qualifies is added, and the worst is removed when there are too many. -/
theorem keepBetter_of_qualifies {results : List ν} (fits : results.length ≤ width)
    (qualifies : Qualifies rank width results node) :
    keepBetter rank width results node =
      let pushed := results.orderedInsert (rank · ≤ rank ·) node
      if width < pushed.length then pushed.dropLast else pushed := by
  unfold keepBetter
  simp only [List.orderedInsert_length]
  by_cases room : results.length < width
  · rw [if_pos room, if_neg (by omega)]
  · obtain ⟨worst, isWorst, improves⟩ := qualifies.resolve_left room
    rw [Option.mem_def] at isWorst
    obtain ⟨front, rfl⟩ := List.getLast?_eq_some_iff.mp isWorst
    rw [if_neg room, if_pos (by omega), isWorst]
    simp only [if_pos improves, orderedInsert_concat improves.le, List.dropLast_concat]

theorem offer_of_mem (member : node ∈ state.seen) : offer rank width state node = state :=
  if_pos member

theorem mem_seen_offer (rank : ν → κ) (width : Nat) (state : BestFirst ν) (node : ν) {other : ν} :
    other ∈ (offer rank width state node).seen ↔ other = node ∨ other ∈ state.seen := by
  unfold offer
  split
  next member => simp +contextual [member]
  next => split <;> simp

theorem results_offer (fresh : node ∉ state.seen) :
    (offer rank width state node).results = keepBetter rank width state.results node := by
  unfold offer
  rw [if_neg fresh]
  split
  · rfl
  next refused => exact (keepBetter_of_not_qualifies refused).symm

theorem mem_frontier_offer (room : state.results.length < width) (fresh : node ∉ state.seen)
    {other : ν} :
    other ∈ (offer rank width state node).frontier ↔ other = node ∨ other ∈ state.frontier := by
  unfold offer
  rw [if_neg fresh, if_pos (.inl room)]
  exact List.mem_orderedInsert _

theorem pending_offer {other : ν} (member : other ∈ (offer rank width state node).frontier) :
    other = node ∨ other ∈ state.frontier := by
  unfold offer at member
  split at member
  · exact .inr member
  · split at member
    · exact (List.mem_orderedInsert _).mp member
    · exact .inr member

namespace Searching

variable {expanding : Set ν}

theorem offer (searching : Searching rank links width entry expanding state)
    (injective : Function.Injective rank) (reached : Reaches links entry node) :
    Searching rank links width entry expanding (BestFirst.offer rank width state node) := by
  by_cases member : node ∈ state.seen
  · rw [offer_of_mem member]
    exact searching
  have seen := @mem_seen_offer ν κ _ _ rank width state node
  exact {
    entered := seen.mpr (.inr searching.entered)
    reached := fun other isSeen =>
      (seen.mp isSeen).elim (fun same => same ▸ reached) (searching.reached other)
    distinct := by
      have both : (BestFirst.offer rank width state node).seen = node :: state.seen := by
        unfold BestFirst.offer
        rw [if_neg member]
        split <;> rfl
      rw [both]
      exact List.nodup_cons.mpr ⟨member, searching.distinct⟩
    pending := fun other isPending =>
      seen.mpr ((pending_offer isPending).imp id (searching.pending other))
    best := by
      rw [results_offer member]
      refine (searching.best.offer fun other isSeen same => ?_).congr fun other => ?_
      · exact member (injective same ▸ isSeen)
      · rw [Set.mem_insert_iff]
        exact seen.symm
    expanded := by
      intro room other isSeen
      rw [results_offer member, length_keepBetter searching.best.size] at room
      have roomBefore : state.results.length < width := by omega
      rw [mem_frontier_offer roomBefore member]
      rcases seen.mp isSeen with same | before
      · exact .inl (.inl same)
      · refine (searching.expanded roomBefore other before).imp .inr (.imp id ?_)
        exact fun closed next linked => seen.mpr (.inr (closed next linked)) }

theorem offerAll (searching : Searching rank links width entry expanding state)
    (injective : Function.Injective rank) {nodes : List ν}
    (reached : ∀ node ∈ nodes, Reaches links entry node) :
    Searching rank links width entry expanding (nodes.foldl (BestFirst.offer rank width) state) ∧
      ∀ node, node ∈ (nodes.foldl (BestFirst.offer rank width) state).seen ↔
        node ∈ nodes ∨ node ∈ state.seen := by
  induction nodes generalizing state with
  | nil => exact ⟨searching, by simp⟩
  | cons first rest ih =>
    obtain ⟨kept, seen⟩ := ih
      (searching.offer injective (reached first List.mem_cons_self))
      fun node member => reached node (List.mem_cons_of_mem _ member)
    refine ⟨kept, fun node => ?_⟩
    rw [List.foldl_cons, seen, mem_seen_offer, List.mem_cons]
    tauto

theorem expand {rest : List ν} (searching : Searching rank links width entry ∅ state)
    (injective : Function.Injective rank) (first : state.frontier = node :: rest) :
    Searching rank links width entry ∅
      (BestFirst.expand rank links width { state with frontier := rest } node) := by
  have isSeen := searching.pending node (first ▸ List.mem_cons_self)
  have taken : Searching rank links width entry {node} { state with frontier := rest } := {
    searching with
    pending := fun other member => searching.pending other (first ▸ List.mem_cons_of_mem _ member)
    expanded := by
      intro room other member
      have before := searching.expanded room other member
      rw [first, List.mem_cons] at before
      rcases before with (same | later) | inside | closed
      · exact .inr (.inl same)
      · exact .inl later
      · exact absurd inside (Set.notMem_empty _)
      · exact .inr (.inr closed) }
  obtain ⟨kept, seen⟩ := taken.offerAll injective fun next linked =>
    (searching.reached node isSeen).tail linked
  exact {
    kept with
    expanded := by
      intro room other member
      refine (kept.expanded room other member).imp id fun before => .inr ?_
      rcases before with same | closed
      · intro next linked
        rw [Set.mem_singleton_iff.mp same] at linked
        exact (seen next).mpr (.inl linked)
      · exact closed }

omit [DecidableEq ν] in
theorem start (rank : ν → κ) (links : ν → List ν) {width : Nat} (positive : 0 < width) (entry : ν) :
    Searching rank links width entry ∅ ⟨[entry], [entry], [entry]⟩ where
  entered := List.mem_singleton_self _
  reached := fun _ member => List.mem_singleton.mp member ▸ .refl
  distinct := List.nodup_singleton _
  pending := fun _ member => member
  best := {
    sorted := List.pairwise_singleton _ _
    sound := fun _ member => member
    size := positive
    full := fun _ member missing => absurd member missing }
  expanded := fun _ _ member => .inl member

/-- How much a search can still do: the frontier, and the nodes it has not seen. -/
def potential (all : List ν) (state : BestFirst ν) : Nat :=
  state.frontier.length + (all.length - state.seen.length)

omit [DecidableEq ν] in
theorem seen_le (searching : Searching rank links width entry expanding state)
    (closed : ∀ node, Reaches links entry node → node ∈ all) : state.seen.length ≤ all.length :=
  (List.subperm_of_subset searching.distinct fun node member =>
    closed node (searching.reached node member)).length_le

end Searching

/-! ### What the search returns -/

theorem potential_offer (all : List ν) (state : BestFirst ν) (node : ν)
    (fits : (offer rank width state node).seen.length ≤ all.length) :
    Searching.potential all (offer rank width state node) ≤ Searching.potential all state := by
  unfold Searching.potential offer at *
  split
  · exact le_rfl
  next fresh =>
    rw [if_neg fresh] at fits
    split
    next qualifies =>
      rw [if_pos qualifies] at fits
      simp only [List.orderedInsert_length, List.length_cons] at fits ⊢
      omega
    next refused =>
      simp only [List.length_cons]
      omega

theorem Searching.potential_offerAll {expanding : Set ν}
    (searching : Searching rank links width entry expanding state)
    (injective : Function.Injective rank) (closed : ∀ node, Reaches links entry node → node ∈ all)
    {nodes : List ν} (reached : ∀ node ∈ nodes, Reaches links entry node) :
    potential all (nodes.foldl (BestFirst.offer rank width) state) ≤ potential all state := by
  induction nodes generalizing state with
  | nil => exact le_rfl
  | cons first rest ih =>
    have kept := searching.offer injective (reached first List.mem_cons_self)
    exact (ih kept fun node member =>
      reached node (List.mem_cons_of_mem _ member)).trans
      (potential_offer all state first (kept.seen_le closed))

/-- Each round takes a node from the frontier, and only new nodes get there, so the search
ends, with nothing left to expand or with full results. -/
theorem loop_returns (injective : Function.Injective rank)
    (closed : ∀ node, Reaches links entry node → node ∈ all) {fuel : Nat}
    (searching : Searching rank links width entry ∅ state)
    (enough : Searching.potential all state < fuel) :
    ∃ final, loop rank links width fuel state = some final ∧
      Searching rank links width entry ∅ final ∧
      (final.frontier = [] ∨ width ≤ final.results.length) := by
  induction fuel generalizing state with
  | zero => omega
  | succ fuel ih =>
    unfold loop
    cases first : state.frontier with
    | nil => exact ⟨state, rfl, searching, .inl first⟩
    | cons node rest =>
      by_cases finished : Finished rank width state.results node
      · exact ⟨state, if_pos finished, searching, .inr finished.1⟩
      · have isSeen := searching.pending node (first ▸ List.mem_cons_self)
        have taken : Searching rank links width entry Set.univ { state with frontier := rest } := {
          searching with
          pending := fun other member =>
            searching.pending other (first ▸ List.mem_cons_of_mem _ member)
          expanded := fun _ _ _ => .inr (.inl trivial) }
        have less := taken.potential_offerAll injective closed fun next linked =>
          (searching.reached node isSeen).tail linked
        have fewer : Searching.potential all
            (expand rank links width { state with frontier := rest } node) < fuel := by
          refine lt_of_le_of_lt less ?_
          unfold Searching.potential at enough ⊢
          rw [first, List.length_cons] at enough
          simp only
          omega
        obtain ⟨final, returns, kept⟩ :=
          ih (searching.expand injective first) fewer
        exact ⟨final, by simp only [if_neg finished, returns], kept⟩

/-- A search of any width returns: the best of the nodes it has seen, all of which can be
reached, and as many as the width or as can be reached at all. -/
theorem search_returns (injective : Function.Injective rank) (positive : 0 < width)
    (closed : ∀ node, Reaches links entry node → node ∈ all) {fuel : Nat}
    (enough : all.length < fuel) :
    ∃ final, search rank links width fuel entry = some final ∧
      Searching rank links width entry ∅ final ∧
      final.results.length = min width {node | Reaches links entry node}.ncard := by
  have start := Searching.start rank links positive entry
  have inside := closed entry .refl
  have bounded : Searching.potential all ⟨[entry], [entry], [entry]⟩ < fuel := by
    have some := List.length_pos_of_mem inside
    simp only [Searching.potential, List.length_singleton]
    omega
  obtain ⟨final, returns, searching, ended⟩ := loop_returns injective closed start bounded
  refine ⟨final, returns, searching, ?_⟩
  have counted : final.results.length = min width final.seen.length :=
    searching.best.length_eq searching.distinct
  have finite : {node | Reaches links entry node}.Finite :=
    (List.finite_toSet all).subset fun node reached => closed node reached
  have seenCard : {node | node ∈ final.seen}.ncard = final.seen.length := by
    classical
    rw [← List.toFinset_card_of_nodup searching.distinct, ← Set.ncard_coe_finset]
    congr 1
    ext node
    simp
  have fewer : final.seen.length ≤ {node | Reaches links entry node}.ncard := by
    rw [← seenCard]
    exact Set.ncard_le_ncard (fun node member => searching.reached node member) finite
  by_cases room : final.results.length < width
  · -- Nothing is left to expand, so what was seen is closed under links.
    have nothing : final.frontier = [] := ended.resolve_right (by omega)
    have all_seen : ∀ node, Reaches links entry node → node ∈ final.seen := by
      intro node reached
      induction reached with
      | refl => exact searching.entered
      | tail _ linked ih =>
        rcases searching.expanded room _ ih with pending | inside | closed
        · rw [nothing] at pending
          exact absurd pending List.not_mem_nil
        · exact absurd inside (Set.notMem_empty _)
        · exact closed _ linked
    have same : {node | Reaches links entry node} = {node | node ∈ final.seen} :=
      Set.Subset.antisymm all_seen searching.reached
    rw [counted, same, seenCard]
  · omega

end BestFirst

end FocalVector.Foundation
