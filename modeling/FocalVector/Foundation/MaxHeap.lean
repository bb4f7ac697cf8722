import FocalVector.Foundation.TopK

/-!
Contract: priority queues that give out their greatest item.

Nothing is said about how a queue stores its items. A queue of bounded size that
gives up its greatest item for a smaller one ends with the smallest items of a
stream, and sorting what is left gives them in order.

Owns: `MaxHeap`, the bounded queue on top of one, and that it keeps the best.

Does not own: how much memory a queue asks for.
-/

namespace FocalVector.Foundation

/-- A queue whose `peek` is an item of greatest rank, and what its operations do to the
items. -/
structure MaxHeap (α : Type) {κ : Type} [LinearOrder κ] (rank : α → κ) where
  Heap : Type
  intoVec : Heap → List α
  empty : Heap
  push : Heap → α → Heap
  peek : Heap → Option α
  /-- The queue after `pop`, which takes the item of `peek`. -/
  pop : Heap → Heap
  intoVec_empty : intoVec empty = []
  intoVec_push : ∀ heap item, (intoVec (push heap item)).Perm (item :: intoVec heap)
  peek_none : ∀ heap, peek heap = none → intoVec heap = []
  peek_some : ∀ heap top, peek heap = some top →
    (intoVec heap).Perm (top :: intoVec (pop heap)) ∧ ∀ item ∈ intoVec heap, rank item ≤ rank top

namespace MaxHeap

variable {α κ : Type} [LinearOrder κ] {rank : α → κ}

variable (rank) in
def ordered : MaxHeap α rank where
  Heap := {items : List α // items.Pairwise (rank · ≥ rank ·)}
  intoVec heap := heap.1
  empty := ⟨[], .nil⟩
  push heap item :=
    ⟨heap.1.orderedInsert (rank · ≥ rank ·) item, heap.2.orderedInsert item heap.1⟩
  peek heap := heap.1.head?
  pop heap := ⟨heap.1.tail, heap.2.tail⟩
  intoVec_empty := rfl
  intoVec_push heap item := List.perm_orderedInsert _ item heap.1
  peek_none heap isNone := List.head?_eq_none_iff.mp isNone
  peek_some := by
    rintro ⟨items, sorted⟩ top isTop
    cases items with
    | nil => cases isTop
    | cons first rest =>
      cases isTop
      exact ⟨.rfl, List.forall_mem_cons.mpr ⟨le_rfl, (List.pairwise_cons.mp sorted).1⟩⟩

variable (heap : MaxHeap α rank) (k : Nat)

/-- Offer an item to a queue of at most `k` items. -/
def offer (state : heap.Heap) (item : α) : heap.Heap :=
  if (heap.intoVec state).length < k then
    heap.push state item
  else if (heap.peek state).any (rank item < rank ·) then
    heap.push (heap.pop state) item
  else
    state

def keepSmallest (stream : List α) : List α :=
  (heap.intoVec (stream.foldl (heap.offer k) heap.empty)).insertionSort (rank · ≤ rank ·)

variable {heap k} {state : heap.Heap} {queue : List α} {item : α}

theorem peek_eq_getLast? (same : (heap.intoVec state).Perm queue)
    (sorted : queue.Pairwise (rank · < rank ·)) : heap.peek state = queue.getLast? := by
  cases top : heap.peek state with
  | none =>
    rw [heap.peek_none state top] at same
    rw [same.symm.eq_nil]
    rfl
  | some greatest =>
    obtain ⟨taken, isGreatest⟩ := heap.peek_some state greatest top
    have member : greatest ∈ queue := (taken.symm.trans same).mem_iff.mp List.mem_cons_self
    obtain ⟨front, last, rfl⟩ : ∃ front last, queue = front ++ [last] :=
      ⟨_, _, (List.dropLast_append_getLast (List.ne_nil_of_mem member)).symm⟩
    rw [List.getLast?_concat]
    have notBefore := isGreatest last (same.mem_iff.mpr (by simp))
    rcases List.mem_append.mp member with inFront | isLast
    · have before := (List.pairwise_append.mp sorted).2.2 greatest inFront last (by simp)
      exact absurd before notBefore.not_gt
    · rw [List.mem_singleton.mp isLast]

theorem offer_perm (same : (heap.intoVec state).Perm queue)
    (sorted : queue.Pairwise (rank · < rank ·)) (item : α) :
    (heap.intoVec (heap.offer k state item)).Perm (keepBetter rank k queue item) := by
  have added : ∀ {state queue}, (heap.intoVec state).Perm queue →
      (heap.intoVec (heap.push state item)).Perm (queue.orderedInsert (rank · ≤ rank ·) item) :=
    fun held => (heap.intoVec_push _ item).trans
      ((held.cons item).trans (List.perm_orderedInsert _ item _).symm)
  unfold offer keepBetter
  rw [same.length_eq, peek_eq_getLast? same sorted]
  split
  · exact added same
  · cases last : queue.getLast? with
    | none => simpa using same
    | some worst =>
      simp only [Option.any_some, decide_eq_true_eq]
      split
      · refine added ?_
        have taken := (heap.peek_some state worst
          ((peek_eq_getLast? same sorted).trans last)).1
        obtain ⟨front, rfl⟩ := List.getLast?_eq_some_iff.mp last
        rw [List.dropLast_concat]
        have moved := (taken.symm.trans same).trans List.perm_append_comm
        exact List.perm_cons worst |>.mp moved
      · exact same

theorem keepSmallest_eq_keepBest {stream : List α} (distinct : (stream.map rank).Nodup) :
    heap.keepSmallest k stream = keepBest rank k stream := by
  have run : ∀ {state queue} {items : Set α}, (heap.intoVec state).Perm queue →
      IsBest rank k items queue →
      (∀ item ∈ stream, ∀ other ∈ items, rank other ≠ rank item) →
      (heap.intoVec (stream.foldl (heap.offer k) state)).Perm
        (stream.foldl (keepBetter rank k) queue) := by
    induction stream with
    | nil => exact fun same _ _ => same
    | cons first rest ih =>
      intro state queue items same isBest fresh
      rw [List.map_cons, List.nodup_cons] at distinct
      refine ih distinct.2 (offer_perm same isBest.sorted first)
        (isBest.offer (fresh first List.mem_cons_self)) ?_
      rintro item member other (rfl | before)
      · exact fun sameRank => distinct.1 (sameRank ▸ List.mem_map_of_mem member)
      · exact fresh item (List.mem_cons_of_mem _ member) other before
  have held := run (.of_eq heap.intoVec_empty) (IsBest.empty rank k) (by simp)
  have best := @isBest_keepBest α κ _ rank k stream distinct
  have kept : ((heap.intoVec (stream.foldl (heap.offer k) heap.empty)).map rank).Nodup :=
    (held.map rank).nodup_iff.mpr
      (List.pairwise_map.mpr (best.sorted.imp fun before => ne_of_lt before))
  refine List.Perm.eq_of_pairwise ?_ (insertionSort_strict kept) best.sorted
    ((List.perm_insertionSort _ _).trans held)
  exact fun _ _ _ _ before after => absurd before (lt_asymm after)

end MaxHeap

end FocalVector.Foundation
