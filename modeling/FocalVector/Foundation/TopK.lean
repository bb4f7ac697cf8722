import Mathlib.Data.List.Destutter
import Mathlib.Data.List.Sort
import Mathlib.Data.Set.Insert

/-!
Contract: the k best items by a rank.

Items are compared by a rank in a linear order, the least rank first. The k best
items of a set are a list of them in the order of their ranks such that every
item left out is behind all items of a full list. At most one list is that, so
two ways of finding the best agree as soon as they look at the same set.

Owns: `IsBest`, its uniqueness and its change when items are added, the bounded
queue that keeps the best items of a stream, and the merge of found items.

Does not own: ranks.
-/

namespace FocalVector.Foundation

variable {α κ τ : Type} [LinearOrder κ] {rank : α → κ} {k : Nat} {items other : Set α}
  {best : List α} {item : α}

/-- The list holds the `k` items of the set with the least ranks, in order. -/
structure IsBest (rank : α → κ) (k : Nat) (items : Set α) (best : List α) : Prop where
  sorted : best.Pairwise (rank · < rank ·)
  sound : ∀ item ∈ best, item ∈ items
  size : best.length ≤ k
  full : ∀ item ∈ items, item ∉ best → best.length = k ∧ ∀ better ∈ best, rank better < rank item

namespace IsBest

theorem nodup (isBest : IsBest rank k items best) : best.Nodup :=
  isBest.sorted.imp fun before same => absurd (congrArg rank same) (ne_of_lt before)

theorem congr (isBest : IsBest rank k items best) (same : ∀ item, item ∈ items ↔ item ∈ other) :
    IsBest rank k other best :=
  Set.ext same ▸ isBest

theorem empty (rank : α → κ) (k : Nat) : IsBest rank k ∅ [] :=
  ⟨List.Pairwise.nil, nofun, Nat.zero_le _, nofun⟩

theorem map {β : Type} {form : α → β} {formRank : β → κ} (isBest : IsBest rank k items best)
    (same : ∀ item, formRank (form item) = rank item) :
    IsBest formRank k (Set.image form items) (best.map form) where
  sorted := List.pairwise_map.mpr (isBest.sorted.imp fun before => by rwa [same, same])
  sound := by
    intro formed member
    obtain ⟨item, found, rfl⟩ := List.mem_map.mp member
    exact ⟨item, isBest.sound item found, rfl⟩
  size := (List.length_map form).trans_le isBest.size
  full := by
    rintro _ ⟨item, member, rfl⟩ missing
    obtain ⟨whole, better⟩ := isBest.full item member fun found =>
      missing (List.mem_map_of_mem found)
    refine ⟨(List.length_map form).trans whole, fun formed isFormed => ?_⟩
    obtain ⟨ahead, isAhead, rfl⟩ := List.mem_map.mp isFormed
    rw [same, same]
    exact better ahead isAhead

theorem complete (isBest : IsBest rank k items best) (short : best.length < k)
    (member : item ∈ items) : item ∈ best := by
  by_contra missing
  have full := (isBest.full item member missing).1
  omega

/-- Items that `k` distinct items are ahead of change nothing. -/
theorem extend (isBest : IsBest rank k items best) (larger : items ⊆ other)
    (beaten : ∀ item ∈ other, item ∉ items → ∃ ahead : List α, ahead.Nodup ∧ ahead.length = k ∧
      ∀ better ∈ ahead, better ∈ items ∧ rank better < rank item) :
    IsBest rank k other best where
  sorted := isBest.sorted
  sound := fun item member => larger (isBest.sound item member)
  size := isBest.size
  full := by
    intro item member missing
    by_cases inside : item ∈ items
    · exact isBest.full item inside missing
    obtain ⟨ahead, distinct, count, better⟩ := beaten item member inside
    have whole : best.length = k := by
      by_contra short
      have within : ahead ⊆ best := fun found isAhead =>
        isBest.complete (lt_of_le_of_ne isBest.size short) (better found isAhead).1
      have counted := (List.subperm_of_subset distinct within).length_le
      have size := isBest.size
      omega
    refine ⟨whole, fun hit isHit => ?_⟩
    by_contra notBetter
    have within : ahead ⊆ best := by
      intro found isAhead
      by_contra isMissing
      have behind := (isBest.full found (better found isAhead).1 isMissing).2 hit isHit
      exact notBetter (behind.trans (better found isAhead).2)
    -- The hit itself is not ahead of the item, so there are more than `k` hits.
    have absent : hit ∉ ahead := fun isAhead => notBetter (better hit isAhead).2
    have counted := (List.subperm_of_subset (List.nodup_cons.mpr ⟨absent, distinct⟩)
      (List.cons_subset.mpr ⟨isHit, within⟩)).length_le
    rw [List.length_cons] at counted
    omega

/-- The first `k` of a sorted list. -/
theorem take {sorted : List α} (isSorted : sorted.Pairwise (rank · < rank ·)) :
    IsBest rank k {item | item ∈ sorted} (sorted.take k) where
  sorted := isSorted.sublist (List.take_sublist _ _)
  sound := fun _ member => List.mem_of_mem_take member
  size := List.length_take_le _ _
  full := by
    intro item member missing
    have later : item ∈ sorted.drop k := by
      rw [Set.mem_ofPred_eq, ← List.take_append_drop k sorted, List.mem_append] at member
      exact member.resolve_left missing
    have long : k < sorted.length := by
      by_contra short
      rw [List.drop_eq_nil_of_le (not_lt.mp short)] at later
      exact absurd later List.not_mem_nil
    rw [← List.take_append_drop k sorted, List.pairwise_append] at isSorted
    exact ⟨List.length_take_of_le long.le, fun better isBetter =>
      isSorted.2.2 better isBetter item later⟩

/-- Fewer than `k` items are ahead of one of the best. -/
theorem ahead_lt {ahead : List α} (isBest : IsBest rank k items best) (found : item ∈ best)
    (distinct : ahead.Nodup)
    (better : ∀ other ∈ ahead, other ∈ items ∧ rank other < rank item) : ahead.length < k := by
  have within : ahead ⊆ best := by
    intro other isAhead
    by_contra missing
    have behind := (isBest.full other (better other isAhead).1 missing).2 item found
    exact lt_asymm behind (better other isAhead).2
  have absent : item ∉ ahead := fun isAhead => lt_irrefl _ (better item isAhead).2
  have counted := (List.subperm_of_subset (List.nodup_cons.mpr ⟨absent, distinct⟩)
    (List.cons_subset.mpr ⟨found, within⟩)).length_le
  have size := isBest.size
  rw [List.length_cons] at counted
  omega

variable {part : List α}

theorem mem_of_subset (isBest : IsBest rank k items best)
    (isPart : IsBest rank k other part) (smaller : other ⊆ items) (member : item ∈ other)
    (found : item ∈ best) : item ∈ part := by
  by_contra missing
  obtain ⟨whole, better⟩ := isPart.full item member missing
  have few := isBest.ahead_lt found isPart.nodup fun hit isHit =>
    ⟨smaller (isPart.sound hit isHit), better hit isHit⟩
  omega

theorem unique {others : List α} (isBest : IsBest rank k items best)
    (alsoBest : IsBest rank k items others) : best = others := by
  have members : ∀ item, item ∈ best ↔ item ∈ others := fun item =>
    ⟨fun found => isBest.mem_of_subset alsoBest subset_rfl (isBest.sound item found) found,
      fun found => alsoBest.mem_of_subset isBest subset_rfl (alsoBest.sound item found) found⟩
  have permuted : best.Perm others :=
    (List.perm_ext_iff_of_nodup isBest.nodup alsoBest.nodup).mpr members
  exact permuted.eq_of_pairwise
    (fun left right _ _ before after => absurd before (lt_asymm after))
    isBest.sorted alsoBest.sorted

theorem eq_iff (isBest : IsBest rank k items best)
    (isPart : IsBest rank k other part) (smaller : other ⊆ items) :
    part = best ↔ ∀ item ∈ best, item ∈ other := by
  refine ⟨fun same => same ▸ isPart.sound, fun inside => ?_⟩
  exact isPart.unique {
    sorted := isBest.sorted
    sound := inside
    size := isBest.size
    full := fun item member missing => isBest.full item (smaller member) missing }

theorem length_eq {list : List α} (isBest : IsBest rank k {item | item ∈ list} best)
    (distinct : list.Nodup) : best.length = min k list.length := by
  have within := (List.subperm_of_subset isBest.nodup isBest.sound).length_le
  have size := isBest.size
  by_cases short : best.length < k
  · have all := (List.subperm_of_subset distinct fun item member =>
      isBest.complete short member).length_le
    omega
  · omega

/-- An item of a list is among the best exactly when fewer than `k` items are ahead
of it. -/
theorem mem_iff {list : List α} (isBest : IsBest rank k {item | item ∈ list} best)
    (distinct : list.Nodup) :
    item ∈ best ↔ item ∈ list ∧ list.countP (rank · < rank item) < k := by
  rw [List.countP_eq_length_filter]
  have isAhead : ∀ other, other ∈ list.filter (rank · < rank item) ↔
      other ∈ list ∧ rank other < rank item := by simp
  constructor
  · intro found
    exact ⟨isBest.sound item found, isBest.ahead_lt found (distinct.filter _) fun other member =>
      (isAhead other).mp member⟩
  · rintro ⟨member, few⟩
    by_contra missing
    obtain ⟨whole, better⟩ := isBest.full item member missing
    have within : best ⊆ list.filter (rank · < rank item) := fun other isBetter =>
      (isAhead other).mpr ⟨isBest.sound other isBetter, better other isBetter⟩
    have counted := (List.subperm_of_subset isBest.nodup within).length_le
    omega

theorem absorb (isPart : IsBest rank k other part)
    (isBest : IsBest rank k (items ∪ {item | item ∈ part}) best) :
    IsBest rank k (items ∪ other) best := by
  refine isBest.extend (Set.union_subset_union_right _ isPart.sound) ?_
  intro item member missing
  have isOther : item ∈ other := member.resolve_left fun inside => missing (.inl inside)
  obtain ⟨whole, better⟩ := isPart.full item isOther fun found => missing (.inr found)
  exact ⟨part, isPart.nodup, whole, fun hit isHit => ⟨.inr isHit, better hit isHit⟩⟩

end IsBest

/-! ## A bounded queue -/

variable (rank k) in
/-- Offer an item to a queue of at most `k` items, whose worst item is its last. -/
def keepBetter (queue : List α) (item : α) : List α :=
  if queue.length < k then
    queue.orderedInsert (rank · ≤ rank ·) item
  else
    match queue.getLast? with
    | some worst =>
      if rank item < rank worst then
        queue.dropLast.orderedInsert (rank · ≤ rank ·) item
      else queue
    | none => queue

variable (rank k) in
def keepBest (stream : List α) : List α := stream.foldl (keepBetter rank k) []

theorem orderedInsert_sorted {queue : List α} (sorted : queue.Pairwise (rank · < rank ·))
    (fresh : ∀ other ∈ queue, rank other ≠ rank item) :
    (queue.orderedInsert (rank · ≤ rank ·) item).Pairwise (rank · < rank ·) := by
  induction queue with
  | nil => exact List.pairwise_singleton _ _
  | cons first rest ih =>
    obtain ⟨ahead, sortedRest⟩ := List.pairwise_cons.mp sorted
    rw [List.orderedInsert_cons]
    split
    next before =>
      have strict : rank item < rank first :=
        lt_of_le_of_ne before (fresh first List.mem_cons_self).symm
      refine List.pairwise_cons.mpr ⟨List.forall_mem_cons.mpr ⟨strict, fun later member =>
        strict.trans (ahead later member)⟩, sorted⟩
    next behind =>
      refine List.pairwise_cons.mpr ⟨fun later member => ?_, ih sortedRest
        fun later member => fresh later (List.mem_cons_of_mem _ member)⟩
      rcases (List.mem_orderedInsert _).mp member with rfl | isRest
      · exact not_le.mp behind
      · exact ahead later isRest

theorem IsBest.offer (isBest : IsBest rank k items best)
    (fresh : ∀ other ∈ items, rank other ≠ rank item) :
    IsBest rank k (insert item items) (keepBetter rank k best item) := by
  have freshBest : ∀ other ∈ best, rank other ≠ rank item :=
    fun other member => fresh other (isBest.sound other member)
  unfold keepBetter
  by_cases short : best.length < k
  · rw [if_pos short]
    exact {
      sorted := orderedInsert_sorted isBest.sorted freshBest
      sound := by
        intro found member
        rcases (List.mem_orderedInsert _).mp member with rfl | inBest
        · exact Set.mem_insert _ _
        · exact Set.mem_insert_of_mem _ (isBest.sound found inBest)
      size := by
        rw [List.orderedInsert_length]
        exact short
      full := by
        intro found member missing
        refine absurd ((List.mem_orderedInsert _).mpr ?_) missing
        rcases member with rfl | inside
        · exact .inl rfl
        · exact .inr (isBest.complete short inside) }
  rw [if_neg short]
  have whole : best.length = k := le_antisymm isBest.size (not_lt.mp short)
  cases last : best.getLast? with
  | none =>
    -- Nothing is kept, so `k` is zero.
    rw [List.getLast?_eq_none_iff] at last
    subst last
    exact {
      sorted := List.Pairwise.nil
      sound := fun _ member => absurd member List.not_mem_nil
      size := isBest.size
      full := fun _ _ _ => ⟨whole, fun _ member => absurd member List.not_mem_nil⟩ }
  | some worst =>
    obtain ⟨front, rfl⟩ := List.getLast?_eq_some_iff.mp last
    obtain ⟨sortedFront, -, frontBefore⟩ := List.pairwise_append.mp isBest.sorted
    have beforeWorst : ∀ other ∈ front, rank other < rank worst := fun other member =>
      frontBefore other member worst (List.mem_singleton.mpr rfl)
    rw [List.length_append, List.length_singleton] at whole
    have kept : ∀ found ∈ items, found ∉ front ++ [worst] →
        ∀ better ∈ front ++ [worst], rank better < rank found :=
      fun found inside missing => (isBest.full found inside missing).2
    simp only [List.dropLast_concat]
    split
    next better =>
      exact {
        sorted := orderedInsert_sorted sortedFront fun other member =>
          freshBest other (List.mem_append_left _ member)
        sound := by
          intro found member
          rcases (List.mem_orderedInsert _).mp member with rfl | inFront
          · exact Set.mem_insert _ _
          · exact Set.mem_insert_of_mem _ (isBest.sound found (List.mem_append_left _ inFront))
        size := by
          rw [List.orderedInsert_length]
          omega
        full := by
          intro found member missing
          rw [List.mem_orderedInsert, not_or] at missing
          refine ⟨by rw [List.orderedInsert_length]; omega, ?_⟩
          have inside : found ∈ items := (Set.mem_insert_iff.mp member).resolve_left missing.1
          have notBefore : rank worst ≤ rank found := by
            by_cases isWorst : found = worst
            · rw [isWorst]
            · refine (kept found inside ?_ worst (by simp)).le
              simp [missing.2, isWorst]
          intro hit isHit
          rcases (List.mem_orderedInsert _).mp isHit with rfl | inFront
          · exact lt_of_lt_of_le better notBefore
          · exact lt_of_lt_of_le (beforeWorst hit inFront) notBefore }
    next notBetter =>
      have behind : rank worst < rank item :=
        lt_of_le_of_ne (not_lt.mp notBetter) (freshBest worst (by simp))
      refine isBest.extend (Set.subset_insert _ _) fun found member missing => ?_
      obtain rfl := (Set.mem_insert_iff.mp member).resolve_right missing
      refine ⟨front ++ [worst], isBest.nodup, by simpa using whole, fun better isBetter =>
        ⟨isBest.sound better isBetter, ?_⟩⟩
      rcases List.mem_append.mp isBetter with inFront | isWorst
      · exact (beforeWorst better inFront).trans behind
      · rw [List.mem_singleton.mp isWorst]
        exact behind

variable {stream : List α}

theorem IsBest.offerAll (isBest : IsBest rank k items best)
    (distinct : (stream.map rank).Nodup)
    (fresh : ∀ item ∈ stream, ∀ other ∈ items, rank other ≠ rank item) :
    IsBest rank k (items ∪ {item | item ∈ stream}) (stream.foldl (keepBetter rank k) best) := by
  induction stream generalizing items best with
  | nil => exact isBest.congr fun item => by simp
  | cons first rest ih =>
    rw [List.map_cons, List.nodup_cons] at distinct
    have next := isBest.offer (fresh first List.mem_cons_self)
    refine (ih next distinct.2 ?_).congr fun item => by
      simp only [Set.mem_union, Set.mem_insert_iff, Set.mem_ofPred_eq, List.mem_cons]
      tauto
    intro item member other isOther
    rcases isOther with rfl | inside
    · exact fun same => distinct.1 (List.mem_map.mpr ⟨item, member, same.symm⟩)
    · exact fresh item (List.mem_cons_of_mem _ member) other inside

/-- The queue ends with the best of a stream of items with distinct ranks. -/
theorem isBest_keepBest {stream : List α} (distinct : (stream.map rank).Nodup) :
    IsBest rank k {item | item ∈ stream} (keepBest rank k stream) :=
  ((IsBest.empty rank k).offerAll distinct nofun).congr fun item => by simp

theorem insertionSort_sorted (rank : α → κ) (stream : List α) :
    (stream.insertionSort (rank · ≤ rank ·)).Pairwise (rank · ≤ rank ·) := by
  have total : Std.Total fun left right => rank left ≤ rank right :=
    ⟨fun left right => le_total _ _⟩
  have trans : IsTrans α fun left right => rank left ≤ rank right :=
    ⟨fun _ _ _ before after => le_trans before after⟩
  exact List.pairwise_insertionSort _ _

theorem insertionSort_strict (distinct : (stream.map rank).Nodup) :
    (stream.insertionSort (rank · ≤ rank ·)).Pairwise (rank · < rank ·) := by
  have apart := ((List.perm_insertionSort (rank · ≤ rank ·) stream).map rank).nodup_iff.mpr distinct
  exact ((insertionSort_sorted rank stream).and (List.pairwise_map.mp apart)).imp
    fun ordered => lt_of_le_of_ne ordered.1 ordered.2

theorem keepBest_eq_take (distinct : (stream.map rank).Nodup) :
    keepBest rank k stream = (stream.insertionSort (rank · ≤ rank ·)).take k :=
  (isBest_keepBest distinct).unique ((IsBest.take (insertionSort_strict distinct)).congr
    fun _ => List.mem_insertionSort _)

/-! ## Merging the best of parts -/

variable (rank k) in
/-- Sort the best items of all parts and keep the first `k`. -/
def mergeParts (parts : List (List α)) : List α :=
  (parts.flatten.insertionSort (rank · ≤ rank ·)).take k

theorem isBest_mergeParts {parts : List (Set α × List α)}
    (each : ∀ part ∈ parts, IsBest rank k part.1 part.2)
    (apart : parts.Pairwise fun left right =>
      ∀ item ∈ left.1, ∀ other ∈ right.1, rank item ≠ rank other) :
    IsBest rank k {item | ∃ part ∈ parts, item ∈ part.1}
      (mergeParts rank k (parts.map Prod.snd)) := by
  have distinct : ((parts.map Prod.snd).flatten.map rank).Nodup := by
    rw [List.map_flatten, List.nodup_flatten, List.map_map]
    constructor
    · intro ranks member
      obtain ⟨part, isPart, rfl⟩ := List.mem_map.mp member
      exact List.pairwise_map.mpr ((each part isPart).sorted.imp fun before => ne_of_lt before)
    · refine List.pairwise_map.mpr (apart.imp_of_mem fun {left right} isLeft isRight differ => ?_)
      intro found inLeft inRight
      obtain ⟨item, isItem, rfl⟩ := List.mem_map.mp inLeft
      obtain ⟨other, isOther, same⟩ := List.mem_map.mp inRight
      exact differ item ((each left isLeft).sound item isItem) other
        ((each right isRight).sound other isOther) same.symm
  have found : IsBest rank k {item | item ∈ (parts.map Prod.snd).flatten}
      (mergeParts rank k (parts.map Prod.snd)) :=
    (IsBest.take (insertionSort_strict distinct)).congr fun _ => List.mem_insertionSort _
  refine found.extend ?_ ?_
  · intro item member
    obtain ⟨best, isBest, inBest⟩ := List.mem_flatten.mp member
    obtain ⟨part, isPart, rfl⟩ := List.mem_map.mp isBest
    exact ⟨part, isPart, (each part isPart).sound item inBest⟩
  · rintro item ⟨part, isPart, inside⟩ missing
    have inFlatten : ∀ other ∈ part.2, other ∈ (parts.map Prod.snd).flatten :=
      fun other member => List.mem_flatten.mpr ⟨_, List.mem_map_of_mem isPart, member⟩
    obtain ⟨whole, better⟩ := (each part isPart).full item inside fun member =>
      missing (inFlatten item member)
    exact ⟨part.2, (each part isPart).nodup, whole, fun ahead isAhead =>
      ⟨inFlatten ahead isAhead, better ahead isAhead⟩⟩

/-! ## Merging found items -/

variable [DecidableEq τ] (rank k) in
/-- Sort what was found, drop repeated tags and keep the first `k`. -/
def mergeBest (tag : α → τ) (found : List α) : List α :=
  ((found.insertionSort (rank · ≤ rank ·)).destutter (tag · ≠ tag ·)).take k

theorem mem_destutter' {tag : α → τ} [DecidableEq τ] {first : α} {list : List α}
    (single : ∀ left ∈ first :: list, ∀ right ∈ first :: list, tag left = tag right → left = right)
    (member : item ∈ first :: list) : item ∈ list.destutter' (tag · ≠ tag ·) first := by
  induction list generalizing first with
  | nil => exact member
  | cons second rest ih =>
    rw [List.destutter'_cons]
    split
    next =>
      rcases List.mem_cons.mp member with rfl | later
      · exact List.mem_cons_self
      · exact List.mem_cons_of_mem _ (ih (fun left isLeft right isRight =>
          single left (List.mem_cons_of_mem _ isLeft) right (List.mem_cons_of_mem _ isRight)) later)
    next repeated =>
      have same : first = second := single first List.mem_cons_self second
        (List.mem_cons_of_mem _ List.mem_cons_self) (not_not.mp repeated)
      subst same
      refine ih (fun left isLeft right isRight =>
        single left (List.mem_cons_of_mem _ isLeft) right (List.mem_cons_of_mem _ isRight)) ?_
      exact (List.mem_cons.mp member).elim (fun isFirst => isFirst ▸ List.mem_cons_self) id

theorem mem_destutter {tag : α → τ} [DecidableEq τ] {list : List α}
    (single : ∀ left ∈ list, ∀ right ∈ list, tag left = tag right → left = right) :
    item ∈ list.destutter (tag · ≠ tag ·) ↔ item ∈ list := by
  refine ⟨fun found => (List.destutter_sublist _ _).subset found, fun member => ?_⟩
  cases list with
  | nil => exact member
  | cons first rest => exact mem_destutter' single member

/-- Merging finds the best of what was found, where an item may be found twice. -/
theorem isBest_mergeBest {tag : α → τ} [DecidableEq τ] {found : List α}
    (single : ∀ left ∈ found, ∀ right ∈ found, tag left = tag right → left = right)
    (tagged : ∀ left right, rank left = rank right → tag left = tag right) :
    IsBest rank k {item | item ∈ found} (mergeBest rank k tag found) := by
  have strict : ((found.insertionSort (rank · ≤ rank ·)).destutter (tag · ≠ tag ·)).Pairwise
      (rank · < rank ·) := by
    have weak := (insertionSort_sorted rank found).sublist
      (List.destutter_sublist (tag · ≠ tag ·) _)
    have apart := List.isChain_destutter (fun left right => tag left ≠ tag right)
      (found.insertionSort (rank · ≤ rank ·))
    have trans : IsTrans α fun left right => rank left < rank right :=
      ⟨fun _ _ _ before after => lt_trans before after⟩
    refine List.IsChain.pairwise (List.isChain_iff_forall_rel_of_append_cons_cons.mpr ?_)
    intro left right front back split
    exact lt_of_le_of_ne
      (List.isChain_iff_forall_rel_of_append_cons_cons.mp weak.isChain split)
      fun same => List.isChain_iff_forall_rel_of_append_cons_cons.mp apart split
        (tagged left right same)
  refine (IsBest.take strict).congr fun item => ?_
  rw [Set.mem_ofPred_eq, Set.mem_ofPred_eq, mem_destutter, List.mem_insertionSort]
  intro left isLeft right isRight
  exact single left ((List.mem_insertionSort _).mp isLeft) right
    ((List.mem_insertionSort _).mp isRight)

end FocalVector.Foundation
