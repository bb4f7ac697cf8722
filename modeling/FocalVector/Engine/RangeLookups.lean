import FocalVector.Engine.MetadataIndex
import FocalVector.Foundation.Checked

/-!
Contract: looking up ranges in the metadata index never panics.

An ordered map refuses a range whose start is above its end by a panic. The index orders
numbers by `total_cmp` of a canonical form while it tests the bounds by the comparison of
floating-point numbers, so that the tests imply the order is a fact about both.

Owns: the candidates of a filter with the panics of the range lookup, and that they are the
points the filter matches.

Does not own: what an index holds.
-/

namespace FocalVector.Engine

open FocalVector.Foundation

namespace MetadataIndex

/-- The start of a range is not above its end. -/
def BoundsInOrder (gte lt : Option F64) : Prop :=
  ∀ lower ∈ gte, ∀ upper ∈ lt, lower.canonical.totalPlace ≤ upper.canonical.totalPlace

instance (gte lt : Option F64) : Decidable (BoundsInOrder gte lt) := by
  unfold BoundsInOrder
  infer_instance

/-- `BTreeMap::range` -/
def rangeOf (values : Std.ExtTreeMap Int IdSet) (gte lt : Option F64) :
    Checked Empty (List (Int × IdSet)) := do
  Checked.assert (BoundsInOrder gte lt)
  return values.toList.filter fun entry => inBounds gte lt entry.1

/-- `range`, with the panic of the lookup -/
def lookupRange (index : MetadataIndex) (field : String) (gte lt : Option F64) :
    Checked Empty IdSet :=
  if gte.any F64.isNan || lt.any F64.isNan then
    return ∅
  else if gte.any fun lower => lt.any fun upper => lower.ge upper then
    return ∅
  else do
    let entries ← rangeOf (index.numeric field) gte lt
    return entries.foldl (fun ids entry => ids ∪ entry.2) ∅

mutual

/-- `candidates`, with the panics of the lookups -/
def lookup (index : MetadataIndex) : Filter → Checked Empty IdSet
  | .matchAll => return index.allIds
  | .eq field value =>
    match ScalarKey.fromValue value with
    | some key => return index.equality field key
    | none => return ∅
  | .range field gte lt => index.lookupRange field gte lt
  | .and filters => index.lookupAnd filters
  | .or filters => index.lookupOr ∅ filters
  | .not filter => do
      let excluded ← index.lookup filter
      return index.allIds \ excluded

def lookupAnd (index : MetadataIndex) : List Filter → Checked Empty IdSet
  | [] => return index.allIds
  | first :: rest => do
      let current ← index.lookup first
      index.lookupRetaining current rest

def lookupRetaining (index : MetadataIndex) (current : IdSet) :
    List Filter → Checked Empty IdSet
  | [] => return current
  | filter :: rest => do
      let next ← index.lookup filter
      let kept := current ∩ next
      if kept.isEmpty then return kept else index.lookupRetaining kept rest

def lookupOr (index : MetadataIndex) (current : IdSet) : List Filter → Checked Empty IdSet
  | [] => return current
  | filter :: rest => do
      let next ← index.lookup filter
      index.lookupOr (current ∪ next) rest

end

theorem boundsInOrder_of_tests {gte lt : Option F64} (lowerIsNumber : gte.any F64.isNan = false)
    (upperIsNumber : lt.any F64.isNan = false)
    (below : (gte.any fun lower => lt.any fun upper => lower.ge upper) = false) :
    BoundsInOrder gte lt := by
  rintro lower ⟨⟩ upper ⟨⟩
  simp only [Option.any_some] at lowerIsNumber upperIsNumber below
  rw [F64.totalPlace_canonical_le]
  unfold F64.ge at below
  simp only [lowerIsNumber, upperIsNumber, Bool.not_false, Bool.true_and,
    decide_eq_false_iff_not] at below
  omega

theorem lookupRange_eq (index : MetadataIndex) (field : String) (gte lt : Option F64) :
    index.lookupRange field gte lt = .ok (index.range field gte lt) := by
  unfold lookupRange range
  split
  · rfl
  next numbers =>
    split
    · rfl
    next below =>
      rw [Bool.or_eq_true, not_or, Bool.not_eq_true, Bool.not_eq_true] at numbers
      have ordered := boundsInOrder_of_tests numbers.1 numbers.2 (Bool.not_eq_true _ ▸ below)
      have found : rangeOf (index.numeric field) gte lt = .ok
          ((index.numeric field).toList.filter fun entry => inBounds gte lt entry.1) :=
        Checked.bind_ok (Checked.assert_of ordered)
      rw [Checked.bind_ok found]
      rfl

mutual

theorem lookup_eq (index : MetadataIndex) : (filter : Filter) →
    index.lookup filter = .ok (index.candidates filter)
  | .matchAll => rfl
  | .eq field value => by
      unfold lookup candidates
      cases ScalarKey.fromValue value <;> rfl
  | .range field gte lt => lookupRange_eq index field gte lt
  | .and filters => lookupAnd_eq index filters
  | .or filters => lookupOr_eq index ∅ filters
  | .not filter => by
      unfold lookup
      rw [Checked.bind_ok (lookup_eq index filter)]
      rfl

theorem lookupAnd_eq (index : MetadataIndex) : (filters : List Filter) →
    index.lookupAnd filters = .ok (index.candidatesAnd filters)
  | [] => rfl
  | first :: rest => by
      unfold lookupAnd
      rw [Checked.bind_ok (lookup_eq index first)]
      exact lookupRetaining_eq index _ rest

theorem lookupRetaining_eq (index : MetadataIndex) (current : IdSet) : (filters : List Filter) →
    index.lookupRetaining current filters = .ok (index.retainAll current filters)
  | [] => rfl
  | filter :: rest => by
      unfold lookupRetaining retainAll
      rw [Checked.bind_ok (lookup_eq index filter)]
      simp only
      split
      · rfl
      · exact lookupRetaining_eq index _ rest

theorem lookupOr_eq (index : MetadataIndex) (current : IdSet) : (filters : List Filter) →
    index.lookupOr current filters = .ok (index.candidatesOr current filters)
  | [] => rfl
  | filter :: rest => by
      unfold lookupOr
      rw [Checked.bind_ok (lookup_eq index filter)]
      exact lookupOr_eq index _ rest

end

/-- Over points with distinct ids, the candidates of every filter are found without a panic
and are the ids of the points whose metadata it matches. -/
theorem candidates_are_matches (conversion : IntegerConversion) {points : List StoredPoint}
    (distinct : (points.map StoredPoint.id).Nodup) (filter : Filter) :
    ∃ ids, (build conversion points).lookup filter = .ok ids ∧
      ∀ id, id ∈ ids ↔ ∃ point ∈ points, point.id = id ∧
        Filter.matchesMetadata conversion point.metadata filter = true :=
  ⟨_, lookup_eq _ filter, exact_candidates conversion distinct filter⟩

/-- A negative zero is in a range that starts at zero. -/
theorem negative_zero_in_range :
    let index := build IntegerConversion.zero
      [⟨"p", [], (∅ : Metadata).insert "x" (.float ⟨0x8000000000000000⟩), 1⟩]
    ∃ ids, index.lookup (.range "x" (some ⟨0⟩) none) = .ok ids ∧ "p" ∈ ids := by
  intro index
  obtain ⟨ids, found, isMatch⟩ := candidates_are_matches IntegerConversion.zero
    (by decide : (List.map StoredPoint.id
      [⟨"p", [], (∅ : Metadata).insert "x" (.float ⟨0x8000000000000000⟩), 1⟩]).Nodup)
    (.range "x" (some ⟨0⟩) none)
  exact ⟨ids, found, (isMatch "p").mpr ⟨_, List.mem_singleton_self _, rfl, by decide +kernel⟩⟩

end MetadataIndex

end FocalVector.Engine
