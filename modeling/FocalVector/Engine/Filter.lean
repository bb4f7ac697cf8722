import FocalVector.Engine.Collection

/-!
Contract: metadata filters.

A filter is evaluated on the metadata of a point. Numbers are compared by value,
so both zeros are equal and a NaN is equal to nothing; a range also takes
integers, as the numbers they convert to.

Owns: the comparisons of double-precision numbers and `Filter`.

Does not own: indexes over metadata.
-/

namespace FocalVector.Engine

open FocalVector.Foundation

/-! ## Numbers -/

/-- The exponent is all ones and the fraction is not zero. -/
def F64.isNan (value : F64) : Bool :=
  !value.isFinite && value.bits &&& 0x000fffffffffffff != 0

/-- The magnitude with the sign. Both zeros are 0, and on numbers that are not
NaN this is the order of their values. -/
def F64.place (value : F64) : Int :=
  if value.bits < 0x8000000000000000 then value.bits.toNat
  else 0x8000000000000000 - value.bits.toNat

/-- `==` -/
def F64.eq (left right : F64) : Bool :=
  !left.isNan && !right.isNan && left.place == right.place

/-- `<` -/
def F64.lt (left right : F64) : Bool :=
  !left.isNan && !right.isNan && decide (left.place < right.place)

/-- `>=` -/
def F64.ge (left right : F64) : Bool :=
  !left.isNan && !right.isNan && decide (right.place ≤ left.place)

/-- The place of a number in the order of `total_cmp`, which compares the bits as
a signed word, with the others flipped where the sign is set. -/
def F64.totalPlace (value : F64) : Int :=
  if value.bits < 0x8000000000000000 then value.bits.toNat
  else 0x7fffffffffffffff - value.bits.toNat

/-- `if value == 0.0 { 0.0 } else { value }` -/
def F64.canonical (value : F64) : F64 := if value.isZero then ⟨0⟩ else value

/-- `value as f64` for integers, which is never an infinity or a NaN. -/
structure IntegerConversion where
  ofInteger : Int64 → F64
  ofInteger_finite : ∀ value, (ofInteger value).isFinite = true

def IntegerConversion.zero : IntegerConversion where
  ofInteger _ := ⟨0⟩
  ofInteger_finite _ := by decide

namespace F64

variable {left right value : F64}

theorem isNan_of_isFinite (finite : value.isFinite = true) : value.isNan = false := by
  simp [isNan, finite]

theorem place_eq : value.place =
    if value.bits.toNat < 2 ^ 63 then (value.bits.toNat : Int)
    else 2 ^ 63 - value.bits.toNat := by
  unfold place
  simp only [UInt64.lt_iff_toNat_lt]
  rfl

theorem totalPlace_eq : value.totalPlace =
    if value.bits.toNat < 2 ^ 63 then (value.bits.toNat : Int)
    else 2 ^ 63 - 1 - value.bits.toNat := by
  unfold totalPlace
  simp only [UInt64.lt_iff_toNat_lt]
  rfl

theorem isZero_iff : value.isZero = true ↔ value.place = 0 := by
  have low : (value.bits &&& 0x7fffffffffffffff).toNat = value.bits.toNat % 2 ^ 63 := by
    rw [UInt64.toNat_and]
    exact Nat.and_two_pow_sub_one_eq_mod value.bits.toNat 63
  have bound := value.bits.toNat_lt
  have zero : (0 : UInt64).toNat = 0 := rfl
  unfold isZero
  rw [place_eq, beq_iff_eq, ← UInt64.toNat_inj, low, zero]
  split <;> omega

theorem totalPlace_canonical :
    value.canonical.totalPlace = if value.place < 0 then value.place - 1 else value.place := by
  unfold canonical
  by_cases zero : value.isZero = true
  · rw [if_pos zero, isZero_iff.mp zero]
    rfl
  · rw [isZero_iff, place_eq] at zero
    rw [if_neg (by rwa [isZero_iff, place_eq]), totalPlace_eq, place_eq]
    have bound := value.bits.toNat_lt
    split at zero
    next positive => simp only [if_pos positive]; split <;> omega
    next negative => simp only [if_neg negative]; split <;> omega

theorem totalPlace_canonical_le :
    left.canonical.totalPlace ≤ right.canonical.totalPlace ↔ left.place ≤ right.place := by
  rw [totalPlace_canonical, totalPlace_canonical]
  split <;> split <;> omega

theorem totalPlace_canonical_lt :
    left.canonical.totalPlace < right.canonical.totalPlace ↔ left.place < right.place := by
  rw [← not_le, ← not_le, totalPlace_canonical_le]

theorem eq_of_place (nonzero : left.place ≠ 0) (same : left.place = right.place) :
    left = right := by
  have leftBound := left.bits.toNat_lt
  have rightBound := right.bits.toNat_lt
  rw [place_eq] at nonzero same
  rw [place_eq] at same
  have bits : left.bits.toNat = right.bits.toNat := by
    split at same <;> split at same <;> omega
  cases left
  cases right
  exact congrArg F64.mk (UInt64.toNat_inj.mp bits)

theorem canonical_eq_iff : left.canonical = right.canonical ↔ left.place = right.place := by
  constructor
  · intro same
    have places := congrArg totalPlace same
    exact le_antisymm (totalPlace_canonical_le.mp places.le) (totalPlace_canonical_le.mp places.ge)
  · intro same
    unfold canonical
    by_cases zero : left.place = 0
    · rw [if_pos (isZero_iff.mpr zero), if_pos (isZero_iff.mpr (same ▸ zero))]
    · rw [if_neg (mt isZero_iff.mp zero), if_neg (mt isZero_iff.mp (same ▸ zero))]
      exact eq_of_place zero same

end F64

/-! ## Filters -/

/-- Values are compared by kind, numbers by value. -/
def Value.eq : Value → Value → Bool
  | .keyword left, .keyword right => left == right
  | .integer left, .integer right => left == right
  | .float left, .float right => left.eq right
  | .boolean left, .boolean right => left == right
  | _, _ => false

inductive Filter where
  | matchAll
  | eq (field : String) (value : Value)
  | range (field : String) (gte lt : Option F64)
  | and (filters : List Filter)
  | or (filters : List Filter)
  | not (filter : Filter)

section

variable (conversion : IntegerConversion)

def numericValue : Value → Option F64
  | .integer value => some (conversion.ofInteger value)
  | .float value => if value.isFinite then some value else none
  | _ => none

mutual

/-- `Filter::matches`. -/
def Filter.matchesMetadata (metadata : Metadata) : Filter → Bool
  | .matchAll => true
  | .eq field value => metadata[field]?.any (·.eq value)
  | .range field gte lt =>
    (metadata[field]?.bind (numericValue conversion)).any fun value =>
      gte.all (fun lower => value.ge lower) && lt.all (fun upper => value.lt upper)
  | .and filters => matchesAll metadata filters
  | .or filters => matchesAny metadata filters
  | .not filter => !filter.matchesMetadata metadata

def Filter.matchesAll (metadata : Metadata) : List Filter → Bool
  | [] => true
  | filter :: rest => filter.matchesMetadata metadata && matchesAll metadata rest

def Filter.matchesAny (metadata : Metadata) : List Filter → Bool
  | [] => false
  | filter :: rest => filter.matchesMetadata metadata || matchesAny metadata rest

end

end

end FocalVector.Engine
