import FocalVector.Engine.Filter

/-!
Contract: the index that answers metadata filters.

The index keeps, for a fixed list of points, the ids by field and value and by
field and number, and evaluates a filter by set operations. On the points it was
built from it finds exactly those the filter matches, also below a negation,
where an index that only over-approximated would lose points.

Owns: `MetadataIndex` and the exactness of its candidates.

Does not own: searching. A map from fields or values whose absent keys stand for
the empty set is a function here; only the ordered map of the numbers of a field
is walked in order.
-/

namespace FocalVector.Engine

open FocalVector.Foundation

section

variable (conversion : IntegerConversion)

/-! ## The index -/

/-- A value that points are looked up by. -/
inductive ScalarKey where
  | keyword (value : String)
  | integer (value : Int64)
  | float (bits : UInt64)
  | boolean (value : Bool)
deriving DecidableEq

def ScalarKey.fromValue : Value → Option ScalarKey
  | .keyword value => some (.keyword value)
  | .integer value => some (.integer value)
  | .float value => if value.isNan then none else some (.float value.canonical.bits)
  | .boolean value => some (.boolean value)

/-- The ids of a list of points, by field and value, and by field and number in
the order of the numbers. -/
structure MetadataIndex where
  allIds : IdSet
  equality : String → ScalarKey → IdSet
  numeric : String → Std.ExtTreeMap Int IdSet

namespace MetadataIndex

def empty : MetadataIndex := ⟨∅, fun _ _ => ∅, fun _ => ∅⟩

def addKey (index : MetadataIndex) (id field : String) (key : ScalarKey) : MetadataIndex :=
  { index with equality := fun other otherKey =>
      if other = field ∧ otherKey = key then (index.equality other otherKey).insert id
      else index.equality other otherKey }

def addNumber (index : MetadataIndex) (id field : String) (number : F64) : MetadataIndex :=
  let place := number.canonical.totalPlace
  { index with numeric := fun other =>
      if other = field then
        (index.numeric other).insert place (((index.numeric other).getD place ∅).insert id)
      else index.numeric other }

/-- The inner loop body of `build`. -/
def addValue (id : String) (index : MetadataIndex) (entry : String × Value) : MetadataIndex :=
  let keyed := match ScalarKey.fromValue entry.2 with
    | some key => index.addKey id entry.1 key
    | none => index
  match numericValue conversion entry.2 with
  | some number => keyed.addNumber id entry.1 number
  | none => keyed

/-- The loop body of `build`. -/
def addPoint (index : MetadataIndex) (point : StoredPoint) : MetadataIndex :=
  point.metadata.toList.foldl (addValue conversion point.id)
    { index with allIds := index.allIds.insert point.id }

def build (points : List StoredPoint) : MetadataIndex := points.foldl (addPoint conversion) empty

def inBounds (gte lt : Option F64) (place : Int) : Bool :=
  gte.all (fun lower => decide (lower.canonical.totalPlace ≤ place)) &&
    lt.all (fun upper => decide (place < upper.canonical.totalPlace))

def range (index : MetadataIndex) (field : String) (gte lt : Option F64) : IdSet :=
  if gte.any F64.isNan || lt.any F64.isNan then ∅
  else if gte.any fun lower => lt.any fun upper => lower.ge upper then ∅
  else
    ((index.numeric field).toList.filter fun entry => inBounds gte lt entry.1).foldl
      (fun ids entry => ids ∪ entry.2) ∅

mutual

def candidates (index : MetadataIndex) : Filter → IdSet
  | .matchAll => index.allIds
  | .eq field value =>
    match ScalarKey.fromValue value with
    | some key => index.equality field key
    | none => ∅
  | .range field gte lt => index.range field gte lt
  | .and filters => index.candidatesAnd filters
  | .or filters => index.candidatesOr ∅ filters
  | .not filter => index.allIds \ index.candidates filter

def candidatesAnd (index : MetadataIndex) : List Filter → IdSet
  | [] => index.allIds
  | first :: rest => index.retainAll (index.candidates first) rest

/-- The loop of a conjunction, which stops as soon as nothing is left. -/
def retainAll (index : MetadataIndex) (current : IdSet) : List Filter → IdSet
  | [] => current
  | filter :: rest =>
    let kept := current ∩ index.candidates filter
    if kept.isEmpty then kept else index.retainAll kept rest

def candidatesOr (index : MetadataIndex) (current : IdSet) : List Filter → IdSet
  | [] => current
  | filter :: rest => index.candidatesOr (current ∪ index.candidates filter) rest

end

end MetadataIndex

end

/-! ## What an index holds -/

theorem foldl_adds {σ β γ : Type} {step : σ → γ → σ} (has : σ → β → Prop) (new : γ → β → Prop)
    (adds : ∀ state entry item, has (step state entry) item ↔ has state item ∨ new entry item)
    (entries : List γ) (state : σ) (item : β) :
    has (entries.foldl step state) item ↔ has state item ∨ ∃ entry ∈ entries, new entry item := by
  induction entries generalizing state with
  | nil => simp
  | cons entry rest ih =>
    rw [List.foldl_cons, ih, adds, or_assoc]
    simp only [List.mem_cons, exists_eq_or_imp]

namespace MetadataIndex

variable {conversion : IntegerConversion} {points : List StoredPoint}

def HasKey (index : MetadataIndex) (item : String × ScalarKey × String) : Prop :=
  item.2.2 ∈ index.equality item.1 item.2.1

def HasNumber (index : MetadataIndex) (item : String × Int × String) : Prop :=
  item.2.2 ∈ (index.numeric item.1).getD item.2.1 ∅

def Keyed (entry : String × Value) (item : String × ScalarKey × String) : Prop :=
  item.1 = entry.1 ∧ ScalarKey.fromValue entry.2 = some item.2.1

variable (conversion) in
def Numbered (entry : String × Value) (item : String × Int × String) : Prop :=
  item.1 = entry.1 ∧ ∃ number, numericValue conversion entry.2 = some number ∧
    number.canonical.totalPlace = item.2.1

variable {id : String}

theorem mem_insert_iff {ids : IdSet} {other : String} :
    other ∈ ids.insert id ↔ other ∈ ids ∨ other = id := by
  rw [Std.ExtTreeSet.mem_insert, Std.compare_eq_iff_eq, or_comm, eq_comm]

variable (conversion) in
theorem hasKey_addValue (id : String) (index : MetadataIndex) (entry : String × Value)
    (item : String × ScalarKey × String) :
    (addValue conversion id index entry).HasKey item ↔
      index.HasKey item ∨ item.2.2 = id ∧ Keyed entry item := by
  have keyed : (addValue conversion id index entry).equality =
      (match ScalarKey.fromValue entry.2 with
        | some key => index.addKey id entry.1 key
        | none => index).equality := by
    unfold addValue
    cases numericValue conversion entry.2 <;> rfl
  unfold HasKey Keyed
  rw [keyed]
  cases ScalarKey.fromValue entry.2 with
  | none => simp
  | some key =>
    simp only [addKey, Option.some.injEq]
    split
    next same =>
      rw [mem_insert_iff]
      simp [same]
    next differ =>
      refine ⟨.inl, fun either => either.resolve_right ?_⟩
      rintro ⟨-, sameField, sameKey⟩
      exact differ ⟨sameField, sameKey.symm⟩

variable (conversion) in
theorem hasNumber_addValue (id : String) (index : MetadataIndex) (entry : String × Value)
    (item : String × Int × String) :
    (addValue conversion id index entry).HasNumber item ↔
      index.HasNumber item ∨ item.2.2 = id ∧ Numbered conversion entry item := by
  have keyed : (match ScalarKey.fromValue entry.2 with
      | some key => index.addKey id entry.1 key
      | none => index).numeric = index.numeric := by
    cases ScalarKey.fromValue entry.2 <;> rfl
  unfold HasNumber Numbered addValue
  cases numericValue conversion entry.2 with
  | none => simp [keyed]
  | some number =>
    simp only [addNumber, keyed, Option.some.injEq, exists_eq_left']
    split
    next same =>
      rw [Std.ExtTreeMap.getD_insert]
      by_cases samePlace : number.canonical.totalPlace = item.2.1
      · rw [if_pos (Std.compare_eq_iff_eq.mpr samePlace), mem_insert_iff, samePlace]
        simp [same]
      · rw [if_neg (mt Std.compare_eq_iff_eq.mp samePlace)]
        simp [samePlace]
    next differ => simp [differ]

theorem allIds_foldl_addValue (id : String) (index : MetadataIndex)
    (entries : List (String × Value)) :
    (entries.foldl (addValue conversion id) index).allIds = index.allIds := by
  induction entries generalizing index with
  | nil => rfl
  | cons entry rest ih =>
    rw [List.foldl_cons, ih]
    unfold addValue
    cases ScalarKey.fromValue entry.2 <;> cases numericValue conversion entry.2 <;> rfl

theorem mem_allIds_build :
    id ∈ (build conversion points).allIds ↔ ∃ point ∈ points, point.id = id := by
  have collected := foldl_adds (fun index id => id ∈ index.allIds) (fun point id => point.id = id)
    (fun index point id => by
      show id ∈ (addPoint conversion index point).allIds ↔ _
      unfold addPoint
      rw [allIds_foldl_addValue, mem_insert_iff, @eq_comm _ id]) points empty id
  simpa [build, empty] using collected

variable {field : String}

theorem exists_entry_iff {point : StoredPoint} (indexed : Value → Prop) :
    (∃ entry ∈ point.metadata.toList, id = point.id ∧ field = entry.1 ∧ indexed entry.2) ↔
      point.id = id ∧ ∃ value, point.metadata[field]? = some value ∧ indexed value := by
  constructor
  · rintro ⟨⟨name, value⟩, member, rfl, rfl, holds⟩
    exact ⟨rfl, value, Std.ExtTreeMap.mem_toList_iff_getElem?_eq_some.mp member, holds⟩
  · rintro ⟨rfl, value, found, holds⟩
    exact ⟨(field, value), Std.ExtTreeMap.mem_toList_iff_getElem?_eq_some.mpr found, rfl, rfl, holds⟩

theorem hasKey_build {key : ScalarKey} :
    id ∈ (build conversion points).equality field key ↔ ∃ point ∈ points, point.id = id ∧
      ∃ value, point.metadata[field]? = some value ∧ ScalarKey.fromValue value = some key := by
  have adds : ∀ index point item, (addPoint conversion index point).HasKey item ↔
      index.HasKey item ∨ ∃ entry ∈ point.metadata.toList, item.2.2 = point.id ∧ Keyed entry item :=
    fun _ point item => foldl_adds HasKey _ (hasKey_addValue conversion point.id) _ _ item
  have collected := foldl_adds HasKey _ adds points empty (field, key, id)
  have none : ¬ empty.HasKey (field, key, id) := Std.ExtTreeSet.not_mem_empty
  refine collected.trans ((or_iff_right none).trans (exists_congr fun point =>
    and_congr_right fun _ => ?_))
  exact exists_entry_iff fun value => ScalarKey.fromValue value = some key

theorem hasNumber_build {place : Int} :
    id ∈ ((build conversion points).numeric field).getD place ∅ ↔
      ∃ point ∈ points, point.id = id ∧ ∃ value, point.metadata[field]? = some value ∧
        ∃ number, numericValue conversion value = some number ∧
          number.canonical.totalPlace = place := by
  have adds : ∀ index point item, (addPoint conversion index point).HasNumber item ↔
      index.HasNumber item ∨ ∃ entry ∈ point.metadata.toList,
        item.2.2 = point.id ∧ Numbered conversion entry item :=
    fun _ point item => foldl_adds HasNumber _ (hasNumber_addValue conversion point.id) _ _ item
  have collected := foldl_adds HasNumber _ adds points empty (field, place, id)
  have none : ¬ empty.HasNumber (field, place, id) := by
    unfold HasNumber empty
    simp
  refine collected.trans ((or_iff_right none).trans (exists_congr fun point =>
    and_congr_right fun _ => ?_))
  exact exists_entry_iff fun value => ∃ number, numericValue conversion value = some number ∧
    number.canonical.totalPlace = place

/-! ## Exactness -/

/-- Values have one key exactly when they are equal. -/
theorem fromValue_eq_iff {left right : Value} :
    (∃ key, ScalarKey.fromValue left = some key ∧ ScalarKey.fromValue right = some key) ↔
      left.eq right = true := by
  cases left with
  | float left =>
    cases right with
    | float right =>
      have bits : left.canonical.bits = right.canonical.bits ↔ left.place = right.place := by
        rw [← F64.canonical_eq_iff]
        exact ⟨fun same => congrArg F64.mk same, fun same => congrArg F64.bits same⟩
      simp [ScalarKey.fromValue, Value.eq, F64.eq, ← bits, @eq_comm _ left.canonical.bits]
      tauto
    | _ => simp [ScalarKey.fromValue, Value.eq]
  | keyword left => cases right <;> simp [ScalarKey.fromValue, Value.eq, @eq_comm _ left]
  | integer left => cases right <;> simp [ScalarKey.fromValue, Value.eq, @eq_comm _ left]
  | boolean left => cases right <;> simp [ScalarKey.fromValue, Value.eq, @eq_comm _ left]

variable {number : F64}

theorem numericValue_not_nan {value : Value}
    (isNumber : numericValue conversion value = some number) : number.isNan = false := by
  apply F64.isNan_of_isFinite
  cases value with
  | integer integer =>
    cases isNumber
    exact conversion.ofInteger_finite integer
  | float found =>
    simp only [numericValue] at isNumber
    split at isNumber
    next finite =>
      cases isNumber
      exact finite
    next => cases isNumber
  | keyword _ => cases isNumber
  | boolean _ => cases isNumber

variable {gte lt : Option F64}

theorem inBounds_iff (isNumber : number.isNan = false)
    (lower : gte.any F64.isNan = false) (upper : lt.any F64.isNan = false) :
    inBounds gte lt number.canonical.totalPlace =
      (gte.all (fun lower => number.ge lower) && lt.all (fun upper => number.lt upper)) := by
  have low : gte.all (fun lower => decide (lower.canonical.totalPlace ≤
      number.canonical.totalPlace)) = gte.all (fun lower => number.ge lower) := by
    cases gte with
    | none => rfl
    | some bound =>
      have notNan : bound.isNan = false := lower
      simp [F64.ge, isNumber, notNan, F64.totalPlace_canonical_le]
  have high : lt.all (fun upper => decide (number.canonical.totalPlace <
      upper.canonical.totalPlace)) = lt.all (fun upper => number.lt upper) := by
    cases lt with
    | none => rfl
    | some bound =>
      have notNan : bound.isNan = false := upper
      simp [F64.lt, isNumber, notNan, F64.totalPlace_canonical_lt]
  unfold inBounds
  rw [low, high]

theorem mem_range {index : MetadataIndex} :
    id ∈ index.range field gte lt ↔
      gte.any F64.isNan = false ∧ lt.any F64.isNan = false ∧
        (gte.any fun lower => lt.any fun upper => lower.ge upper) = false ∧
        ∃ place, inBounds gte lt place = true ∧ id ∈ (index.numeric field).getD place ∅ := by
  have collected := foldl_adds (fun (ids : IdSet) id => id ∈ ids)
    (fun (entry : Int × IdSet) id => id ∈ entry.2)
    (fun (ids : IdSet) entry id => (Std.ExtTreeSet.mem_union_iff : id ∈ ids ∪ entry.2 ↔ _))
    ((index.numeric field).toList.filter fun entry => inBounds gte lt entry.1) ∅ id
  have entries : (∃ entry ∈ (index.numeric field).toList.filter fun entry => inBounds gte lt entry.1,
      id ∈ entry.2) ↔
        ∃ place, inBounds gte lt place = true ∧ id ∈ (index.numeric field).getD place ∅ := by
    simp only [List.mem_filter, Std.ExtTreeMap.getD_eq_getD_getElem?]
    constructor
    · rintro ⟨⟨place, ids⟩, ⟨member, within⟩, found⟩
      rw [Std.ExtTreeMap.mem_toList_iff_getElem?_eq_some] at member
      exact ⟨place, within, by rwa [member]⟩
    · rintro ⟨place, within, found⟩
      cases lookup : (index.numeric field)[place]? with
      | none => simp [lookup] at found
      | some ids =>
        rw [lookup] at found
        exact ⟨(place, ids), ⟨Std.ExtTreeMap.mem_toList_iff_getElem?_eq_some.mpr lookup, within⟩,
          found⟩
  rw [entries] at collected
  unfold range
  cases gte.any F64.isNan with
  | true => simp
  | false =>
    cases lt.any F64.isNan with
    | true => simp
    | false =>
      cases gte.any fun lower => lt.any fun upper => lower.ge upper with
      | true => simp
      | false => simpa using collected

theorem bounds_ordered (lower : gte.all (fun lower => number.ge lower) = true)
    (upper : lt.all (fun upper => number.lt upper) = true) :
    gte.any F64.isNan = false ∧ lt.any F64.isNan = false ∧
      (gte.any fun lower => lt.any fun upper => lower.ge upper) = false := by
  cases gte with
  | none =>
    cases lt with
    | none => simp
    | some bound =>
      simp only [Option.all_some, F64.lt, Bool.and_eq_true, Bool.not_eq_true',
        decide_eq_true_eq] at upper
      simp [upper.1.2]
  | some low =>
    simp only [Option.all_some, F64.ge, Bool.and_eq_true, Bool.not_eq_true',
      decide_eq_true_eq] at lower
    cases lt with
    | none => simp [lower.1.2]
    | some high =>
      simp only [Option.all_some, F64.lt, Bool.and_eq_true, Bool.not_eq_true',
        decide_eq_true_eq] at upper
      have below : low.place < high.place := lt_of_le_of_lt lower.2 upper.2
      simp [lower.1.2, upper.1.2, F64.ge, below]

/-- The ids are those of the points that are admitted. -/
def Exact (points : List StoredPoint) (ids : IdSet) (admits : Metadata → Bool) : Prop :=
  ∀ id, id ∈ ids ↔ ∃ point ∈ points, point.id = id ∧ admits point.metadata = true

theorem exact_eq (field : String) (value : Value) :
    Exact points ((build conversion points).candidates (.eq field value))
      (Filter.matchesMetadata conversion · (.eq field value)) := by
  intro id
  have matched : ∀ metadata : Metadata,
      Filter.matchesMetadata conversion metadata (.eq field value) = true ↔
        ∃ found, metadata[field]? = some found ∧
          ∃ key, ScalarKey.fromValue found = some key ∧ ScalarKey.fromValue value = some key := by
    intro metadata
    unfold Filter.matchesMetadata
    rw [Option.any_eq_true]
    exact exists_congr fun found => and_congr_right fun _ => fromValue_eq_iff.symm
  simp only [matched, candidates]
  cases isKey : ScalarKey.fromValue value with
  | none => simp
  | some key =>
    rw [hasKey_build]
    simp [eq_comm]

theorem exact_range (field : String) (gte lt : Option F64) :
    Exact points ((build conversion points).candidates (.range field gte lt))
      (Filter.matchesMetadata conversion · (.range field gte lt)) := by
  intro id
  have matched : ∀ metadata : Metadata,
      Filter.matchesMetadata conversion metadata (.range field gte lt) = true ↔
        ∃ value, metadata[field]? = some value ∧
          ∃ number, numericValue conversion value = some number ∧
            (gte.all (fun lower => number.ge lower) && lt.all (fun upper => number.lt upper)) =
              true := by
    intro metadata
    unfold Filter.matchesMetadata
    rw [Option.any_eq_true]
    simp only [Option.bind_eq_some_iff]
    constructor
    · rintro ⟨number, ⟨value, found, isNumber⟩, within⟩
      exact ⟨value, found, number, isNumber, within⟩
    · rintro ⟨value, found, number, isNumber, within⟩
      exact ⟨number, ⟨value, found, isNumber⟩, within⟩
  simp only [matched, candidates, mem_range, hasNumber_build]
  constructor
  · rintro ⟨lower, upper, -, place, within, point, member, sameId, value, found, number, isNumber,
      rfl⟩
    refine ⟨point, member, sameId, value, found, number, isNumber, ?_⟩
    rwa [← inBounds_iff (numericValue_not_nan isNumber) lower upper]
  · rintro ⟨point, member, sameId, value, found, number, isNumber, within⟩
    obtain ⟨aboveLower, belowUpper⟩ := Bool.and_eq_true_iff.mp within
    obtain ⟨lower, upper, ordered⟩ := bounds_ordered aboveLower belowUpper
    refine ⟨lower, upper, ordered, number.canonical.totalPlace, ?_, point, member, sameId, value,
      found, number, isNumber, rfl⟩
    rwa [inBounds_iff (numericValue_not_nan isNumber) lower upper]

theorem exact_allIds : Exact points (build conversion points).allIds fun _ => true := by
  intro id
  rw [mem_allIds_build]
  simp

namespace Exact

variable {left right : IdSet} {first second : Metadata → Bool}

theorem congr (exact : Exact points left first) (same : ∀ metadata, first metadata = second metadata) :
    Exact points left second := by
  rwa [← funext same]

theorem union (isLeft : Exact points left first) (isRight : Exact points right second) :
    Exact points (left ∪ right) fun metadata => first metadata || second metadata := by
  intro id
  rw [Std.ExtTreeSet.mem_union_iff, isLeft, isRight, ← exists_or]
  refine exists_congr fun point => ?_
  rw [Bool.or_eq_true]
  tauto

/-- Points with distinct ids are told apart by them. -/
theorem mem_iff (distinct : (points.map StoredPoint.id).Nodup) (exact : Exact points left first)
    {point : StoredPoint} (member : point ∈ points) : point.id ∈ left ↔ first point.metadata = true := by
  rw [exact]
  constructor
  · rintro ⟨found, isFound, sameId, admitted⟩
    rwa [← List.inj_on_of_nodup_map distinct isFound member sameId]
  · intro admitted
    exact ⟨point, member, rfl, admitted⟩

theorem of_mem_iff (known : ∀ id ∈ left, ∃ point ∈ points, point.id = id)
    (each : ∀ point ∈ points, point.id ∈ left ↔ first point.metadata = true) :
    Exact points left first := by
  intro id
  constructor
  · intro member
    obtain ⟨point, isPoint, rfl⟩ := known id member
    exact ⟨point, isPoint, rfl, (each point isPoint).mp member⟩
  · rintro ⟨point, isPoint, rfl, admitted⟩
    exact (each point isPoint).mpr admitted

theorem known (exact : Exact points left first) {id : String} (member : id ∈ left) :
    ∃ point ∈ points, point.id = id := by
  obtain ⟨point, isPoint, sameId, -⟩ := (exact id).mp member
  exact ⟨point, isPoint, sameId⟩

theorem inter (distinct : (points.map StoredPoint.id).Nodup) (isLeft : Exact points left first)
    (isRight : Exact points right second) :
    Exact points (left ∩ right) fun metadata => first metadata && second metadata := by
  refine of_mem_iff (fun id member => isLeft.known (Std.ExtTreeSet.mem_inter_iff.mp member).1)
    fun point member => ?_
  rw [Std.ExtTreeSet.mem_inter_iff, isLeft.mem_iff distinct member, isRight.mem_iff distinct member,
    Bool.and_eq_true]

theorem diff (distinct : (points.map StoredPoint.id).Nodup) (isLeft : Exact points left fun _ => true)
    (isRight : Exact points right second) :
    Exact points (left \ right) fun metadata => !second metadata := by
  refine of_mem_iff (fun id member => isLeft.known (Std.ExtTreeSet.mem_diff_iff.mp member).1)
    fun point member => ?_
  rw [Std.ExtTreeSet.mem_diff_iff, isLeft.mem_iff distinct member, isRight.mem_iff distinct member]
  simp

end Exact

mutual

theorem exact_candidates (conversion : IntegerConversion) (distinct : (points.map StoredPoint.id).Nodup) : (filter : Filter) →
    Exact points ((build conversion points).candidates filter)
      (Filter.matchesMetadata conversion · filter)
  | .matchAll => exact_allIds
  | .eq field value => exact_eq field value
  | .range field gte lt => exact_range field gte lt
  | .and filters => exact_candidatesAnd conversion distinct filters
  | .or filters => by
      have none : Exact points ∅ fun _ => false := fun id => by simp
      exact (exact_candidatesOr conversion distinct filters none).congr fun _ => Bool.false_or _
  | .not filter => exact_allIds.diff distinct (exact_candidates conversion distinct filter)

theorem exact_candidatesAnd (conversion : IntegerConversion) (distinct : (points.map StoredPoint.id).Nodup) :
    (filters : List Filter) →
    Exact points ((build conversion points).candidatesAnd filters)
      (Filter.matchesAll conversion · filters)
  | [] => exact_allIds
  | first :: rest => exact_retainAll conversion distinct rest (exact_candidates conversion distinct first)

theorem exact_retainAll (conversion : IntegerConversion) (distinct : (points.map StoredPoint.id).Nodup) :
    (filters : List Filter) → {current : IdSet} → {admits : Metadata → Bool} →
    Exact points current admits →
    Exact points ((build conversion points).retainAll current filters)
      fun metadata => admits metadata && Filter.matchesAll conversion metadata filters
  | [], _, _, exact => exact.congr fun _ => (Bool.and_true _).symm
  | filter :: rest, current, admits, exact => by
      have kept := exact.inter distinct (exact_candidates conversion distinct filter)
      unfold retainAll
      simp only [Filter.matchesAll, ← Bool.and_assoc]
      split
      next isEmpty =>
        -- Nothing is left, so the remaining filters are not looked at.
        have none := Std.ExtTreeSet.isEmpty_iff.mp isEmpty
        rw [none] at kept ⊢
        refine Exact.of_mem_iff (fun id member => kept.known member) fun point member => ?_
        refine ⟨fun admitted => absurd admitted Std.ExtTreeSet.not_mem_empty, fun admitted => ?_⟩
        exact (kept.mem_iff distinct member).mpr (Bool.and_eq_true_iff.mp admitted).1
      next => exact exact_retainAll conversion distinct rest kept

theorem exact_candidatesOr (conversion : IntegerConversion) (distinct : (points.map StoredPoint.id).Nodup) :
    (filters : List Filter) → {current : IdSet} → {admits : Metadata → Bool} →
    Exact points current admits →
    Exact points ((build conversion points).candidatesOr current filters)
      fun metadata => admits metadata || Filter.matchesAny conversion metadata filters
  | [], _, _, exact => exact.congr fun _ => (Bool.or_false _).symm
  | filter :: rest, current, admits, exact => by
      have joined := exact_candidatesOr conversion distinct rest
        (exact.union (exact_candidates conversion distinct filter))
      exact joined.congr fun _ => Bool.or_assoc _ _ _

end

end MetadataIndex

end FocalVector.Engine
