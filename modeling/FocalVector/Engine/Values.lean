import FocalVector.Foundation.Checked
import FocalVector.Foundation.LittleEndian
import Std.Data.ExtTreeMap.Lemmas
import Std.Data.ExtTreeSet.Lemmas
import Mathlib.Data.List.Forall2
import Mathlib.Tactic.Basic

/-!
Contract: the value types of the vector engine: errors, floating-point words,
metrics, metadata values, collection configurations and points.

Floating-point numbers are their IEEE bit patterns; whether one is finite is
read off the bits. The arithmetic that cosine normalisation performs is a
parameter, `FloatArithmetic`, because nothing here depends on its rounding.

Owns: `Error` and its display text, `F32`, `F64`, `Metric.prepare`, `Value`,
`CollectionConfig`, `UpsertPoint`, `StoredPoint`.

Does not own: scores and searching, or the byte formats of these types. The
cached public view of a stored point and the choice between an owned and a
memory-mapped vector carry no data of their own and are left out.
-/

namespace FocalVector.Engine

open FocalVector.Foundation

/-! ## Errors -/

inductive Error where
  | invalidDimension (expected actual : Nat)
  | invalidVector (message : String)
  | invalidConfig (message : String)
  | invalidConfiguration (message : String)
  | invalidQuery (message : String)
  | io (message : String)
  | corruptStorage (message : String)
  | concurrency (message : String)
  | notFound (message : String)
  | alreadyExists (message : String)
  | unauthorized
  | resourceExhausted (message : String)
  | sequenceOverflow
deriving DecidableEq, Repr

def Error.toText : Error → String
  | .invalidDimension expected actual =>
    s!"invalid vector dimension: expected {expected}, got {actual}"
  | .invalidVector message => s!"invalid vector: {message}"
  | .invalidConfig message => s!"invalid collection config: {message}"
  | .invalidConfiguration message => s!"invalid configuration: {message}"
  | .invalidQuery message => s!"invalid query: {message}"
  | .io message => s!"storage I/O error: {message}"
  | .corruptStorage message => s!"corrupt storage: {message}"
  | .concurrency message => s!"concurrency error: {message}"
  | .notFound message => s!"not found: {message}"
  | .alreadyExists message => s!"already exists: {message}"
  | .unauthorized => "unauthorized"
  | .resourceExhausted message => s!"resource exhausted: {message}"
  | .sequenceOverflow => "collection sequence overflow"

abbrev Result (α : Type) := Except Error α

variable {ε α β : Type} {result : Except ε α} {f : α → Except ε β}

theorem Result.of_bind_ok {value : β}
    (succeeds : (result >>= f) = .ok value) : ∃ middle, result = .ok middle ∧ f middle = .ok value := by
  cases result with
  | error error => cases succeeds
  | ok middle => exact ⟨middle, rfl, succeeds⟩

theorem exists_mapM_ok {items : List α}
    (each : ∀ item ∈ items, ∃ value, f item = .ok value) : ∃ values, items.mapM f = .ok values := by
  induction items with
  | nil => exact ⟨[], rfl⟩
  | cons item rest ih =>
    obtain ⟨⟨value, first⟩, others⟩ := List.forall_mem_cons.mp each
    obtain ⟨values, later⟩ := ih others
    rw [List.mapM_cons, first, later]
    exact ⟨_, rfl⟩

theorem ok_of_mapM {items : List α} {values : List β}
    (maps : items.mapM f = .ok values) : ∀ item ∈ items, ∃ value, f item = .ok value := by
  intro item member
  obtain ⟨value, -, maps⟩ := Checked.exists_of_forall₂
    (List.Forall₂.flip (R := fun value item => f item = .ok value) (Checked.of_mapM maps)) item member
  exact ⟨value, maps⟩

theorem exists_error_of_not_isOk (refused : result.isOk = false) :
    ∃ error, result = .error error := by
  cases result with
  | error error => exact ⟨error, rfl⟩
  | ok value => cases refused

theorem exists_ok_of_isOk (accepted : result.isOk = true) :
    ∃ value, result = .ok value := by
  cases result with
  | error error => cases accepted
  | ok value => exact ⟨value, rfl⟩

theorem eq_ok_of_toOption {value : α}
    (succeeds : result.toOption = some value) : result = .ok value := by
  cases result with
  | error error => cases succeeds
  | ok found => exact congrArg Except.ok (Option.some.inj succeeds)

/-! ## Floating-point words -/

/-- A single-precision number, as its bits. -/
structure F32 where
  bits : UInt32
deriving DecidableEq, Repr

/-- A double-precision number, as its bits. -/
structure F64 where
  bits : UInt64
deriving DecidableEq, Repr

/-- Neither an infinity nor a NaN: the exponent is not all ones. -/
def F32.isFinite (value : F32) : Bool := value.bits &&& 0x7f800000 != 0x7f800000

/-- Neither an infinity nor a NaN: the exponent is not all ones. -/
def F64.isFinite (value : F64) : Bool := value.bits &&& 0x7ff0000000000000 != 0x7ff0000000000000

def F64.isZero (value : F64) : Bool := value.bits &&& 0x7fffffffffffffff == 0

/-- The arithmetic used to normalise a vector. -/
structure FloatArithmetic where
  /-- `value as f64` -/
  widen : F32 → F64
  /-- `value as f32` -/
  narrow : F64 → F32
  add64 : F64 → F64 → F64
  mul64 : F64 → F64 → F64
  sqrt : F64 → F64
  recip : F64 → F64
  mul32 : F32 → F32 → F32

def FloatArithmetic.normalised : FloatArithmetic where
  widen _ := ⟨0x3ff0000000000000⟩
  narrow _ := ⟨0x3f800000⟩
  add64 _ right := right
  mul64 left _ := left
  sqrt value := value
  recip value := value
  mul32 left _ := left

/-! ## Metrics -/

inductive Metric where
  | cosine
  | dotProduct
  | euclidean
deriving DecidableEq, Repr

/-- The sum of the squared components, in double precision. The empty sum is
negative zero. -/
def squaredNorm (arith : FloatArithmetic) (vector : List F32) : F64 :=
  vector.foldl
    (fun sum value => arith.add64 sum (arith.mul64 (arith.widen value) (arith.widen value)))
    ⟨0x8000000000000000⟩

/-- Check a vector and bring it into the form the engine stores. -/
def Metric.prepare (arith : FloatArithmetic) (metric : Metric) (vector : List F32) :
    Result (List F32) :=
  if vector.any (fun value => !value.isFinite) then
    .error (.invalidVector "components must be finite")
  else if metric = .cosine then
    let norm := squaredNorm arith vector
    if norm.isZero || !norm.isFinite then
      .error (.invalidVector "cosine similarity requires a finite, non-zero norm")
    else
      let inverseNorm := arith.narrow (arith.recip (arith.sqrt norm))
      .ok (vector.map fun value => arith.mul32 value inverseNorm)
  else
    .ok vector

/-- The stored form of every vector the metric accepts is a form it keeps. -/
def Metric.PrepareIdempotent (arith : FloatArithmetic) (metric : Metric) : Prop :=
  ∀ vector prepared, metric.prepare arith vector = .ok prepared →
    metric.prepare arith prepared = .ok prepared

namespace Metric

variable {arith : FloatArithmetic} {metric : Metric} {vector prepared : List F32}

theorem prepare_finite (accepted : metric.prepare arith vector = .ok prepared) :
    ∀ value ∈ vector, value.isFinite = true := by
  intro value member
  by_contra notFinite
  have found : vector.any (fun value => !value.isFinite) = true :=
    List.any_eq_true.mpr ⟨value, member, by simpa using notFinite⟩
  simp [prepare, found] at accepted

theorem prepare_length (accepted : metric.prepare arith vector = .ok prepared) :
    prepared.length = vector.length := by
  unfold prepare at accepted
  split at accepted
  · contradiction
  split at accepted
  · simp only at accepted
    split at accepted
    · contradiction
    · rw [← Except.ok.inj accepted, List.length_map]
  · rw [← Except.ok.inj accepted]

theorem prepare_of_ne_cosine (notCosine : metric ≠ .cosine)
    (finite : ∀ value ∈ vector, value.isFinite = true) :
    metric.prepare arith vector = .ok vector := by
  have none_bad : vector.any (fun value => !value.isFinite) = false := by
    simpa [List.any_eq_false] using finite
  simp [prepare, none_bad, notCosine]

theorem prepareIdempotent_of_ne_cosine (notCosine : metric ≠ .cosine) :
    metric.PrepareIdempotent arith := by
  intro vector prepared accepted
  have finite := prepare_finite accepted
  rw [prepare_of_ne_cosine notCosine finite] at accepted
  rw [← Except.ok.inj accepted]
  exact prepare_of_ne_cosine notCosine finite

end Metric

/-! ## Points -/

inductive Value where
  | keyword (value : String)
  | integer (value : Int64)
  | float (value : F64)
  | boolean (value : Bool)
deriving DecidableEq

abbrev Metadata := Std.ExtTreeMap String Value

abbrev IdSet := Std.ExtTreeSet String

/-- The configuration of a collection; a dimension is a machine word. -/
structure CollectionConfig where
  dimension : Nat
  metric : Metric
  fits : dimension < 2 ^ 64 := by decide
deriving DecidableEq

def lineConfig : CollectionConfig := ⟨1, .dotProduct, by decide⟩

structure UpsertPoint where
  id : String
  vector : List F32
  metadata : Metadata

structure StoredPoint where
  id : String
  vector : List F32
  metadata : Metadata
  sequence : UInt64

end FocalVector.Engine
