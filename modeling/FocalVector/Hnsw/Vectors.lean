import FocalVector.Engine.GraphSearch
import FocalVector.Foundation.Checked
import FocalVector.Hnsw.IntegerDot

/-!
Contract: the vectors of a graph and their scores.

A graph keeps its vectors as single-precision numbers or as bytes with one scale for
each vector, and the bytes may stay in a mapped segment file. Scores of quantized
vectors come from the exact sum of the products of their codes.

Owns: quantization, `scoreVectors`, and the arena that holds the vectors of all nodes.

Does not own: the rounding of floating-point operations, which is a parameter.
-/

namespace FocalVector.Engine

namespace F32

/-- `value.abs()` -/
def abs (value : F32) : F32 := ⟨value.bits &&& 0x7fffffff⟩

/-- The exponent is all ones and the fraction is not zero. -/
def isNan (value : F32) : Bool := !value.isFinite && value.bits &&& 0x007fffff != 0

/-- The magnitude with the sign. Both zeros are 0, and on numbers that are not NaN this
is the order of their values. -/
def place (value : F32) : Int :=
  if value.bits < 0x80000000 then value.bits.toNat else 0x80000000 - value.bits.toNat

/-- `<` -/
def lt (left right : F32) : Bool :=
  !left.isNan && !right.isNan && decide (left.place < right.place)

theorem totalPlace_injective : Function.Injective totalPlace := by
  intro left right same
  have leftBound := left.bits.toNat_lt
  have rightBound := right.bits.toNat_lt
  unfold totalPlace at same
  simp only [UInt32.lt_iff_toNat_lt] at same
  rw [show (0x80000000 : UInt32).toNat = 0x80000000 from rfl] at same
  have bits : left.bits.toNat = right.bits.toNat := by
    split at same <;> split at same <;> omega
  cases left
  cases right
  exact congrArg F32.mk (UInt32.toNat_inj.mp bits)

end F32

end FocalVector.Engine

namespace FocalVector.Hnsw

open FocalVector.Foundation FocalVector.Engine

/-- Computations of the graph index. -/
abbrev Checking (α : Type) := Checked Error α

/-- The arithmetic of the graph index. -/
structure HnswArithmetic extends SearchArithmetic where
  div32 : F32 → F32 → F32
  max32 : F32 → F32 → F32
  sqrt32 : F32 → F32
  /-- `value.round().clamp(-127.0, 127.0) as i8` -/
  toCode : F32 → Int8
  /-- `value as f32` for integers -/
  ofInt64 : Int64 → F32
  /-- The processor has the vector instructions. -/
  avx2 : Bool

def HnswArithmetic.unit : HnswArithmetic where
  toSearchArithmetic := .unit
  div32 left _ := left
  max32 left right := if F32.lt left right then right else left
  sqrt32 value := value
  toCode value := if value.bits = 0 then 0 else 1
  ofInt64 value := if value = 0 then ⟨0⟩ else ⟨0x3f800000⟩
  avx2 := false

/-! ## Quantized vectors -/

structure QuantizedVector where
  codes : List Int8
  scale : F32
  squaredNorm : F32
deriving DecidableEq

section Scores

variable (arith : HnswArithmetic)

def quantizedDot (left : List Int8) (leftScale : F32) (right : List Int8) (rightScale : F32) :
    F32 :=
  arith.mul32 (arith.mul32 (arith.ofInt64 (quantizedIntegerDot arith.avx2 left right)) leftScale) rightScale

def quantizedSquaredNorm (codes : List Int8) (scale : F32) : F32 :=
  quantizedDot arith codes scale codes scale

def quantizedSquaredNormBytes (codes : Bytes) (scale : F32) : F32 :=
  arith.mul32 (arith.mul32 (arith.ofInt64 (integerSquaredNormBytes codes)) scale) scale

/-- `QuantizedVector::new` -/
def QuantizedVector.new (vector : List F32) : QuantizedVector :=
  let maxAbs := vector.foldl (fun maximum value => arith.max32 maximum value.abs) ⟨0⟩
  let scale := if F32.lt ⟨0⟩ maxAbs then arith.div32 maxAbs ⟨0x42fe0000⟩ else ⟨0x3f800000⟩
  let codes := vector.map fun value => arith.toCode (arith.div32 value scale)
  ⟨codes, scale, quantizedSquaredNorm arith codes scale⟩

/-- A vector in the form a graph stores it, owned or borrowed. -/
inductive PreparedVector where
  | f32 (vector : List F32)
  | scalarInt8 (vector : QuantizedVector)
deriving DecidableEq

namespace PreparedVector

def new (vector : List F32) : HnswVectorStorage → PreparedVector
  | .f32 => .f32 vector
  | .scalarInt8 => .scalarInt8 (.new arith vector)

def storage : PreparedVector → HnswVectorStorage
  | .f32 _ => .f32
  | .scalarInt8 _ => .scalarInt8

def length : PreparedVector → Nat
  | .f32 vector => vector.length
  | .scalarInt8 vector => vector.codes.length

structure Fits (storage : HnswVectorStorage) (dimension : Nat) (vector : PreparedVector) : Prop where
  kind : vector.storage = storage
  size : vector.length = dimension

end PreparedVector

def quantizedScore (metric : Metric) (left right : QuantizedVector) : F32 :=
  let dot := quantizedDot arith left.codes left.scale right.codes right.scale
  match metric with
  | .cosine =>
    let denominator := arith.sqrt32 (arith.mul32 left.squaredNorm right.squaredNorm)
    if F32.lt ⟨0⟩ denominator then arith.div32 dot denominator else ⟨0⟩
  | .dotProduct => dot
  | .euclidean =>
    let distance := arith.sub32 (arith.add32 left.squaredNorm right.squaredNorm)
      (arith.mul32 ⟨0x40000000⟩ dot)
    (arith.max32 distance ⟨0⟩).neg

/-- `score_vectors`. Codes of different lengths fail the assertion of the dot product. -/
def scoreVectors (metric : Metric) : PreparedVector → PreparedVector → Checking F32
  | .f32 left, .f32 right => return metric.score arith.toSearchArithmetic left right
  | .scalarInt8 left, .scalarInt8 right => do
      Checked.assert (left.codes.length = right.codes.length)
      return quantizedScore arith metric left right
  | _, _ => Checked.panic .assertion

variable {arith} {storage : HnswVectorStorage} {dimension : Nat} {left right : PreparedVector}

theorem scoreVectors_returns (arith : HnswArithmetic) (metric : Metric)
    (isLeft : left.Fits storage dimension) (isRight : right.Fits storage dimension) :
    ∃ score, scoreVectors arith metric left right = .ok score := by
  have sameKind := isLeft.kind.trans isRight.kind.symm
  have sameSize := isLeft.size.trans isRight.size.symm
  cases left with
  | f32 left =>
    cases right with
    | f32 right => exact ⟨_, rfl⟩
    | scalarInt8 right => cases sameKind
  | scalarInt8 left =>
    cases right with
    | f32 right => cases sameKind
    | scalarInt8 right =>
      exact ⟨_, Checked.bind_ok (Checked.assert_of sameSize)⟩

theorem fits_new (vector : List F32) (storage : HnswVectorStorage) :
    (PreparedVector.new arith vector storage).Fits storage vector.length := by
  cases storage with
  | f32 => exact ⟨rfl, rfl⟩
  | scalarInt8 => exact ⟨rfl, List.length_map _⟩

end Scores

/-! ## The arena -/

inductive VectorArena where
  | f32 (components : List F32)
  | scalarInt8 (codes : List Int8) (scales squaredNorms : List F32)
  | mappedScalarInt8 (bytes : Bytes) (offsets : List Nat) (scales squaredNorms : List F32)
deriving DecidableEq

namespace VectorArena

def withCapacity (storage : HnswVectorStorage) (vectors dimension : Nat) : Checking VectorArena :=
  let components := saturatingMul vectors dimension
  match storage with
  | .f32 => do
      Checked.capacity components 4
      return .f32 []
  | .scalarInt8 => do
      Checked.capacity components 1
      Checked.capacity vectors 4
      Checked.capacity vectors 4
      return .scalarInt8 [] [] []

def storage : VectorArena → HnswVectorStorage
  | .f32 _ => .f32
  | .scalarInt8 _ _ _ => .scalarInt8
  | .mappedScalarInt8 _ _ _ _ => .scalarInt8

def isMapped : VectorArena → Bool
  | .mappedScalarInt8 _ _ _ _ => true
  | _ => false

/-- `push`, which takes vectors of its own kind only. -/
def push : VectorArena → PreparedVector → Checking VectorArena
  | .f32 components, .f32 vector => .ok (.f32 (components ++ vector))
  | .scalarInt8 codes scales squaredNorms, .scalarInt8 vector =>
    .ok (.scalarInt8 (codes ++ vector.codes) (scales ++ [vector.scale])
      (squaredNorms ++ [vector.squaredNorm]))
  | _, _ => Checked.panic .assertion

/-- `push_mapped` -/
def pushMapped (arena : VectorArena) (offset : Nat) (scale squaredNorm : F32) :
    Checking VectorArena :=
  match arena with
  | .mappedScalarInt8 bytes offsets scales squaredNorms =>
    .ok (.mappedScalarInt8 bytes (offsets ++ [offset]) (scales ++ [scale])
      (squaredNorms ++ [squaredNorm]))
  | _ => .error (.error (.corruptStorage "mapped vector was decoded into an owned arena"))

/-- `get`: the vector of a node. -/
def get (arena : VectorArena) (node dimension : Nat) : Checking PreparedVector := do
  let start ← Checked.usize (node * dimension)
  match arena with
  | .f32 vectors => do
      let vector ← Checked.slice vectors start (← Checked.usize (start + dimension))
      return .f32 vector
  | .scalarInt8 codes scales squaredNorms => do
      let codes ← Checked.slice codes start (← Checked.usize (start + dimension))
      let scale ← Checked.get scales node
      let squaredNorm ← Checked.get squaredNorms node
      return .scalarInt8 ⟨codes, scale, squaredNorm⟩
  | .mappedScalarInt8 bytes offsets scales squaredNorms => do
      let start ← Checked.get offsets node
      let bytes ← Checked.slice bytes start (← Checked.usize (start + dimension))
      let scale ← Checked.get scales node
      let squaredNorm ← Checked.get squaredNorms node
      return .scalarInt8 ⟨bytes.map UInt8.toInt8, scale, squaredNorm⟩

/-! ### What an arena holds -/

/-- The arena holds the vectors of the nodes, in order. -/
inductive Holds (dimension : Nat) : List PreparedVector → VectorArena → Prop where
  | f32 {vectors : List (List F32)} (sized : ∀ vector ∈ vectors, vector.length = dimension) :
      Holds dimension (vectors.map .f32) (.f32 vectors.flatten)
  | scalarInt8 {vectors : List QuantizedVector}
      (sized : ∀ vector ∈ vectors, vector.codes.length = dimension) :
      Holds dimension (vectors.map .scalarInt8)
        (.scalarInt8 (vectors.map (·.codes)).flatten (vectors.map (·.scale))
          (vectors.map (·.squaredNorm)))
  | mappedScalarInt8 {vectors : List QuantizedVector} {bytes : Bytes} {offsets : List Nat}
      (mapped : bytes.length < 2 ^ 63) (located : offsets.length = vectors.length)
      (stored : ∀ (node : Nat) (vector : QuantizedVector) (offset : Nat),
        vectors[node]? = some vector → offsets[node]? = some offset →
        offset + dimension ≤ bytes.length ∧
          vector.codes = ((bytes.drop offset).take dimension).map UInt8.toInt8) :
      Holds dimension (vectors.map .scalarInt8)
        (.mappedScalarInt8 bytes offsets (vectors.map (·.scale)) (vectors.map (·.squaredNorm)))

variable {dimension node : Nat} {vectors : List PreparedVector} {vector : PreparedVector}
  {arena : VectorArena}

theorem slice_flatten {α : Type} {lists : List (List α)} {list : List α}
    (sized : ∀ list ∈ lists, list.length = dimension) (found : lists[node]? = some list) :
    (node + 1) * dimension ≤ lists.flatten.length ∧
      (lists.flatten.drop (node * dimension)).take dimension = list := by
  induction lists generalizing node with
  | nil => simp at found
  | cons first rest ih =>
    have firstSized := sized first List.mem_cons_self
    rw [List.flatten_cons, List.length_append, firstSized]
    cases node with
    | zero =>
      rw [List.getElem?_cons_zero, Option.some.injEq] at found
      subst found
      rw [Nat.zero_mul, List.drop_zero, List.take_left' firstSized]
      exact ⟨by omega, rfl⟩
    | succ node =>
      rw [List.getElem?_cons_succ] at found
      obtain ⟨inside, same⟩ := ih
        (fun list member => sized list (List.mem_cons_of_mem _ member)) found
      have skipped : (first ++ rest.flatten).drop ((node + 1) * dimension) =
          rest.flatten.drop (node * dimension) := by
        rw [Nat.succ_mul, Nat.add_comm, ← List.drop_drop, List.drop_left' firstSized]
      rw [skipped, same, Nat.succ_mul (node + 1)]
      exact ⟨by omega, rfl⟩

namespace Holds

theorem getElem?_map_some {α β : Type} {list : List α} {f : α → β} {value : β}
    (found : (list.map f)[node]? = some value) : ∃ item, list[node]? = some item ∧ f item = value := by
  rw [List.getElem?_map, Option.map_eq_some_iff] at found
  exact found

theorem get (holds : Holds dimension vectors arena) (bounded : vectors.length * dimension < 2 ^ 64)
    (found : vectors[node]? = some vector) : arena.get node dimension = .ok vector := by
  have inside := (List.getElem?_eq_some_iff.mp found).1
  have ends : (node + 1) * dimension ≤ vectors.length * dimension := Nat.mul_le_mul_right _ inside
  rw [Nat.succ_mul] at ends
  have starts : (Checked.usize (node * dimension) : Checking Nat) = .ok (node * dimension) :=
    Checked.usize_of_lt (by omega)
  have stops : (Checked.usize (node * dimension + dimension) : Checking Nat) = .ok _ :=
    Checked.usize_of_lt (by omega)
  unfold VectorArena.get
  rw [Checked.bind_ok starts]
  cases holds with
  | f32 sized =>
    obtain ⟨stored, isStored, rfl⟩ := getElem?_map_some found
    obtain ⟨long, same⟩ := slice_flatten sized isStored
    rw [Nat.succ_mul] at long
    simp only
    rw [Checked.bind_ok stops, Checked.bind_ok (Checked.slice_of_le (by omega) long),
      Nat.add_sub_cancel_left, same]
    rfl
  | @scalarInt8 stored sized =>
    obtain ⟨quantized, isStored, rfl⟩ := getElem?_map_some found
    have codes : (stored.map (·.codes))[node]? = some quantized.codes := by
      rw [List.getElem?_map, isStored]
      rfl
    have scale : (stored.map (·.scale))[node]? = some quantized.scale := by
      rw [List.getElem?_map, isStored]
      rfl
    have norm : (stored.map (·.squaredNorm))[node]? = some quantized.squaredNorm := by
      rw [List.getElem?_map, isStored]
      rfl
    obtain ⟨long, same⟩ := slice_flatten (by simpa using sized) codes
    rw [Nat.succ_mul] at long
    simp only
    rw [Checked.bind_ok stops, Checked.bind_ok (Checked.slice_of_le (by omega) long),
      Checked.bind_ok (Checked.get_of_getElem? scale),
      Checked.bind_ok (Checked.get_of_getElem? norm), Nat.add_sub_cancel_left, same]
    rfl
  | @mappedScalarInt8 stored bytes offsets mapped located placed =>
    obtain ⟨quantized, isStored, rfl⟩ := getElem?_map_some found
    have within : node < offsets.length := by
      rw [located]
      exact (List.getElem?_eq_some_iff.mp isStored).1
    obtain ⟨offset, isOffset, reads⟩ := @Checked.exists_get Error _ offsets node within
    obtain ⟨long, same⟩ := placed node quantized offset isStored isOffset
    have scale : (stored.map (·.scale))[node]? = some quantized.scale := by
      rw [List.getElem?_map, isStored]
      rfl
    have norm : (stored.map (·.squaredNorm))[node]? = some quantized.squaredNorm := by
      rw [List.getElem?_map, isStored]
      rfl
    have ends : (Checked.usize (offset + dimension) : Checking Nat) = .ok _ :=
      Checked.usize_of_lt (by omega)
    simp only
    rw [Checked.bind_ok reads, Checked.bind_ok ends,
      Checked.bind_ok (Checked.slice_of_le (by omega) long),
      Checked.bind_ok (Checked.get_of_getElem? scale),
      Checked.bind_ok (Checked.get_of_getElem? norm), Nat.add_sub_cancel_left, ← same]
    rfl

theorem fits (holds : Holds dimension vectors arena) (member : vector ∈ vectors) :
    vector.Fits arena.storage dimension := by
  cases holds with
  | f32 sized =>
    obtain ⟨stored, isStored, rfl⟩ := List.mem_map.mp member
    exact ⟨rfl, sized stored isStored⟩
  | scalarInt8 sized =>
    obtain ⟨stored, isStored, rfl⟩ := List.mem_map.mp member
    exact ⟨rfl, sized stored isStored⟩
  | @mappedScalarInt8 vectors bytes offsets mapped located placed =>
    obtain ⟨quantized, isStored, rfl⟩ := List.mem_map.mp member
    obtain ⟨node, found⟩ := List.mem_iff_getElem?.mp isStored
    have within : node < offsets.length := by
      rw [located]
      exact (List.getElem?_eq_some_iff.mp found).1
    obtain ⟨long, same⟩ := placed node quantized _ found (List.getElem?_eq_getElem within)
    refine ⟨rfl, ?_⟩
    show quantized.codes.length = dimension
    rw [same, List.length_map, List.length_take, List.length_drop]
    omega

theorem push (holds : Holds dimension vectors arena) (fits : vector.Fits arena.storage dimension)
    (owned : arena.isMapped = false) :
    ∃ next, arena.push vector = .ok next ∧ Holds dimension (vectors ++ [vector]) next ∧
      next.storage = arena.storage ∧ next.isMapped = false := by
  have kind := fits.kind
  have size := fits.size
  cases holds with
  | @f32 stored sized =>
    cases vector with
    | scalarInt8 vector => cases kind
    | f32 vector =>
      refine ⟨_, rfl, ?_, rfl, rfl⟩
      have longer : Holds dimension ((stored ++ [vector]).map .f32) _ := .f32 fun other member =>
        (List.mem_append.mp member).elim (sized other) fun isNew =>
          List.mem_singleton.mp isNew ▸ size
      simpa using longer
  | @scalarInt8 stored sized =>
    cases vector with
    | f32 vector => cases kind
    | scalarInt8 vector =>
      refine ⟨_, rfl, ?_, rfl, rfl⟩
      have longer : Holds dimension ((stored ++ [vector]).map .scalarInt8) _ :=
        .scalarInt8 fun other member => (List.mem_append.mp member).elim (sized other)
          fun isNew => List.mem_singleton.mp isNew ▸ size
      simpa using longer
  | mappedScalarInt8 => cases owned

theorem pushMapped {file : Bytes} {offsets : List Nat} {scales squaredNorms : List F32}
    (holds : Holds dimension vectors (.mappedScalarInt8 file offsets scales squaredNorms))
    {offset : Nat} (inside : offset + dimension ≤ file.length) (scale squaredNorm : F32) :
    Holds dimension (vectors ++ [.scalarInt8
        ⟨((file.drop offset).take dimension).map UInt8.toInt8, scale, squaredNorm⟩])
      (.mappedScalarInt8 file (offsets ++ [offset]) (scales ++ [scale])
        (squaredNorms ++ [squaredNorm])) := by
  cases holds with
  | @mappedScalarInt8 stored _ _ mapped located placed =>
    have longer := @mappedScalarInt8 dimension (stored ++ [⟨((file.drop offset).take dimension).map
      UInt8.toInt8, scale, squaredNorm⟩]) file (offsets ++ [offset]) mapped (by simp [located])
      fun node vector start isVector isOffset => ?_
    · simpa using longer
    rcases Nat.lt_trichotomy node stored.length with before | rfl | behind
    · rw [List.getElem?_append_left before] at isVector
      rw [List.getElem?_append_left (located ▸ before)] at isOffset
      exact placed node vector start isVector isOffset
    · rw [List.getElem?_concat_length, Option.some.injEq] at isVector
      rw [← located, List.getElem?_concat_length, Option.some.injEq] at isOffset
      subst isVector isOffset
      exact ⟨inside, rfl⟩
    · rw [List.getElem?_eq_none (by rw [List.length_append]; exact behind)] at isVector
      cases isVector

end Holds

end VectorArena

end FocalVector.Hnsw
