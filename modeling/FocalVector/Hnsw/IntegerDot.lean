import FocalVector.Foundation.LittleEndian
import Mathlib.Algebra.BigOperators.Group.List.Basic
import Mathlib.Algebra.Order.Group.Unbundled.Abs
import Mathlib.Algebra.Order.Ring.Abs
import Mathlib.Tactic.Linarith

/-!
Contract: the integer dot product of two vectors of codes.

A code is a signed byte. The portable loop adds the products in four running sums of 64
bits; the vector instructions take sixteen codes at a time, add neighbouring products and
keep eight running sums of 32 bits. Both are the exact sum of the products.

Owns: the loops, the sum they compute, and why no sum of 32 bits overflows.

Does not own: scales, and what the sum is used for.
-/

namespace FocalVector.Hnsw

open FocalVector.Foundation

/-! ## The loops -/

/-- Four running sums over chunks of four codes, and what is left of the vectors. -/
def codeLanes (sums : Int64 × Int64 × Int64 × Int64) :
    List Int8 → List Int8 → List Int64 × List Int8 × List Int8
  | l0 :: l1 :: l2 :: l3 :: left, r0 :: r1 :: r2 :: r3 :: right =>
    codeLanes (sums.1 + l0.toInt64 * r0.toInt64, sums.2.1 + l1.toInt64 * r1.toInt64,
      sums.2.2.1 + l2.toInt64 * r2.toInt64, sums.2.2.2 + l3.toInt64 * r3.toInt64) left right
  | left, right => ([sums.1, sums.2.1, sums.2.2.1, sums.2.2.2], left, right)

def quantizedIntegerDotPortable (left right : List Int8) : Int64 :=
  let (sums, leftRest, rightRest) := codeLanes (0, 0, 0, 0) left right
  sums.sum + (leftRest.zipWith (fun left right => left.toInt64 * right.toInt64) rightRest).sum

/-- `_mm256_madd_epi16` on sign-extended codes: the sums of neighbouring products. -/
def maddCodes : List Int8 → List Int8 → List Int32
  | l0 :: l1 :: left, r0 :: r1 :: right =>
    (l0.toInt32 * r0.toInt32 + l1.toInt32 * r1.toInt32) :: maddCodes left right
  | _, _ => []

/-- Eight running sums over chunks of sixteen codes, which `_mm256_add_epi32` adds up with
32 bits each. -/
def avx2Lanes : Nat → List Int32 → List Int8 → List Int8 → List Int32
  | 0, sums, _, _ => sums
  | chunks + 1, sums, left, right =>
    avx2Lanes chunks (sums.zipWith (· + ·) (maddCodes (left.take 16) (right.take 16)))
      (left.drop 16) (right.drop 16)

def quantizedIntegerDotAvx2 (left right : List Int8) : Int64 :=
  let vectorized := left.length / 16 * 16
  ((avx2Lanes (left.length / 16) (List.replicate 8 0) left right).map Int32.toInt64).sum +
    quantizedIntegerDotPortable (left.drop vectorized) (right.drop vectorized)

/-- `quantized_integer_dot`, on a processor that has the vector instructions or has not. -/
def quantizedIntegerDot (avx2 : Bool) (left right : List Int8) : Int64 :=
  if left.length ≤ 65536 ∧ avx2 = true then quantizedIntegerDotAvx2 left right
  else quantizedIntegerDotPortable left right

/-- The integer of `quantized_squared_norm_bytes`. -/
def integerSquaredNormBytes (codes : Bytes) : Int64 :=
  codes.foldl (fun sum code => sum + code.toInt8.toInt64 * code.toInt8.toInt64) 0

/-! ## The exact sum -/

/-- The sum of the products, as an integer. -/
def codeDot (left right : List Int8) : Int :=
  (left.zipWith (fun left right => left.toInt * right.toInt) right).sum

theorem codeDot_split (count : Nat) (left right : List Int8) :
    codeDot left right = codeDot (left.take count) (right.take count) +
      codeDot (left.drop count) (right.drop count) := by
  unfold codeDot
  rw [← List.take_zipWith, ← List.drop_zipWith, ← List.sum_append, List.take_append_drop]

theorem mul_toInt64 (left right : Int8) :
    left.toInt64 * right.toInt64 = Int64.ofInt (left.toInt * right.toInt) := by
  rw [Int64.ofInt_mul, ← Int8.toInt_toInt64, ← Int8.toInt_toInt64, Int64.ofInt_toInt,
    Int64.ofInt_toInt]

theorem sum_ofInt (values : List Int) : (values.map Int64.ofInt).sum = Int64.ofInt values.sum := by
  induction values with
  | nil => rfl
  | cons value rest ih =>
    rw [List.map_cons, List.sum_cons, List.sum_cons, ih, Int64.ofInt_add]

theorem sum_products (left right : List Int8) :
    (left.zipWith (fun left right => left.toInt64 * right.toInt64) right).sum =
      Int64.ofInt (codeDot left right) := by
  rw [codeDot, ← sum_ofInt, List.map_zipWith]
  simp only [mul_toInt64]

/-- The four sums and the rest make up the whole, whatever was in the sums before. -/
theorem codeLanes_sum (sums : Int64 × Int64 × Int64 × Int64) (left right : List Int8) :
    (codeLanes sums left right).1.sum +
        Int64.ofInt (codeDot (codeLanes sums left right).2.1 (codeLanes sums left right).2.2) =
      sums.1 + sums.2.1 + sums.2.2.1 + sums.2.2.2 + Int64.ofInt (codeDot left right) := by
  fun_induction codeLanes sums left right with
  | case1 sums l0 l1 l2 l3 left r0 r1 r2 r3 right ih =>
    rw [ih]
    simp only [codeDot, List.zipWith_cons_cons, List.sum_cons, Int64.ofInt_add, mul_toInt64]
    grind
  | case2 sums left right =>
    simp only [List.sum_cons, List.sum_nil]
    grind

theorem quantizedIntegerDotPortable_eq (left right : List Int8) :
    quantizedIntegerDotPortable left right = Int64.ofInt (codeDot left right) := by
  have whole := codeLanes_sum (0, 0, 0, 0) left right
  unfold quantizedIntegerDotPortable
  simp only [sum_products]
  rw [whole]
  grind

theorem integerSquaredNormBytes_eq (codes : Bytes) :
    integerSquaredNormBytes codes =
      Int64.ofInt (codeDot (codes.map UInt8.toInt8) (codes.map UInt8.toInt8)) := by
  have accumulated : ∀ sum : Int64, codes.foldl
      (fun sum code => sum + code.toInt8.toInt64 * code.toInt8.toInt64) sum =
        sum + Int64.ofInt (codeDot (codes.map UInt8.toInt8) (codes.map UInt8.toInt8)) := by
    induction codes with
    | nil =>
      intro sum
      exact (Int64.add_zero sum).symm
    | cons code rest ih =>
      intro sum
      rw [List.foldl_cons, ih]
      simp only [codeDot, List.map_cons, List.zipWith_cons_cons, List.sum_cons, Int64.ofInt_add,
        mul_toInt64]
      grind
  exact (accumulated 0).trans (Int64.zero_add _)

/-! ## The sums of 32 bits -/

/-- `maddCodes` without a bound on its sums. -/
def exactMadd : List Int8 → List Int8 → List Int
  | l0 :: l1 :: left, r0 :: r1 :: right =>
    (l0.toInt * r0.toInt + l1.toInt * r1.toInt) :: exactMadd left right
  | _, _ => []

/-- `avx2Lanes` without a bound on its sums. -/
def exactLanes : Nat → List Int → List Int8 → List Int8 → List Int
  | 0, sums, _, _ => sums
  | chunks + 1, sums, left, right =>
    exactLanes chunks (sums.zipWith (· + ·) (exactMadd (left.take 16) (right.take 16)))
      (left.drop 16) (right.drop 16)

theorem abs_mul_code (left right : Int8) : |left.toInt * right.toInt| ≤ 16384 := by
  have bound : ∀ code : Int8, |code.toInt| ≤ 128 := fun code => by
    have low := code.le_toInt
    have high := code.toInt_lt
    rw [abs_le]
    constructor <;> omega
  rw [abs_mul]
  exact (mul_le_mul (bound left) (bound right) (abs_nonneg _) (by decide)).trans (by decide)

theorem toInt_add_of_abs {left right : Int32} {bound : Int}
    (small : |left.toInt + right.toInt| ≤ bound) (fits : bound < 2 ^ 31) :
    (left + right).toInt = left.toInt + right.toInt := by
  rw [abs_le] at small
  rw [Int32.toInt_add]
  exact Int.bmod_eq_of_le (by omega) (by omega)

theorem maddCodes_exact (left right : List Int8) :
    (maddCodes left right).map Int32.toInt = exactMadd left right ∧
      ∀ sum ∈ exactMadd left right, |sum| ≤ 32768 := by
  fun_induction maddCodes left right with
  | case1 l0 l1 left r0 r1 right ih =>
    obtain ⟨same, small⟩ := ih
    have product : ∀ left right : Int8,
        (left.toInt32 * right.toInt32).toInt = left.toInt * right.toInt := fun left right => by
      have bound := abs_le.mp (abs_mul_code left right)
      rw [Int32.toInt_mul, Int8.toInt_toInt32, Int8.toInt_toInt32]
      exact Int.bmod_eq_of_le (by omega) (by omega)
    have first := abs_le.mp (abs_mul_code l0 r0)
    have second := abs_le.mp (abs_mul_code l1 r1)
    have pair : |l0.toInt * r0.toInt + l1.toInt * r1.toInt| ≤ 32768 := by
      rw [abs_le]
      constructor <;> omega
    have sum := @toInt_add_of_abs (l0.toInt32 * r0.toInt32) (l1.toInt32 * r1.toInt32) 32768
      (by rw [product, product]; exact pair) (by decide)
    rw [product, product] at sum
    rw [List.map_cons, same, sum]
    exact ⟨rfl, List.forall_mem_cons.mpr ⟨pair, small⟩⟩
  | case2 left right short =>
    have nothing : exactMadd left right = [] := by
      unfold exactMadd
      split
      · exact (short _ _ _ _ _ _ rfl rfl).elim
      · rfl
    rw [nothing]
    exact ⟨rfl, nofun⟩

theorem map_zipWith_add {left right : List Int32} {bound : Int} (fits : bound + 32768 < 2 ^ 31)
    (smallLeft : ∀ sum ∈ left, |sum.toInt| ≤ bound) (smallRight : ∀ sum ∈ right, |sum.toInt| ≤ 32768) :
    (left.zipWith (· + ·) right).map Int32.toInt =
        (left.map Int32.toInt).zipWith (· + ·) (right.map Int32.toInt) ∧
      ∀ sum ∈ left.zipWith (· + ·) right, |sum.toInt| ≤ bound + 32768 := by
  induction left generalizing right with
  | nil => exact ⟨rfl, nofun⟩
  | cons first rest ih =>
    cases right with
    | nil => exact ⟨rfl, nofun⟩
    | cons added others =>
      obtain ⟨same, small⟩ := ih (List.forall_mem_cons.mp smallLeft).2
        (List.forall_mem_cons.mp smallRight).2
      have total : |first.toInt + added.toInt| ≤ bound + 32768 :=
        (abs_add_le _ _).trans (add_le_add (List.forall_mem_cons.mp smallLeft).1
          (List.forall_mem_cons.mp smallRight).1)
      have sum := toInt_add_of_abs total fits
      simp only [List.zipWith_cons_cons, List.map_cons, same, sum, List.mem_cons,
        forall_eq_or_imp, total, true_and]
      exact small

theorem avx2Lanes_exact {chunks : Nat} {sums : List Int32} {bound : Int} {left right : List Int8}
    (small : ∀ sum ∈ sums, |sum.toInt| ≤ bound) (fits : bound + chunks * 32768 < 2 ^ 31) :
    (avx2Lanes chunks sums left right).map Int32.toInt =
      exactLanes chunks (sums.map Int32.toInt) left right := by
  induction chunks generalizing sums bound left right with
  | zero => rfl
  | succ chunks ih =>
    obtain ⟨same, products⟩ := maddCodes_exact (left.take 16) (right.take 16)
    have productsSmall : ∀ sum ∈ maddCodes (left.take 16) (right.take 16),
        |sum.toInt| ≤ 32768 := fun sum member =>
      products _ (same ▸ List.mem_map_of_mem member)
    push_cast at fits
    obtain ⟨added, addedSmall⟩ := map_zipWith_add (by omega) small productsSmall
    unfold avx2Lanes exactLanes
    rw [ih addedSmall (by omega), added, same]

theorem exactMadd_sum (left right : List Int8) (even : left.length % 2 = 0)
    (sameLength : left.length = right.length) :
    (exactMadd left right).sum = codeDot left right ∧
      (exactMadd left right).length = left.length / 2 := by
  fun_induction exactMadd left right with
  | case1 l0 l1 left r0 r1 right ih =>
    simp only [List.length_cons] at even sameLength
    obtain ⟨sum, length⟩ := ih (by omega) (by omega)
    simp only [List.sum_cons, List.length_cons, sum, length, codeDot, List.zipWith_cons_cons]
    exact ⟨by omega, by omega⟩
  | case2 left right short =>
    cases left with
    | nil => simp [codeDot]
    | cons l0 left =>
      cases left with
      | nil => simp at even
      | cons l1 left =>
        cases right with
        | nil => simp at sameLength
        | cons r0 right =>
          cases right with
          | nil => simp at sameLength
          | cons r1 right => exact (short l0 l1 left r0 r1 right rfl rfl).elim

theorem sum_zipWith_add {left right : List Int} (sameLength : left.length = right.length) :
    (left.zipWith (· + ·) right).sum = left.sum + right.sum := by
  induction left generalizing right with
  | nil =>
    rw [List.eq_nil_of_length_eq_zero sameLength.symm]
    rfl
  | cons first rest ih =>
    cases right with
    | nil => cases sameLength
    | cons added others =>
      rw [List.zipWith_cons_cons, List.sum_cons, List.sum_cons, List.sum_cons,
        ih (Nat.succ.inj sameLength)]
      omega

theorem exactLanes_sum {chunks : Nat} {sums : List Int} {left right : List Int8}
    (eight : sums.length = 8) (long : chunks * 16 ≤ left.length)
    (sameLength : left.length = right.length) :
    (exactLanes chunks sums left right).sum =
      sums.sum + codeDot (left.take (chunks * 16)) (right.take (chunks * 16)) := by
  induction chunks generalizing sums left right with
  | zero => simp [exactLanes, codeDot]
  | succ chunks ih =>
    have whole : (left.take 16).length = 16 := by
      rw [List.length_take]
      omega
    have wholeRight : (right.take 16).length = 16 := by
      rw [List.length_take]
      omega
    obtain ⟨sum, length⟩ := exactMadd_sum (left.take 16) (right.take 16) (by rw [whole])
      (whole.trans wholeRight.symm)
    rw [whole] at length
    have paired : sums.length = (exactMadd (left.take 16) (right.take 16)).length :=
      eight.trans length.symm
    have added := sum_zipWith_add paired
    have rest := @ih
      (sums.zipWith (· + ·) (exactMadd (left.take 16) (right.take 16))) (left.drop 16)
      (right.drop 16) (by rw [List.length_zipWith]; omega) (by rw [List.length_drop]; omega)
      (by rw [List.length_drop, List.length_drop]; omega)
    have split := codeDot_split 16 (left.take ((chunks + 1) * 16)) (right.take ((chunks + 1) * 16))
    rw [List.take_take, List.take_take, List.drop_take, List.drop_take,
      Nat.min_eq_left (by omega), show (chunks + 1) * 16 - 16 = chunks * 16 by omega] at split
    unfold exactLanes
    rw [rest, added, sum, split]
    omega

theorem abs_codeDot_le (left right : List Int8) : |codeDot left right| ≤ left.length * 16384 := by
  induction left generalizing right with
  | nil => simp [codeDot]
  | cons first rest ih =>
    cases right with
    | nil =>
      simp only [codeDot, List.zipWith_nil_right, List.sum_nil, abs_zero]
      omega
    | cons added others =>
      have product := abs_le.mp (abs_mul_code first added)
      have remaining := abs_le.mp (ih others)
      simp only [codeDot, List.zipWith_cons_cons, List.sum_cons, List.length_cons] at remaining ⊢
      rw [abs_le]
      push_cast
      constructor <;> omega

theorem toInt_ofInt_codeDot {left right : List Int8} (short : left.length ≤ 65536) :
    (Int64.ofInt (codeDot left right)).toInt = codeDot left right := by
  have bound := abs_le.mp (abs_codeDot_le left right)
  exact Int64.toInt_ofInt_of_le (by omega) (by omega)

theorem avx2Lanes_start {chunks : Nat} (few : chunks ≤ 4096) (left right : List Int8) :
    (avx2Lanes chunks (List.replicate 8 0) left right).map Int32.toInt =
      exactLanes chunks (List.replicate 8 0) left right := by
  have zeros : ∀ sum ∈ List.replicate 8 (0 : Int32), |sum.toInt| ≤ 0 := by
    intro sum member
    rw [List.eq_of_mem_replicate member, Int32.toInt_zero, abs_zero]
  exact avx2Lanes_exact zeros (by omega)

theorem quantizedIntegerDotAvx2_eq {left right : List Int8} (sameLength : left.length = right.length)
    (short : left.length ≤ 65536) :
    quantizedIntegerDotAvx2 left right = Int64.ofInt (codeDot left right) := by
  have widened : ∀ lanes : List Int32,
      (lanes.map Int32.toInt64).sum = Int64.ofInt (lanes.map Int32.toInt).sum := fun lanes => by
    rw [← sum_ofInt, List.map_map]
    refine congrArg List.sum (List.map_congr_left fun lane _ => ?_)
    rw [Function.comp_apply, ← Int32.toInt_toInt64, Int64.ofInt_toInt]
  have chunks : (exactLanes (left.length / 16) (List.replicate 8 0) left right).sum = 0 + _ :=
    exactLanes_sum rfl (by omega) sameLength
  unfold quantizedIntegerDotAvx2
  simp only
  rw [widened, avx2Lanes_start (by omega), chunks, Int.zero_add, quantizedIntegerDotPortable_eq,
    codeDot_split (left.length / 16 * 16) left right, Int64.ofInt_add]

/-- For codes of at most 65,536 components the vector instructions compute the sum of the
products, every sum of 32 bits is exact at every chunk, and so does the portable loop; the
integer of the norm of bytes is the product of the codes with themselves, of any length. -/
theorem integer_dots_exact :
    (∀ left right : List Int8, left.length = right.length → left.length ≤ 65536 →
      (quantizedIntegerDotAvx2 left right).toInt = codeDot left right ∧
      (quantizedIntegerDotPortable left right).toInt = codeDot left right ∧
      ∀ chunks ≤ left.length / 16,
        (avx2Lanes chunks (List.replicate 8 0) left right).map Int32.toInt =
          exactLanes chunks (List.replicate 8 0) left right) ∧
    ∀ (avx2 : Bool) (codes : Bytes), integerSquaredNormBytes codes =
      quantizedIntegerDot avx2 (codes.map UInt8.toInt8) (codes.map UInt8.toInt8) := by
  refine ⟨fun left right sameLength short => ⟨?_, ?_, fun chunks few => ?_⟩, fun avx2 codes => ?_⟩
  · rw [quantizedIntegerDotAvx2_eq sameLength short, toInt_ofInt_codeDot short]
  · rw [quantizedIntegerDotPortable_eq, toInt_ofInt_codeDot short]
  · exact avx2Lanes_start (by omega) left right
  · rw [integerSquaredNormBytes_eq]
    unfold quantizedIntegerDot
    split
    next vectorized => rw [quantizedIntegerDotAvx2_eq rfl vectorized.1]
    next => rw [quantizedIntegerDotPortable_eq]

/-- Seventeen times the smallest code. -/
theorem smallest_codes_dot :
    (quantizedIntegerDotAvx2 (List.replicate 17 (-128)) (List.replicate 17 (-128))).toInt =
      278528 :=
  (integer_dots_exact.1 _ _ rfl (by decide)).1.trans (by decide)

end FocalVector.Hnsw
