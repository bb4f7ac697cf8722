import Mathlib.Data.List.Basic

/-!
Contract: distributing a list over numbered buckets, and cutting it into chunks.

Owns: `buckets`, which appends every item to the bucket it is assigned to, what each
bucket holds in the end, and `chunks`, which together are the list.

Does not own: how items are assigned.
-/

namespace FocalVector.Foundation

variable {α : Type}

def buckets (assign : α → Nat) (count : Nat) (items : List α) : List (List α) :=
  items.foldl (fun filled item => filled.modify (assign item) (· ++ [item]))
    (List.replicate count [])

private theorem getElem?_foldl_modify {assign : α → Nat} {items : List α} (filled : List (List α))
    (number : Nat) :
    (items.foldl (fun filled item => filled.modify (assign item) (· ++ [item])) filled)[number]? =
      filled[number]?.map (· ++ items.filter (assign · = number)) := by
  induction items generalizing filled with
  | nil => simp
  | cons item rest ih =>
    rw [List.foldl_cons, ih, List.getElem?_modify]
    by_cases here : assign item = number
    · cases filled[number]? <;> simp [here]
    · cases filled[number]? <;> simp [here]

theorem buckets_length (assign : α → Nat) (count : Nat) (items : List α) :
    (buckets assign count items).length = count := by
  unfold buckets
  have kept : ∀ filled : List (List α), (items.foldl (fun filled item =>
      filled.modify (assign item) (· ++ [item])) filled).length = filled.length := by
    induction items with
    | nil => exact fun _ => rfl
    | cons item rest ih =>
      intro filled
      rw [List.foldl_cons, ih, List.length_modify]
  rw [kept, List.length_replicate]

theorem getElem?_buckets (assign : α → Nat) {count number : Nat} (within : number < count)
    (items : List α) :
    (buckets assign count items)[number]? = some (items.filter (assign · = number)) := by
  unfold buckets
  rw [getElem?_foldl_modify, List.getElem?_replicate, if_pos within]
  simp

/-! ## Chunks -/

/-- `left.div_ceil(right)` -/
def divCeil (left right : Nat) : Nat := (left + right - 1) / right

/-- `chunks(size)`: the list in pieces of a size, the last one as long as is left. -/
def chunks (size : Nat) (items : List α) : List (List α) :=
  (List.range (divCeil items.length size)).map fun number => (items.drop (number * size)).take size

theorem length_chunks (size : Nat) (items : List α) :
    (chunks size items).length = divCeil items.length size := by
  rw [chunks, List.length_map, List.length_range]

theorem le_divCeil_mul {size : Nat} (positive : 0 < size) (count : Nat) :
    count ≤ divCeil count size * size := by
  have divided := Nat.div_add_mod (count + size - 1) size
  have rest := Nat.mod_lt (count + size - 1) positive
  unfold divCeil
  rw [Nat.mul_comm]
  omega

/-- The chunks follow each other without gaps. -/
theorem flatten_chunks {size : Nat} (positive : 0 < size) (items : List α) :
    (chunks size items).flatten = items := by
  have front : ∀ count, ((List.range count).map fun number =>
      (items.drop (number * size)).take size).flatten = items.take (count * size) := by
    intro count
    induction count with
    | zero => simp
    | succ count ih =>
      rw [List.range_succ, List.map_append, List.flatten_append, ih,
        Nat.succ_mul, List.take_add]
      simp
  rw [chunks, front]
  exact List.take_of_length_le (le_divCeil_mul positive items.length)

/-- A list cut into as many pieces as there are places fits them. -/
theorem divCeil_divCeil_le {places : Nat} (positive : 0 < places) (count : Nat) :
    divCeil count (divCeil count places) ≤ places := by
  rcases Nat.eq_zero_or_pos count with rfl | nonempty
  · have none : divCeil 0 places = 0 := Nat.div_eq_of_lt (by omega)
    rw [none, divCeil, Nat.div_zero]
    exact Nat.zero_le places
  · have enough := le_divCeil_mul positive count
    have size : 0 < divCeil count places := Nat.pos_of_ne_zero fun none => by
      rw [none] at enough
      omega
    unfold divCeil at size enough ⊢
    refine Nat.le_of_lt_succ ((Nat.div_lt_iff_lt_mul size).mpr ?_)
    rw [Nat.succ_mul, Nat.mul_comm]
    omega

end FocalVector.Foundation
