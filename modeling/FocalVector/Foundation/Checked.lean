import Mathlib.Algebra.Order.Ring.Nat
import Mathlib.Data.List.Basic
import Mathlib.Tactic.Basic

/-!
Contract: computations that may panic.

A checked computation returns a value, fails with an error of its own, panics, or
does not come to its end within a bound that is given for its loops. Reading a list
out of its range panics, and so does asking for more memory than an allocation may
have.

Owns: `Stop`, `Checked`, checked access to lists, capacity requests, the computations that
end by themselves, the rules for folds that always return, and those for computations that
end in the same way.

Does not own: the errors of a computation.
-/

namespace FocalVector.Foundation

/-- Why a computation panics. -/
inductive Panic where
  /-- An index or a slice is out of range. -/
  | index
  /-- `expect` on nothing. -/
  | expect
  /-- An assertion fails, or code that should not be reached is. -/
  | assertion
  /-- The result of an arithmetic operation does not fit its type. -/
  | overflow
  /-- More bytes are asked for than an allocation may have. -/
  | capacity
deriving DecidableEq, Repr

/-- How a computation ends without a value. -/
inductive Stop (ε : Type) where
  | error (error : ε)
  | panic (reason : Panic)
  /-- A loop went on for longer than its bound. -/
  | unfinished
deriving DecidableEq, Repr

/-- A computation that may fail, panic or not end. -/
abbrev Checked (ε α : Type) := Except (Stop ε) α

namespace Checked

variable {ε α β σ τ : Type}

def panic (reason : Panic) : Checked ε α := .error (.panic reason)

def ofResult (result : Except ε α) : Checked ε α := result.mapError .error

/-- `list[position]` -/
def get (list : List α) (position : Nat) : Checked ε α :=
  match list[position]? with
  | some value => .ok value
  | none => panic .index

/-- `list[start..stop]` -/
def slice (list : List α) (start stop : Nat) : Checked ε (List α) :=
  if start ≤ stop ∧ stop ≤ list.length then .ok ((list.drop start).take (stop - start))
  else panic .index

/-- `expect` -/
def expect (value : Option α) : Checked ε α :=
  match value with
  | some value => .ok value
  | none => panic .expect

/-- Panic unless a condition holds. -/
def assert (holds : Prop) [Decidable holds] : Checked ε Unit :=
  if holds then .ok () else panic .assertion

/-- The value of a `usize` expression. -/
def usize (value : Nat) : Checked ε Nat :=
  if value < 2 ^ 64 then .ok value else panic .overflow

/-- Ask for memory for a number of items. -/
def capacity (count size : Nat) : Checked ε Unit :=
  if count * size < 2 ^ 63 then .ok () else panic .capacity

variable {list : List α} {value : α}

theorem get_of_getElem? {position : Nat}
    (found : list[position]? = some value) : (get list position : Checked ε α) = .ok value := by
  unfold get
  rw [found]

theorem get_eq_ok {position : Nat} :
    (get list position : Checked ε α) = .ok value ↔ list[position]? = some value := by
  unfold get
  cases list[position]? with
  | none => simp [panic]
  | some found => simp

theorem exists_get {list : List α} {position : Nat} (inside : position < list.length) :
    ∃ value, list[position]? = some value ∧ (get list position : Checked ε α) = .ok value :=
  ⟨list[position], List.getElem?_eq_getElem inside,
    get_of_getElem? (List.getElem?_eq_getElem inside)⟩

theorem slice_of_le {start stop : Nat} (ordered : start ≤ stop)
    (inside : stop ≤ list.length) :
    (slice list start stop : Checked ε (List α)) = .ok ((list.drop start).take (stop - start)) :=
  if_pos ⟨ordered, inside⟩

theorem usize_of_lt {value : Nat} (fits : value < 2 ^ 64) :
    (usize value : Checked ε Nat) = .ok value := if_pos fits

theorem capacity_of_lt {count size : Nat} (fits : count * size < 2 ^ 63) :
    (capacity count size : Checked ε Unit) = .ok () := if_pos fits

@[simp] theorem assert_of {holds : Prop} [Decidable holds] (isTrue : holds) :
    (assert holds : Checked ε Unit) = .ok () := if_pos isTrue

variable {computation : Checked ε α} {next : α → Checked ε β}

theorem bind_ok (returns : computation = .ok value) : (computation >>= next) = next value := by
  rw [returns]
  rfl

theorem of_bind_ok {result : β}
    (returns : (computation >>= next) = .ok result) :
    ∃ value, computation = .ok value ∧ next value = .ok result := by
  cases computation with
  | error stop => cases returns
  | ok value => exact ⟨value, rfl, returns⟩

theorem ofResult_bind (result : Except ε α) (next : α → Except ε β) :
    ofResult (result >>= next) = ofResult result >>= fun value => ofResult (next value) := by
  cases result with
  | error error => rfl
  | ok value => rfl

/-! ## Computations that end by themselves -/

/-- The computation returns a value or an error of its own. -/
def Settles (run : Checked ε α) : Prop :=
  match run with
  | .ok _ => True
  | .error (.error _) => True
  | .error _ => False

instance (run : Checked ε α) : Decidable run.Settles := by
  unfold Settles
  split <;> infer_instance

@[simp] theorem settles_ofResult (result : Except ε α) : (ofResult result).Settles := by
  cases result with
  | error error => trivial
  | ok value => trivial

/-- A sequence ends by itself when its parts do, the later ones where they are run. -/
theorem settles_bind : (computation >>= next).Settles ↔
      computation.Settles ∧ ∀ value, computation = .ok value → (next value).Settles := by
  cases computation with
  | ok value =>
    exact ⟨fun settles => ⟨trivial, fun _ same => Except.ok.inj same ▸ settles⟩,
      fun settles => settles.2 value rfl⟩
  | error stop =>
    refine ⟨fun settles => ⟨?_, nofun⟩, fun settles => ?_⟩
    · cases stop with
      | error => trivial
      | panic => exact settles
      | unfinished => exact settles
    · cases stop with
      | error => trivial
      | panic => exact settles.1
      | unfinished => exact settles.1

theorem settles_ofResult_bind {result : Except ε α} :
    (ofResult result >>= next).Settles ↔ ∀ value, result = .ok value → (next value).Settles := by
  cases result with
  | error error => exact ⟨fun _ => nofun, fun _ => trivial⟩
  | ok value =>
    exact ⟨fun settles _ same => Except.ok.inj same ▸ settles, fun settles => settles value rfl⟩

theorem settles_capacity_bind {count size : Nat} {next : Unit → Checked ε β} :
    (capacity count size >>= next).Settles ↔ count * size < 2 ^ 63 ∧ (next ()).Settles := by
  unfold capacity
  split
  next fits => exact ⟨fun settles => ⟨fits, settles⟩, And.right⟩
  next large => exact ⟨fun settles => settles.elim, fun settles => large settles.1⟩

/-! ## Folds that return -/

/-- A fold whose steps all return, and keep a relation to the steps of a fold without
stops, returns. -/
theorem foldlM_simulates {step : σ → α → Checked ε σ} {pureStep : τ → α → τ}
    {related : σ → τ → Prop} {list : List α}
    (steps : ∀ item ∈ list, ∀ state abstract, related state abstract →
      ∃ next, step state item = .ok next ∧ related next (pureStep abstract item))
    {state : σ} {abstract : τ} (start : related state abstract) :
    ∃ final, list.foldlM step state = .ok final ∧ related final (list.foldl pureStep abstract) := by
  induction list generalizing state abstract with
  | nil => exact ⟨state, rfl, start⟩
  | cons item rest ih =>
    obtain ⟨next, returns, kept⟩ := steps item List.mem_cons_self state abstract start
    obtain ⟨final, returnsRest, keptRest⟩ := ih
      (fun later member => steps later (List.mem_cons_of_mem _ member)) kept
    exact ⟨final, by rw [List.foldlM_cons, bind_ok returns, returnsRest], keptRest⟩

theorem mapM_of_forall {f : α → Except ε β} {g : α → β}
    (each : ∀ item ∈ list, f item = .ok (g item)) : list.mapM f = .ok (list.map g) := by
  induction list with
  | nil => rfl
  | cons item rest ih =>
    rw [List.mapM_cons, each item List.mem_cons_self,
      ih fun later member => each later (List.mem_cons_of_mem _ member)]
    rfl

theorem foldlM_gathers {step : σ → α → Except ε σ} {adds : α → List β} {holds : List β → σ → Prop}
    {state final : σ} {gathered : List β} (folds : list.foldlM step state = .ok final)
    (each : ∀ item ∈ list, ∀ gathered state next, holds gathered state →
      step state item = .ok next → holds (gathered ++ adds item) next)
    (start : holds gathered state) : holds (gathered ++ list.flatMap adds) final := by
  induction list generalizing state gathered with
  | nil =>
    rw [List.flatMap_nil, List.append_nil]
    exact Except.ok.inj folds ▸ start
  | cons item rest ih =>
    rw [List.foldlM_cons] at folds
    cases first : step state item with
    | error error => simp [first, bind, Except.bind] at folds
    | ok next =>
      rw [first] at folds
      rw [List.flatMap_cons, ← List.append_assoc]
      exact ih folds (fun item member => each item (List.mem_cons_of_mem _ member))
        (each item List.mem_cons_self gathered state next start first)

theorem foldlM_keeps {step : σ → α → Except ε σ} {holds : σ → Prop} {state final : σ}
    (folds : list.foldlM step state = .ok final)
    (each : ∀ item ∈ list, ∀ state next, holds state → step state item = .ok next → holds next)
    (start : holds state) : holds final :=
  @foldlM_gathers ε α Unit σ list step (fun _ => []) (fun _ => holds) state final [] folds
    (fun item member _ => each item member) start

theorem of_mapM {f : α → Except ε β} {results : List β} (maps : list.mapM f = .ok results) :
    List.Forall₂ (fun item result => f item = .ok result) list results := by
  induction list generalizing results with
  | nil =>
    cases maps
    exact .nil
  | cons item rest ih =>
    rw [List.mapM_cons] at maps
    cases first : f item with
    | error error => simp [first, bind, Except.bind] at maps
    | ok result =>
      cases later : rest.mapM f with
      | error error => simp [first, later, bind, Except.bind] at maps
      | ok others =>
        simp only [first, later, bind, Except.bind, pure, Except.pure, Except.ok.injEq] at maps
        exact maps ▸ .cons first (ih later)

theorem exists_of_forall₂ {list : List α} {results : List β} {gives : α → β → Prop}
    (all : List.Forall₂ gives list results) : ∀ result ∈ results, ∃ item ∈ list, gives item result := by
  induction all with
  | nil => simp
  | cons first _ ih =>
    refine List.forall_mem_cons.mpr ⟨⟨_, List.mem_cons_self, first⟩, fun result member => ?_⟩
    obtain ⟨source, isSource, given⟩ := ih result member
    exact ⟨source, List.mem_cons_of_mem _ isSource, given⟩

/-! ## Computations that end in the same way -/

variable {γ δ : Type} {relation : α → β → Prop}

/-- Both computations return, and related values, or stop for the same reason. -/
inductive Related (relation : α → β → Prop) : Checked ε α → Checked ε β → Prop where
  | ok {left : α} {right : β} (related : relation left right) :
      Related relation (.ok left) (.ok right)
  | stop (reason : Stop ε) : Related relation (.error reason) (.error reason)

namespace Related

variable {left : Checked ε α}

theorem eq {right : Checked ε α} (related : Related Eq left right) : left = right := by
  cases related with
  | ok same => rw [same]
  | stop reason => rfl

theorem of_eq {right : Checked ε α} (same : left = right) : Related Eq left right := by
  rw [same]
  cases right with
  | ok value => exact .ok rfl
  | error reason => exact .stop reason

theorem bind {next : γ → δ → Prop} {left : Checked ε α} {right : Checked ε β}
    {leftNext : α → Checked ε γ} {rightNext : β → Checked ε δ} (first : Related relation left right)
    (rest : ∀ leftValue rightValue, relation leftValue rightValue →
      Related next (leftNext leftValue) (rightNext rightValue)) :
    Related next (left >>= leftNext) (right >>= rightNext) := by
  cases first with
  | ok related => exact rest _ _ related
  | stop reason => exact .stop reason

/-- Both computations begin with the same one. -/
theorem bind_same {next : γ → δ → Prop} (first : Checked ε α) {leftNext : α → Checked ε γ}
    {rightNext : α → Checked ε δ} (rest : ∀ value, Related next (leftNext value) (rightNext value)) :
    Related next (first >>= leftNext) (first >>= rightNext) := by
  cases first with
  | ok value => exact rest value
  | error reason => exact .stop reason

theorem foldlM {related : σ → τ → Prop} {leftStep : σ → α → Checked ε σ}
    {rightStep : τ → α → Checked ε τ} (items : List α)
    (step : ∀ item left right, related left right →
      Related related (leftStep left item) (rightStep right item))
    {left : σ} {right : τ} (start : related left right) :
    Related related (items.foldlM leftStep left) (items.foldlM rightStep right) := by
  induction items generalizing left right with
  | nil => exact .ok start
  | cons item rest ih =>
    rw [List.foldlM_cons, List.foldlM_cons]
    exact (step item left right start).bind fun _ _ related => ih related

variable {right : Checked ε β}

theorem mono {weaker : α → β → Prop}
    (related : Related relation left right)
    (implies : ∀ leftValue rightValue, relation leftValue rightValue → weaker leftValue rightValue) :
    Related weaker left right := by
  cases related with
  | ok both => exact .ok (implies _ _ both)
  | stop reason => exact .stop reason

/-- What the first computation returns is used, what the second returns is kept. -/
theorem map_left {next : γ → β → Prop} {view : α → γ}
    (related : Related relation left right)
    (implies : ∀ leftValue rightValue, relation leftValue rightValue →
      next (view leftValue) rightValue) :
    Related next (left >>= fun value => pure (view value)) right := by
  cases related with
  | ok both => exact .ok (implies _ _ both)
  | stop reason => exact .stop reason

theorem symm (related : Related relation left right) :
    Related (fun rightValue leftValue => relation leftValue rightValue) right left := by
  cases related with
  | ok both => exact .ok both
  | stop reason => exact .stop reason

end Related

end Checked

end FocalVector.Foundation
