import Mathlib.Tactic.Basic
import Mathlib.Data.List.Basic
import Std.Data.ExtTreeMap.Lemmas

/-!
Contract: updates of a keyed store that overwrite.

An update says for each key whether it leaves the key alone, removes it or
sets it, and never looks at what was there. The value of a key after a list
of updates is therefore decided by the last update that touches it, which is
why replaying a whole list over its own result changes nothing, and why an
update that captures every changed key carries a store from one point of its
history to a later one.

Owns: `Overwrite`, its application to lookups, replay and capture laws, the
states along a history of updates, and an ordered map rebuilt by the insertion of its
entries.

Does not own: how a store represents its keys and values.
-/

namespace FocalVector.Foundation

/-- What an update does to each key: nothing, removal, or a new value. -/
abbrev Overwrite (κ ν : Type) := κ → Option (Option ν)

namespace Overwrite

variable {κ ν : Type}

def apply (update : Overwrite κ ν) (lookup : κ → Option ν) : κ → Option ν :=
  fun key => (update key).getD (lookup key)

def applyAll (updates : List (Overwrite κ ν)) (lookup : κ → Option ν) : κ → Option ν :=
  updates.foldl (fun current update => update.apply current) lookup

def Touched (updates : List (Overwrite κ ν)) (key : κ) : Prop :=
  ∃ update ∈ updates, update key ≠ none

variable {updates : List (Overwrite κ ν)} {lookup : κ → Option ν} {key : κ}

variable {update : Overwrite κ ν}

theorem apply_of_none (untouched : update key = none) :
    update.apply lookup key = lookup key := by
  simp [apply, untouched]

theorem apply_of_some {value : Option ν}
    (touched : update key = some value) : update.apply lookup key = value := by
  simp [apply, touched]

@[simp] theorem applyAll_nil : applyAll [] lookup = lookup := rfl

@[simp] theorem applyAll_cons (update : Overwrite κ ν) :
    applyAll (update :: updates) lookup = applyAll updates (update.apply lookup) := rfl

theorem applyAll_append (left right : List (Overwrite κ ν)) :
    applyAll (left ++ right) lookup = applyAll right (applyAll left lookup) :=
  List.foldl_append

theorem applyAll_of_untouched (untouched : ¬ Touched updates key) :
    applyAll updates lookup key = lookup key := by
  induction updates generalizing lookup with
  | nil => rfl
  | cons head tail ih =>
    have headSilent : head key = none := by
      by_contra speaks
      exact untouched ⟨head, List.mem_cons_self, speaks⟩
    have tailUntouched : ¬ Touched tail key :=
      fun ⟨update, member, speaks⟩ =>
        untouched ⟨update, List.mem_cons_of_mem _ member, speaks⟩
    rw [applyAll_cons, ih tailUntouched, apply_of_none headSilent]

theorem applyAll_of_touched (touched : Touched updates key) (left right : κ → Option ν) :
    applyAll updates left key = applyAll updates right key := by
  induction updates generalizing left right with
  | nil => obtain ⟨_, member, _⟩ := touched; cases member
  | cons head tail ih =>
    simp only [applyAll_cons]
    by_cases inTail : Touched tail key
    · exact ih inTail _ _
    · obtain ⟨update, member, speaks⟩ := touched
      have isHead : update = head := by
        rcases List.mem_cons.mp member with same | later
        · exact same
        · exact absurd ⟨update, later, speaks⟩ inTail
      subst isHead
      obtain ⟨value, sets⟩ := Option.ne_none_iff_exists'.mp speaks
      rw [applyAll_of_untouched inTail, applyAll_of_untouched inTail,
        apply_of_some sets, apply_of_some sets]

theorem applyAll_replay (updates : List (Overwrite κ ν)) (lookup : κ → Option ν) :
    applyAll updates (applyAll updates lookup) = applyAll updates lookup := by
  funext key
  by_cases touched : Touched updates key
  · exact applyAll_of_touched touched _ _
  · exact applyAll_of_untouched touched

/-! ## Capturing changes -/

/-- The update that brings the chosen keys to their values in a given state. -/
def capture (chosen : κ → Bool) (state : κ → Option ν) : Overwrite κ ν :=
  fun key => if chosen key then some (state key) else none

theorem capture_apply {chosen : κ → Bool} {state : κ → Option ν}
    (covers : ∀ key, chosen key = false → state key = lookup key) :
    (capture chosen state).apply lookup = state := by
  funext key
  cases decision : chosen key with
  | true => simp [capture, apply, decision]
  | false => simp [capture, apply, decision, covers key decision]

/-! ## Histories -/

/-- The state after the first `count` updates of a history. -/
def stateAt (history : List (Overwrite κ ν)) (count : Nat) : κ → Option ν :=
  applyAll (history.take count) fun _ => none

variable {history : List (Overwrite κ ν)}

/-- Some update after the first `start` and among the first `stop` touches the key. -/
def ChangedBetween (history : List (Overwrite κ ν)) (start stop : Nat) (key : κ) : Prop :=
  ∃ position update, start ≤ position ∧ position < stop ∧
    history[position]? = some update ∧ update key ≠ none

variable {start stop : Nat}

theorem stateAt_eq_applyAll (ordered : start ≤ stop) :
    stateAt history stop = applyAll ((history.take stop).drop start) (stateAt history start) := by
  unfold stateAt
  rw [← applyAll_append]
  congr 1
  rw [show history.take start = (history.take stop).take start by
    rw [List.take_take, Nat.min_eq_left ordered], List.take_append_drop]

theorem stateAt_of_not_changed (ordered : start ≤ stop)
    (unchanged : ¬ ChangedBetween history start stop key) :
    stateAt history stop key = stateAt history start key := by
  rw [stateAt_eq_applyAll ordered]
  refine applyAll_of_untouched ?_
  rintro ⟨update, member, speaks⟩
  obtain ⟨offset, found⟩ := List.mem_iff_getElem?.mp member
  rw [List.getElem?_drop, List.getElem?_take] at found
  split at found
  · exact unchanged ⟨start + offset, update, by omega, by assumption, found, speaks⟩
  · contradiction

theorem exists_update_of_stateAt {count : Nat} {value : ν}
    (found : stateAt history count key = some value) :
    ∃ position update, position < count ∧ history[position]? = some update ∧
      update key = some (some value) := by
  induction count with
  | zero => simp [stateAt] at found
  | succ count ih =>
    cases lookup : history[count]? with
    | none =>
      have beyond : history.length ≤ count := List.getElem?_eq_none_iff.mp lookup
      have same : stateAt history (count + 1) = stateAt history count := by
        unfold stateAt
        rw [List.take_of_length_le (by omega), List.take_of_length_le beyond]
      rw [same] at found
      obtain ⟨position, update, low, rest⟩ := ih found
      exact ⟨position, update, by omega, rest⟩
    | some update =>
      have step : stateAt history (count + 1) = update.apply (stateAt history count) := by
        unfold stateAt
        rw [List.take_add_one, lookup, applyAll_append]
        rfl
      rw [step] at found
      cases speaks : update key with
      | none =>
        rw [apply_of_none speaks] at found
        obtain ⟨position, earlier, low, rest⟩ := ih found
        exact ⟨position, earlier, by omega, rest⟩
      | some result =>
        rw [apply_of_some speaks] at found
        exact ⟨count, update, by omega, lookup, by rw [speaks, found]⟩

theorem ChangedBetween.of_append {later : List (Overwrite κ ν)}
    (within : stop ≤ history.length)
    (changed : ChangedBetween (history ++ later) start stop key) :
    ChangedBetween history start stop key := by
  obtain ⟨position, update, low, high, found, speaks⟩ := changed
  rw [List.getElem?_append_left (by omega)] at found
  exact ⟨position, update, low, high, found, speaks⟩

theorem ChangedBetween.widen {start' stop' : Nat}
    (changed : ChangedBetween history start stop key)
    (earlier : start' ≤ start) (later : stop ≤ stop') :
    ChangedBetween history start' stop' key := by
  obtain ⟨position, update, low, high, found, speaks⟩ := changed
  exact ⟨position, update, by omega, by omega, found, speaks⟩

/-- A change in an interval lies before or after any point of it. -/
theorem ChangedBetween.split (middle : Nat)
    (changed : ChangedBetween history start stop key) :
    ChangedBetween history start middle key ∨ ChangedBetween history middle stop key := by
  obtain ⟨position, update, low, high, found, speaks⟩ := changed
  by_cases early : position < middle
  · exact .inl ⟨position, update, low, early, found, speaks⟩
  · exact .inr ⟨position, update, by omega, high, found, speaks⟩

theorem ChangedBetween.of_last
    (changed : ChangedBetween (history ++ [update]) history.length stop key) :
    update key ≠ none := by
  obtain ⟨position, last, low, _, found, speaks⟩ := changed
  rw [List.getElem?_append_right low] at found
  have isLast := List.mem_of_getElem? found
  rw [List.mem_singleton] at isLast
  exact isLast ▸ speaks

end Overwrite

theorem OrderedMap.foldl_insert_toList {κ ν : Type} [DecidableEq κ] [Ord κ] [Std.TransOrd κ] [Std.LawfulEqOrd κ]
    (map : Std.ExtTreeMap κ ν) :
    map.toList.foldl (fun rebuilt entry => rebuilt.insert entry.1 entry.2) ∅ = map := by
  rw [← Std.ExtTreeMap.ofList_eq_foldl]
  refine Std.ExtTreeMap.ext_getElem? fun key => ?_
  cases found : map[key]? with
  | some value =>
    exact Std.ExtTreeMap.getElem?_ofList_of_mem Std.ReflCmp.compare_self
      Std.ExtTreeMap.distinct_keys_toList
      (Std.ExtTreeMap.mem_toList_iff_getElem?_eq_some.mpr found)
  | none =>
    have absent : key ∉ map := fun member => by
      rw [Std.ExtTreeMap.mem_iff_isSome_getElem?, found] at member
      contradiction
    refine Std.ExtTreeMap.getElem?_eq_none fun member => absent ?_
    rw [Std.ExtTreeMap.mem_ofList, Std.ExtTreeMap.map_fst_toList_eq_keys] at member
    exact Std.ExtTreeMap.mem_keys.mp (List.contains_iff_mem.mp member)

end FocalVector.Foundation
