import FocalVector.Foundation.Json
import FocalVector.Foundation.Overwrite

/-!
Contract: typed values as JSON documents, in the forms a derived serialiser
gives them.

A structure is an object with one member for each field, in the order of the
fields, an enumeration a string or an object with a single member, an absent
option null, and a map an object whose names spell the keys.

Owns: `Serde`, the readers and writers of the basic types, and `Reads`, which
says exactly when a written value is read back.

Does not own: floating-point numbers, whose text is the business of their type.
-/

namespace FocalVector.Foundation

/-- A computation that ends in a value exactly when a condition holds. -/
def Yields {ε α : Type} (result : Except ε α) (value : α) (accepted : Prop) : Prop :=
  (accepted → result = .ok value) ∧ (¬ accepted → ∃ error, result = .error error)

namespace Yields

variable {ε α β : Type} {result : Except ε α} {value : α} {accepted : Prop}

theorem congr {other : Prop} (yields : Yields result value accepted)
    (same : accepted ↔ other) : Yields result value other := by
  rw [← same]
  exact yields

theorem ok (value : α) : Yields (.ok value : Except ε α) value True :=
  ⟨fun _ => rfl, fun absurd => (absurd trivial).elim⟩

theorem bind {next : α → Except ε β} {last : β} {acceptedNext : Prop}
    (first : Yields result value accepted) (second : Yields (next value) last acceptedNext) :
    Yields (result >>= next) last (accepted ∧ acceptedNext) := by
  constructor
  · rintro ⟨holds, holdsNext⟩
    rw [first.1 holds]
    exact second.1 holdsNext
  · intro fails
    by_cases holds : accepted
    · obtain ⟨error, stops⟩ := second.2 fun holdsNext => fails ⟨holds, holdsNext⟩
      refine ⟨error, ?_⟩
      rw [first.1 holds]
      exact stops
    · obtain ⟨error, stops⟩ := first.2 holds
      exact ⟨error, by rw [stops]; rfl⟩

/-- The last step of a sequence that only builds its result. -/
theorem bind_pure {f : α → β} (first : Yields result value accepted) :
    Yields (result >>= fun value => pure (f value)) (f value) accepted := by
  have last : Yields (pure (f value) : Except ε β) (f value) True := ok _
  exact (first.bind last).congr (and_iff_left trivial)

/-- A list read item by item is read exactly when each item is. -/
theorem mapM {γ : Type} {read : γ → Except ε α} {write : α → γ} {accepts : α → Prop}
    (values : List α) (each : ∀ value ∈ values, Yields (read (write value)) value (accepts value)) :
    Yields ((values.map write).mapM read) values (∀ value ∈ values, accepts value) := by
  induction values with
  | nil => exact (ok []).congr (by simp)
  | cons head tail ih =>
    rw [List.map_cons, List.mapM_cons]
    have first := each head List.mem_cons_self
    have rest := ih fun value member =>
      each value (List.mem_cons_of_mem _ member)
    exact (first.bind rest.bind_pure).congr List.forall_mem_cons.symm

end Yields

/-- How the values of a type are written as JSON and read back. -/
structure Serde (α : Type) where
  serialize : α → Json
  deserialize : Json → Except String α

namespace Serde

variable {α β κ ν : Type}

/-- What is written for a value is read back as that value exactly under the
condition, and refused otherwise. -/
def Reads (serde : Serde α) (value : α) (accepted : Prop) : Prop :=
  Yields (serde.deserialize (serde.serialize value)) value accepted

/-! ## Numbers -/

def naturalNumeral (value : Nat) : Numeral where
  chars := Nat.toDigits 10 value
  wellFormed := by
    have nonempty : Nat.toDigits 10 value ≠ [] := Nat.toDigits_ne_nil
    have digits : ∀ char ∈ Nat.toDigits 10 value, isNumeralChar char = true := by
      intro char member
      simp [isNumeralChar, Nat.isDigit_of_mem_toDigits (by decide) (by decide) member]
    simpa [isNumeral, nonempty] using digits

/-- The number that a run of decimal digits spells. -/
def readNatural (chars : List Char) : Option Nat :=
  if chars ≠ [] ∧ chars.all Char.isDigit then some (Nat.ofDigitChars 10 chars 0) else none

theorem readNatural_toDigits (value : Nat) : readNatural (Nat.toDigits 10 value) = some value := by
  have digits : (Nat.toDigits 10 value).all Char.isDigit = true :=
    List.all_eq_true.mpr fun _ member => Nat.isDigit_of_mem_toDigits (by decide) (by decide) member
  unfold readNatural
  rw [if_pos ⟨Nat.toDigits_ne_nil, digits⟩, Nat.ofDigitChars_ten_toDigits]

def word (typeName : String) (size : Nat) (toNat : α → Nat) (ofNat : Nat → α) : Serde α where
  serialize value := .number (naturalNumeral (toNat value))
  deserialize json :=
    match json with
    | .number numeral =>
      match readNatural numeral.chars with
      | some value =>
        if value < size then .ok (ofNat value)
        else .error s!"invalid value, expected {typeName}"
      | none => .error s!"invalid type, expected {typeName}"
    | _ => .error s!"invalid type, expected {typeName}"

def u8 : Serde UInt8 := word "u8" (2 ^ 8) UInt8.toNat UInt8.ofNat

def u32 : Serde UInt32 := word "u32" (2 ^ 32) UInt32.toNat UInt32.ofNat

def u64 : Serde UInt64 := word "u64" (2 ^ 64) UInt64.toNat UInt64.ofNat

theorem reads_word {typeName : String} {size : Nat} {toNat : α → Nat} {ofNat : Nat → α} {value : α}
    (small : toNat value < size) (inverse : ofNat (toNat value) = value) :
    (word typeName size toNat ofNat).Reads value True := by
  refine ⟨fun _ => ?_, fun absurd => (absurd trivial).elim⟩
  simp [word, naturalNumeral, readNatural_toDigits, small, inverse]

theorem reads_u8 (value : UInt8) : u8.Reads value True :=
  reads_word value.toNat_lt UInt8.ofNat_toNat

theorem reads_u32 (value : UInt32) : u32.Reads value True :=
  reads_word value.toNat_lt UInt32.ofNat_toNat

theorem reads_u64 (value : UInt64) : u64.Reads value True :=
  reads_word value.toNat_lt UInt64.ofNat_toNat

/-- A signed number: its sign and its digits. -/
def integerNumeral (value : Int) : Numeral where
  chars := if value < 0 then '-' :: (naturalNumeral value.natAbs).chars
    else (naturalNumeral value.natAbs).chars
  wellFormed := by
    have digits := (naturalNumeral value.natAbs).wellFormed
    simp only [isNumeral, Bool.and_eq_true, List.all_eq_true] at digits
    split
    · have sign : isNumeralChar '-' = true := by decide
      simpa [isNumeral, sign] using digits.2
    · simpa [isNumeral] using digits

def readInteger (chars : List Char) : Option Int :=
  if chars.head? = some '-' then (readNatural chars.tail).map fun value : Nat => -(value : Int)
  else (readNatural chars).map Int.ofNat

theorem readInteger_integerNumeral (value : Int) :
    readInteger (integerNumeral value).chars = some value := by
  unfold readInteger integerNumeral
  simp only [naturalNumeral]
  split
  next negative =>
    rw [if_pos (by rfl), List.tail_cons, readNatural_toDigits, Option.map_some]
    congr 1
    omega
  next nonnegative =>
    have unsigned : (Nat.toDigits 10 value.natAbs).head? ≠ some '-' := by
      intro starts
      have isDigit := Nat.isDigit_of_mem_toDigits (by decide) (by decide)
        (List.mem_of_mem_head? starts)
      exact absurd isDigit (by decide)
    rw [if_neg unsigned, readNatural_toDigits, Option.map_some]
    congr 1
    show (value.natAbs : Int) = value
    omega

def i64 : Serde Int64 where
  serialize value := .number (integerNumeral value.toInt)
  deserialize json :=
    match json with
    | .number numeral =>
      match readInteger numeral.chars with
      | some value =>
        if Int64.minValue.toInt ≤ value ∧ value ≤ Int64.maxValue.toInt then
          .ok (Int64.ofInt value)
        else .error "invalid value, expected i64"
      | none => .error "invalid type, expected i64"
    | _ => .error "invalid type, expected i64"

theorem reads_i64 (value : Int64) : i64.Reads value True := by
  refine ⟨fun _ => ?_, fun absurd => (absurd trivial).elim⟩
  have inside : Int64.minValue.toInt ≤ value.toInt ∧ value.toInt ≤ Int64.maxValue.toInt :=
    ⟨value.minValue_le_toInt, value.toInt_le⟩
  simp only [i64, readInteger_integerNumeral, if_pos inside, Int64.ofInt_toInt]

/-! ## Strings, booleans, options and lists -/

def bool : Serde Bool where
  serialize := .bool
  deserialize json :=
    match json with
    | .bool value => .ok value
    | _ => .error "invalid type, expected a boolean"

theorem reads_bool (value : Bool) : bool.Reads value True := Yields.ok value

def string : Serde String where
  serialize := .string
  deserialize json :=
    match json with
    | .string text => .ok text
    | _ => .error "invalid type, expected a string"

theorem reads_string (value : String) : string.Reads value True := Yields.ok value

def option (serde : Serde α) : Serde (Option α) where
  serialize value := (value.map serde.serialize).getD .null
  deserialize json :=
    match json with
    | .null => .ok none
    | json => some <$> serde.deserialize json

variable {serde : Serde α}

theorem reads_option {value : Option α} {accepts : α → Prop}
    (present : ∀ inner ∈ value, serde.serialize inner ≠ .null)
    (each : ∀ inner ∈ value, serde.Reads inner (accepts inner)) :
    (option serde).Reads value (∀ inner ∈ value, accepts inner) := by
  cases value with
  | none => exact (Yields.ok none).congr (by simp)
  | some inner =>
    have written : serde.serialize inner ≠ .null := present inner rfl
    have reads : (option serde).deserialize (serde.serialize inner) =
        (serde.deserialize (serde.serialize inner) >>= fun value => pure (some value)) := by
      unfold option
      cases shape : serde.serialize inner with
      | null => exact absurd shape written
      | bool => rfl
      | number => rfl
      | string => rfl
      | array => rfl
      | object => rfl
    have whole : Yields ((option serde).deserialize (serde.serialize inner)) (some inner)
        (accepts inner) := by
      rw [reads]
      exact (each inner rfl).bind_pure
    exact whole.congr (by simp)

def list (serde : Serde α) : Serde (List α) where
  serialize values := .array (values.map serde.serialize)
  deserialize json :=
    match json with
    | .array items => items.mapM serde.deserialize
    | _ => .error "invalid type, expected a sequence"

theorem reads_list {values : List α} {accepts : α → Prop}
    (each : ∀ value ∈ values, serde.Reads value (accepts value)) :
    (list serde).Reads values (∀ value ∈ values, accepts value) :=
  Yields.mapM values each

/-! ## Maps -/

/-- Map keys as the names of an object. -/
structure KeyText (κ : Type) where
  toText : κ → String
  ofText : String → Except String κ
  ofText_toText : ∀ key, ofText (toText key) = .ok key

def stringKey : KeyText String where
  toText := id
  ofText := .ok
  ofText_toText _ := rfl

def u64Key : KeyText UInt64 where
  toText key := String.ofList (Nat.toDigits 10 key.toNat)
  ofText text :=
    match readNatural text.toList with
    | some value =>
      if value < 2 ^ 64 then .ok (UInt64.ofNat value) else .error "invalid value, expected u64"
    | none => .error "invalid type, expected u64"
  ofText_toText key := by
    have small : key.toNat < 2 ^ 64 := key.toNat_lt
    simp only [String.toList_ofList, readNatural_toDigits, if_pos small, UInt64.ofNat_toNat]

/-- One member of an object that is a map. -/
def readEntry (key : KeyText κ) (serde : Serde ν) (entry : String × Json) :
    Except String (κ × ν) := do
  let name ← key.ofText entry.1
  let value ← serde.deserialize entry.2
  return (name, value)

variable {accepted : Prop}

theorem yields_readEntry {key : KeyText κ} {serde : Serde ν} (entry : κ × ν)
    (reads : serde.Reads entry.2 accepted) :
    Yields (readEntry key serde (key.toText entry.1, serde.serialize entry.2)) entry accepted := by
  have unfolded : readEntry key serde (key.toText entry.1, serde.serialize entry.2) =
      (serde.deserialize (serde.serialize entry.2) >>= fun value => pure (entry.1, value)) := by
    simp [readEntry, key.ofText_toText, bind, Except.bind]
  rw [unfolded]
  exact reads.bind_pure

def map [Ord κ] [Std.TransOrd κ] (key : KeyText κ) (serde : Serde ν) :
    Serde (Std.ExtTreeMap κ ν) where
  serialize entries :=
    .object (entries.toList.map fun entry => (key.toText entry.1, serde.serialize entry.2))
  deserialize json :=
    match json with
    | .object entries => do
        let entries ← entries.mapM (readEntry key serde)
        return entries.foldl (fun rebuilt entry => rebuilt.insert entry.1 entry.2) ∅
    | _ => .error "invalid type, expected a map"

theorem reads_map [DecidableEq κ] [Ord κ] [Std.TransOrd κ] [Std.LawfulEqOrd κ] {key : KeyText κ}
    {serde : Serde ν} {entries : Std.ExtTreeMap κ ν} {accepts : ν → Prop}
    (each : ∀ value, serde.Reads value (accepts value)) :
    (map key serde).Reads entries (∀ entry ∈ entries.toList, accepts entry.2) := by
  have readsEntry : ∀ entry ∈ entries.toList,
      Yields (readEntry key serde (key.toText entry.1, serde.serialize entry.2)) entry
        (accepts entry.2) :=
    fun entry _ => yields_readEntry entry (each entry.2)
  have rebuilt := (Yields.mapM entries.toList readsEntry).bind_pure
    (f := fun read => read.foldl
      (fun (rebuilt : Std.ExtTreeMap κ ν) entry => rebuilt.insert entry.1 entry.2) ∅)
  rw [OrderedMap.foldl_insert_toList] at rebuilt
  exact rebuilt

/-! ## Structures and enumerations -/

/-- Some fields of a structure: the members they are written as, in order, and
what is left of an object's members behind them. -/
structure Fields (α : Type) where
  write : α → List (String × Json)
  read : List (String × Json) → Except String (α × List (String × Json))

def Fields.one (name : String) (serde : Serde α) : Fields α where
  write value := [(name, serde.serialize value)]
  read
    | (found, json) :: more =>
      if found = name then serde.deserialize json >>= fun value => pure (value, more)
      else .error s!"missing field {name}"
    | [] => .error s!"missing field {name}"

def Fields.and (first : Fields α) (second : Fields β) : Fields (α × β) where
  write pair := first.write pair.1 ++ second.write pair.2
  read members := do
    let left ← first.read members
    let right ← second.read left.2
    return ((left.1, right.1), right.2)

def record (fields : Fields β) (split : α → β) (join : β → α) : Serde α where
  serialize value := .object (fields.write (split value))
  deserialize json :=
    match json with
    | .object members => fields.read members >>= fun found => pure (join found.1)
    | _ => .error "invalid type, expected a struct"

def Fields.Reads (fields : Fields α) (value : α) (accepted : Prop) : Prop :=
  ∀ more, Yields (fields.read (fields.write value ++ more)) (value, more) accepted

theorem Fields.Reads.one {name : String} {value : α} (reads : serde.Reads value accepted) :
    (Fields.one name serde).Reads value accepted := by
  intro more
  simp only [Fields.one, List.singleton_append, if_pos]
  exact reads.bind_pure

theorem Fields.Reads.and {first : Fields α} {second : Fields β} {left : α} {right : β}
    {acceptedNext : Prop} (reads : first.Reads left accepted)
    (readsNext : second.Reads right acceptedNext) :
    (first.and second).Reads (left, right) (accepted ∧ acceptedNext) := by
  intro more
  simp only [Fields.and, List.append_assoc]
  exact (reads _).bind (readsNext more).bind_pure

theorem reads_record {fields : Fields β} {split : α → β} {join : β → α} {value : α}
    {expected : Prop} (reads : fields.Reads (split value) accepted)
    (joined : join (split value) = value) (same : accepted ↔ expected) :
    (record fields split join).Reads value expected := by
  have whole := ((reads []).congr same).bind_pure (f := fun found => join found.1)
  rw [List.append_nil, joined] at whole
  exact whole

/-- The name of an enumeration's case and the data it carries. -/
def variant (json : Json) : Except String (String × Option Json) :=
  match json with
  | .string name => .ok (name, none)
  | .object [(name, data)] => .ok (name, some data)
  | _ => .error "invalid type, expected an enum"

def tagged (name : String) (data : Json) : Json := .object [(name, data)]

end Serde

end FocalVector.Foundation
